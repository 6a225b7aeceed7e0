import StrusWebService.AnaConfig.Tokens

/-! # Layouts of a configuration

A layout is a sequence of section headers and commands as it is written: lexemes,
semicolons, blanks, line breaks and comments. `commands_layout` says that the converter reads
the commands from any layout in which every semicolon ends its line and no lexeme goes
on behind a line break, which the converter does not see. Then the output depends on
the tokens only and every command has its object in it.
-/

namespace StrusWebService.AnaConfig

open Text (isSpace)

inductive Atom where
  | blank (c : UInt8) (h : isBlank c = true)
  | newline
  | piece (p : Piece)
  | semicolon
  | header (name blanks : Bytes)
  | comment (blanks text : Bytes)

/-- What a layout is a layout of. -/
inductive Sign where
  | header (name : Bytes)
  | token (token : Bytes)
  | semicolon
  deriving DecidableEq, Repr

namespace Atom

def render : Atom → Bytes
  | blank c _ => [c]
  | newline => [10]
  | piece p => p.first ++ p.behind.flatMap (10 :: ·)
  | semicolon => [59]
  | header name blanks => 91 :: (name ++ 93 :: blanks)
  | comment blanks text => blanks ++ 35 :: text

def sign : Atom → Option Sign
  | blank _ _ => none
  | newline => none
  | piece p => some (.token p.token)
  | semicolon => some .semicolon
  | header name _ => some (.header name)
  | comment _ _ => none

end Atom

/-- The text that the lines of a layout are read from. -/
def written (atoms : List Atom) : Bytes := atoms.flatMap Atom.render

def signs (atoms : List Atom) : List Sign := atoms.filterMap Atom.sign

/-- What stands up to the end of the command, without line breaks and comments. -/
def following : List Atom → Bytes
  | [] => []
  | .blank c _ :: atoms => c :: following atoms
  | .newline :: atoms => following atoms
  | .piece p :: atoms => p.text ++ following atoms
  | .semicolon :: _ => []
  | .header _ _ :: _ => []
  | .comment _ _ :: atoms => following atoms

def EndsLine : List Atom → Prop
  | [] => True
  | .newline :: _ => True
  | _ => False

/-- Headers and comments stand on lines of their own, headers between commands, and the
last command ends. -/
def Valid (lineStart pending : Bool) : List Atom → Prop
  | [] => pending = false
  | .blank _ _ :: atoms => Valid false pending atoms
  | .newline :: atoms => Valid true pending atoms
  | .piece _ :: atoms => Valid false true atoms
  | .semicolon :: atoms => Valid false false atoms
  | .header name blanks :: atoms =>
      (lineStart = true ∧ pending = false) ∧ (93 ∉ name ∧ 10 ∉ name) ∧
        (∀ c ∈ blanks, isBlank c = true) ∧ EndsLine atoms ∧ Valid false false atoms
  | .comment blanks text :: atoms =>
      lineStart = true ∧ 10 ∉ text ∧ (∀ c ∈ blanks, isBlank c = true) ∧ EndsLine atoms ∧
        Valid false pending atoms

/-- No lexeme goes on when the line breaks are gone. -/
def Spaced : List Atom → Prop
  | [] => True
  | .piece p :: atoms => Delimits p.text (following atoms) ∧ Spaced atoms
  | _ :: atoms => Spaced atoms

/-- Every semicolon is the end of its line. -/
def EndsLines : List Atom → Prop
  | [] => True
  | .semicolon :: atoms => EndsLine atoms ∧ EndsLines atoms
  | _ :: atoms => EndsLines atoms

/-! ### The commands of a sequence -/

/-- Every token is written with a blank behind it. -/
def Draft.sign (d : Draft) : Sign → Option Draft
  | .header name =>
      (sectionNameMap.lookup (lc name)).join.map fun channel => { d with channel := channel }
  | .token token => some { d with src := d.src ++ (token ++ [32]) }
  | .semicolon => d.command

/-- The commands of a sequence of headers and commands, if all are accepted. -/
def commandsOfSigns (ss : List Sign) : Option (List (Channel × Command)) :=
  (ss.foldlM Draft.sign Draft.start).map Draft.commands

theorem length_command {d d' : Draft} (h : d.command = some d') :
    d'.commands.length = d.commands.length + 1 := by
  obtain ⟨⟨c, rest⟩, -, hmore⟩ := Option.bind_eq_some_iff.mp h
  dsimp only at hmore
  split at hmore
  · cases hmore
    exact List.length_append
  · nomatch hmore

theorem length_commandsOfSigns {ss : List Sign} {cs : List (Channel × Command)}
    (h : commandsOfSigns ss = some cs) : cs.length = ss.count .semicolon := by
  have hrun : ∀ (ss : List Sign) (d d' : Draft), ss.foldlM Draft.sign d = some d' →
      d'.commands.length = d.commands.length + ss.count .semicolon := by
    intro ss
    induction ss with
    | nil =>
        intro d d' hd
        cases hd
        rfl
    | cons s ss ih =>
        intro d d' hd
        rw [List.foldlM_cons] at hd
        obtain ⟨d₁, hd₁, hmore⟩ := Option.bind_eq_some_iff.mp hd
        have hrest := ih d₁ d' hmore
        cases s with
        | header name =>
            obtain ⟨channel, -, heq⟩ := Option.map_eq_some_iff.mp hd₁
            rw [← heq] at hrest
            simpa using hrest
        | token token =>
            cases hd₁
            simpa using hrest
        | semicolon =>
            have hlength : d₁.commands.length = d.commands.length + 1 := length_command hd₁
            rw [hrest, hlength, List.count_cons_self]
            omega
  obtain ⟨d, hd, rfl⟩ := Option.map_eq_some_iff.mp h
  have hlength := hrun ss Draft.start d hd
  rw [hlength]
  exact Nat.zero_add _

/-! ### Lines of a layout -/

theorem classify_content {line : Bytes} (h : Content line) : classify line = some (.part line) := by
  rw [classify, if_neg h.first, if_neg (fun hbad => h.head hbad.1), if_neg h.last]

/-- A semicolon ends the command if it is the last one of the line. -/
theorem classify_semicolon {line : Bytes} (h : Content line) (more : Bytes) :
    classify (line ++ 59 :: more) =
      if (line ++ 59 :: more).getLast? = some 59 then some (.ends (line ++ 59 :: more).dropLast)
      else some (.part (line ++ 59 :: more)) := by
  have hcomment : ((line ++ 59 :: more).dropWhile isSpace).head? ≠ some 35 := by
    rw [List.dropWhile_append]
    intro heq
    split at heq
    · cases heq
    · rename_i hne
      cases hline : line.dropWhile isSpace with
      | nil => simp [hline] at hne
      | cons d behind =>
          rw [hline] at heq
          apply h.first
          rw [hline]
          exact heq
  have hheader : (line ++ 59 :: more).head? ≠ some 91 := by
    intro heq
    cases line with
    | nil => cases heq
    | cons c line => exact h.head heq
  rw [classify, if_neg hcomment, if_neg (fun hbad => hheader hbad.1)]

theorem classify_ends {line : Bytes} (h : Content line) :
    classify (line ++ [59]) = some (.ends line) := by
  rw [classify_semicolon h, List.getLast?_concat, if_pos rfl, List.dropLast_concat]

theorem classify_header {name blanks : Bytes} (hname : 93 ∉ name)
    (hblanks : ∀ c ∈ blanks, isBlank c = true) :
    classify (91 :: (name ++ 93 :: blanks)) =
      (sectionNameMap.lookup (lc name)).join.map Line.header := by
  have hinside : ∀ c ∈ name, decide (c ≠ 93) = true := by
    intro c hc
    exact decide_eq_true fun heq => hname (heq ▸ hc)
  have hstop : ∀ c ∈ (93 :: blanks).head?, decide (c ≠ 93) = false := by
    intro c hc
    cases hc
    rfl
  have hspace : blanks.all isSpace = true :=
    List.all_eq_true.mpr fun c hc => isSpace_of_isBlank (hblanks c hc)
  have hcomment : ((91 :: (name ++ 93 :: blanks)).dropWhile isSpace).head? ≠ some 35 := by
    rw [List.dropWhile_cons_of_neg (by decide)]
    intro heq
    cases heq
  rw [classify, if_neg hcomment, if_pos ⟨rfl, by simp⟩, List.tail_cons,
    dropWhile_append_stop hinside hstop, takeWhile_append_stop hinside hstop, List.tail_cons]
  dsimp only
  rw [if_pos hspace]

theorem processLine_header {name blanks : Bytes} (hname : 93 ∉ name)
    (hblanks : ∀ c ∈ blanks, isBlank c = true) (d : Draft) :
    Draft.processLine d (91 :: (name ++ 93 :: blanks)) =
      (sectionNameMap.lookup (lc name)).join.map fun channel => { d with channel := channel } := by
  rw [Draft.processLine, classify_header hname hblanks]
  cases (sectionNameMap.lookup (lc name)).join with
  | none => rfl
  | some channel => rfl

theorem header_noBreak {name blanks : Bytes} (hname : 10 ∉ name)
    (hblanks : ∀ c ∈ blanks, isBlank c = true) : 10 ∉ 91 :: (name ++ 93 :: blanks) := by
  have hnone : 10 ∉ blanks := fun hmem => absurd (hblanks 10 hmem) (by decide)
  simp [hname, hnone]

theorem processLine_comment {blanks : Bytes} (hblanks : ∀ c ∈ blanks, isBlank c = true)
    (text : Bytes) (d : Draft) : Draft.processLine d (blanks ++ 35 :: text) = some d := by
  have hspace : ∀ c ∈ blanks, isSpace c = true := fun c hc => isSpace_of_isBlank (hblanks c hc)
  have hcomment : ((blanks ++ 35 :: text).dropWhile isSpace).head? = some 35 := by
    rw [List.dropWhile_append_of_pos hspace, List.dropWhile_cons_of_neg (by decide)]
    rfl
  rw [Draft.processLine, classify, if_pos hcomment]
  rfl

theorem comment_noBreak {blanks text : Bytes} (htext : 10 ∉ text)
    (hblanks : ∀ c ∈ blanks, isBlank c = true) : 10 ∉ blanks ++ 35 :: text := by
  have hnone : 10 ∉ blanks := fun hmem => absurd (hblanks 10 hmem) (by decide)
  simp [htext, hnone]

theorem lines_line {line : Bytes} (h : 10 ∉ line) (rest : Bytes) :
    lines (line ++ 10 :: rest) = line :: lines rest := by
  induction line with
  | nil => rfl
  | cons c line ih =>
      have hc : c ≠ 10 := fun heq => h (heq ▸ List.mem_cons_self)
      rw [List.cons_append, lines, if_neg hc, ih fun hmem => h (List.mem_cons_of_mem c hmem)]

theorem lines_last {line : Bytes} (h : 10 ∉ line) : lines line = if line = [] then [] else [line] := by
  induction line with
  | nil => rfl
  | cons c line ih =>
      have hc : c ≠ 10 := fun heq => h (heq ▸ List.mem_cons_self)
      rw [lines, if_neg hc, ih fun hmem => h (List.mem_cons_of_mem c hmem)]
      cases line with
      | nil => rfl
      | cons d line => rfl

/-! ### The converter on a layout -/

/-- The lines of a token are joined. -/
theorem run_piece (p : Piece) (d : Draft) {line : Bytes} (hline : Content line) (rest : Bytes) :
    ∃ src more, Content more ∧ src ++ more = d.src ++ line ++ p.text ∧
      (lines (line ++ (p.first ++ p.behind.flatMap (10 :: ·) ++ rest))).foldlM Draft.processLine d =
        (lines (more ++ rest)).foldlM Draft.processLine { d with src := src } := by
  have hrun : ∀ (lns : List Bytes) (d : Draft) (line : Bytes), Content line →
      (∀ ln ∈ lns, Content ln) → ∃ src more, Content more ∧ src ++ more = d.src ++ line ++ lns.flatten ∧
        (lines (line ++ (lns.flatMap (10 :: ·) ++ rest))).foldlM Draft.processLine d =
          (lines (more ++ rest)).foldlM Draft.processLine { d with src := src } := by
    intro lns
    induction lns with
    | nil =>
        intro d line hline _
        exact ⟨d.src, line, hline, (List.append_nil _).symm, rfl⟩
    | cons ln lns ih =>
        intro d line hline hlns
        obtain ⟨hln, hlns⟩ := List.forall_mem_cons.mp hlns
        obtain ⟨src, more, hmore, hjoined, hlines⟩ :=
          ih { d with src := d.src ++ line } ln hln hlns
        refine ⟨src, more, hmore, ?_, ?_⟩
        · simpa using hjoined
        · have hsplit := lines_line hline.noBreak (ln ++ (lns.flatMap (10 :: ·) ++ rest))
          have hpart : Draft.processLine d line = some { d with src := d.src ++ line } := by
            rw [Draft.processLine, classify_content hline]
            rfl
          rw [List.flatMap_cons, List.append_assoc, List.cons_append, hsplit, List.foldlM_cons,
            hpart]
          exact hlines
  obtain ⟨hfirst, hbehind⟩ := List.forall_mem_cons.mp p.content
  obtain ⟨src, more, hmore, hjoined, hlines⟩ :=
    hrun p.behind d (line ++ p.first) (hline.append hfirst) hbehind
  refine ⟨src, more, hmore, ?_, ?_⟩
  · simpa [Piece.text] using hjoined
  · simpa using hlines

/-- A draft and the line read so far hold the lexemes whose tokens the other draft holds. -/
structure Tracks (d : Draft) (line : Bytes) (d' : Draft) (pending : Bool) (rest : Bytes) : Prop where
  channel : d.channel = d'.channel
  commands : d.commands = d'.commands
  content : Content line
  src : ∃ ps blanks, (∀ c ∈ blanks, isBlank c = true) ∧ d.src ++ line = source ps ++ blanks ∧
    d'.src = spell (tokensOf ps) ∧ Separated ps (blanks ++ rest) ∧ (pending = false → ps = [])

namespace Tracks

variable {d d' : Draft} {line rest : Bytes} {pending : Bool}

theorem start (hsrc : d.src = []) : Tracks d [] d false rest where
  channel := rfl
  commands := rfl
  content := content_nil
  src := ⟨[], [], (fun c hc => nomatch hc), by rw [hsrc]; rfl, hsrc, trivial, fun _ => rfl⟩

theorem header (h : Tracks d [] d' false rest) (channel : Channel) (rest' : Bytes) :
    Tracks { d with channel := channel } [] { d' with channel := channel } false rest' where
  channel := rfl
  commands := h.commands
  content := content_nil
  src := by
    obtain ⟨ps, blanks, hblanks, hsrc, hsrc', -, hpending⟩ := h.src
    obtain rfl := hpending rfl
    exact ⟨[], blanks, hblanks, hsrc, hsrc', trivial, fun _ => rfl⟩

theorem blank {c : UInt8} (h : Tracks d line d' pending (c :: rest)) (hc : isBlank c = true) :
    Tracks d (line ++ [c]) d' pending rest where
  channel := h.channel
  commands := h.commands
  content := h.content.append (content_blank hc)
  src := by
    obtain ⟨ps, blanks, hblanks, hsrc, hsrc', hps, hpending⟩ := h.src
    refine ⟨ps, blanks ++ [c], ?_, ?_, hsrc', ?_, hpending⟩
    · exact List.forall_mem_append.mpr ⟨hblanks, List.forall_mem_singleton.mpr hc⟩
    · rw [← List.append_assoc, hsrc, List.append_assoc]
    · simpa using hps

/-- The text may have been read over several lines. -/
theorem piece {p : Piece} (h : Tracks d line d' pending (p.text ++ rest))
    (hp : Delimits p.text rest) {src more : Bytes} (hmore : Content more)
    (hjoined : src ++ more = d.src ++ line ++ p.text) :
    Tracks { d with src := src } more { d' with src := d'.src ++ (p.token ++ [32]) } true rest where
  channel := h.channel
  commands := h.commands
  content := hmore
  src := by
    obtain ⟨ps, blanks, hblanks, hsrc, hsrc', hps, -⟩ := h.src
    refine ⟨ps ++ [⟨blanks, p, hblanks⟩], [], (fun c hc => nomatch hc), ?_, ?_, ?_,
      fun hpending => nomatch hpending⟩
    · show src ++ more = _
      rw [hjoined, hsrc]
      simp [source]
    · simp [hsrc', spell, tokensOf]
    · exact separated_concat hps hp

theorem newline (h : Tracks d line d' pending rest) :
    Tracks { d with src := d.src ++ line } [] d' pending rest where
  channel := h.channel
  commands := h.commands
  content := content_nil
  src := by
    rw [List.append_nil]
    exact h.src

/-- At the end of a command both drafts spell its tokens. -/
theorem command (h : Tracks d line d' pending []) :
    Draft.command { d with src := d.src ++ line } = d'.command := by
  apply sameDraft_command
  obtain ⟨ps, blanks, hblanks, hsrc, hsrc', hps, -⟩ := h.src
  rw [List.append_nil] at hps
  have hspace : blanks.all isSpace = true :=
    List.all_eq_true.mpr fun c hc => isSpace_of_isBlank (hblanks c hc)
  exact
    { src := by
        refine ⟨tokensOf ps, ?_, ?_⟩
        · rw [hsrc]
          exact spells_source hps hspace
        · have hnone : ∀ c ∈ ([] : Bytes), isBlank c = true := fun c hc => nomatch hc
          rw [hsrc']
          exact spells_spell ps hnone
      channel := h.channel
      commands := h.commands }

end Tracks

theorem command_src {d d' : Draft} (h : d.command = some d') : d'.src = [] := by
  obtain ⟨⟨c, rest⟩, -, hmore⟩ := Option.bind_eq_some_iff.mp h
  dsimp only at hmore
  split at hmore
  · cases hmore
    rfl
  · nomatch hmore

/-- An induction over a layout that may also go on behind the line break after an atom. -/
theorem layout_induct {motive : List Atom → Prop} (nil : motive [])
    (cons : ∀ a atoms, motive atoms → (∀ more, atoms = .newline :: more → motive more) →
      motive (a :: atoms)) (atoms : List Atom) : motive atoms := by
  have hboth : motive atoms ∧ ∀ more, atoms = .newline :: more → motive more := by
    induction atoms with
    | nil => exact ⟨nil, fun more h => absurd h (List.cons_ne_nil .newline more).symm⟩
    | cons a atoms ih =>
        apply And.intro (cons a atoms ih.1 ih.2)
        intro more h
        rw [← (List.cons.inj h).2]
        exact ih.1
  exact hboth.1

theorem endsLine_cases {atoms : List Atom} (h : EndsLine atoms) :
    atoms = [] ∨ ∃ more, atoms = .newline :: more := by
  cases atoms with
  | nil => exact Or.inl rfl
  | cons a atoms =>
      cases a with
      | newline => exact Or.inr ⟨atoms, rfl⟩
      | _ => exact False.elim h

section Lines

variable {d d' : Draft} {line : Bytes} {pending : Bool} {atoms : List Atom}

theorem processLine_content (h : Content line) :
    Draft.processLine d line = some { d with src := d.src ++ line } := by
  rw [Draft.processLine, classify_content h]
  rfl

theorem processLine_ends (h : Tracks d line d' pending []) :
    Draft.processLine d (line ++ [59]) = d'.command := by
  rw [Draft.processLine, classify_ends h.content]
  exact h.command

theorem semicolon_noBreak : (10 : UInt8) ∉ ([59] : Bytes) := by decide

/-! Runs over the lines of a layout, up to the next atom that a line may start with. -/

theorem run_newline (h : Content line) (atoms : List Atom) (d : Draft) :
    (lines (line ++ written (.newline :: atoms))).foldlM Draft.processLine d =
      (lines ([] ++ written atoms)).foldlM Draft.processLine { d with src := d.src ++ line } := by
  have hlines : lines (line ++ written (.newline :: atoms)) = line :: lines (written atoms) :=
    lines_line h.noBreak (written atoms)
  rw [hlines, List.foldlM_cons, processLine_content h]
  rfl

theorem run_semicolon (h : Tracks d line d' pending []) (atoms : List Atom) :
    (lines (line ++ written (.semicolon :: .newline :: atoms))).foldlM Draft.processLine d =
      d'.command.bind fun d₁ => (lines ([] ++ written atoms)).foldlM Draft.processLine d₁ := by
  have hlines := lines_line (append_noBreak h.content.noBreak semicolon_noBreak) (written atoms)
  rw [List.append_assoc] at hlines
  have hsplit : lines (line ++ written (.semicolon :: .newline :: atoms)) =
      (line ++ [59]) :: lines (written atoms) := hlines
  rw [hsplit, List.foldlM_cons, processLine_ends h]
  rfl

theorem run_header {name blanks : Bytes} (hbracket : 93 ∉ name) (hbreak : 10 ∉ name)
    (hblanks : ∀ c ∈ blanks, isBlank c = true) (atoms : List Atom) (d : Draft) :
    (lines ([] ++ written (.header name blanks :: .newline :: atoms))).foldlM Draft.processLine d =
      (sectionNameMap.lookup (lc name)).join.bind fun channel =>
        (lines ([] ++ written atoms)).foldlM Draft.processLine { d with channel := channel } := by
  have hlines : lines ([] ++ written (.header name blanks :: .newline :: atoms)) =
      (91 :: (name ++ 93 :: blanks)) :: lines (written atoms) :=
    lines_line (header_noBreak hbreak hblanks) (written atoms)
  rw [hlines, List.foldlM_cons, processLine_header hbracket hblanks]
  exact Option.bind_map

theorem run_comment {blanks text : Bytes} (hbreak : 10 ∉ text)
    (hblanks : ∀ c ∈ blanks, isBlank c = true) (atoms : List Atom) (d : Draft) :
    (lines ([] ++ written (.comment blanks text :: .newline :: atoms))).foldlM Draft.processLine d =
      (lines ([] ++ written atoms)).foldlM Draft.processLine d := by
  have hlines : lines ([] ++ written (.comment blanks text :: .newline :: atoms)) =
      (blanks ++ 35 :: text) :: lines (written atoms) :=
    lines_line (comment_noBreak hbreak hblanks) (written atoms)
  rw [hlines, List.foldlM_cons, processLine_comment hblanks]
  rfl

/-! A command, a header or a comment may stand on the last line. -/

theorem lines_semicolon_last (h : Content line) :
    lines (line ++ written [.semicolon]) = [line ++ [59]] := by
  show lines (line ++ [59]) = _
  rw [lines_last (append_noBreak h.noBreak semicolon_noBreak), if_neg (by simp)]

theorem lines_header_last {name blanks : Bytes} (hname : 10 ∉ name)
    (hblanks : ∀ c ∈ blanks, isBlank c = true) :
    lines ([] ++ written [.header name blanks]) = [91 :: (name ++ 93 :: blanks)] := by
  show lines (91 :: (name ++ 93 :: blanks) ++ []) = _
  rw [List.append_nil, lines_last (header_noBreak hname hblanks), if_neg (List.cons_ne_nil _ _)]

theorem lines_comment_last {blanks text : Bytes} (htext : 10 ∉ text)
    (hblanks : ∀ c ∈ blanks, isBlank c = true) :
    lines ([] ++ written [.comment blanks text]) = [blanks ++ 35 :: text] := by
  show lines ((blanks ++ 35 :: text) ++ []) = _
  rw [List.append_nil, lines_last (comment_noBreak htext hblanks), if_neg (by simp)]

end Lines

/-- The lines of a layout give the same commands as its tokens. -/
theorem run_layout (atoms : List Atom) (d : Draft) (line : Bytes) (d' : Draft)
    (lineStart pending : Bool) (hvalid : Valid lineStart pending atoms) (hspaced : Spaced atoms)
    (hends : EndsLines atoms)
    (htracks : Tracks d line d' pending (following atoms)) (hline : lineStart = true → line = []) :
    ((lines (line ++ written atoms)).foldlM Draft.processLine d).map Draft.commands =
      ((signs atoms).foldlM Draft.sign d').map Draft.commands := by
  induction atoms using layout_induct generalizing d line d' lineStart pending with
  | nil =>
      rw [written, List.flatMap_nil, List.append_nil, lines_last htracks.content.noBreak]
      split
      · exact congrArg some htracks.commands
      · rw [List.foldlM_cons, processLine_content htracks.content]
        exact congrArg some htracks.commands
  | cons a atoms ih ihline =>
      cases a with
      | blank c hc =>
          have hnext := ih d (line ++ [c]) d' false pending hvalid hspaced hends
            (htracks.blank hc) fun h => Bool.noConfusion h
          rwa [List.append_assoc] at hnext
      | piece p =>
          obtain ⟨src, more, hmore, hjoined, hrun⟩ := run_piece p d htracks.content (written atoms)
          have hnext := ih _ more _ false true hvalid hspaced.2 hends
            (htracks.piece hspaced.1 hmore hjoined) fun h => Bool.noConfusion h
          show ((lines (line ++ (p.first ++ p.behind.flatMap (10 :: ·) ++ written atoms))).foldlM
            Draft.processLine d).map Draft.commands = _
          rw [hrun]
          exact hnext
      | newline =>
          rw [run_newline htracks.content]
          exact ih _ [] d' true pending hvalid hspaced hends htracks.newline fun _ => rfl
      | semicolon =>
          cases endsLine_cases hends.1 with
          | inl hnil =>
              subst hnil
              rw [lines_semicolon_last htracks.content, List.foldlM_cons, processLine_ends htracks]
              rfl
          | inr hnewline =>
              rcases hnewline with ⟨more, rfl⟩
              have hsigns : signs (.semicolon :: .newline :: more) = .semicolon :: signs more := rfl
              rw [run_semicolon htracks, hsigns, List.foldlM_cons, Draft.sign]
              cases hresult : d'.command with
              | none => rfl
              | some d₁ =>
                  exact ihline more rfl d₁ [] d₁ true false hvalid hspaced hends.2
                    (Tracks.start (command_src hresult)) fun _ => rfl
      | header name blanks =>
          rcases hvalid with ⟨⟨hstart, rfl⟩, ⟨hbracket, hbreak⟩, hblanks, hend, hvalid⟩
          obtain rfl := hline hstart
          cases endsLine_cases hend with
          | inl hnil =>
              subst hnil
              have hsigns : signs [.header name blanks] = [.header name] := rfl
              rw [lines_header_last hbreak hblanks, hsigns, List.foldlM_cons, List.foldlM_cons,
                processLine_header hbracket hblanks, Draft.sign]
              cases (sectionNameMap.lookup (lc name)).join with
              | none => rfl
              | some channel => exact congrArg some htracks.commands
          | inr hnewline =>
              rcases hnewline with ⟨more, rfl⟩
              have hsigns : signs (.header name blanks :: .newline :: more) =
                  .header name :: signs more := rfl
              rw [run_header hbracket hbreak hblanks, hsigns, List.foldlM_cons, Draft.sign]
              cases (sectionNameMap.lookup (lc name)).join with
              | none => rfl
              | some channel =>
                  exact ihline more rfl _ [] _ true false hvalid hspaced hends
                    (htracks.header channel (following more)) fun _ => rfl
      | comment blanks text =>
          rcases hvalid with ⟨hstart, hbreak, hblanks, hend, hvalid⟩
          obtain rfl := hline hstart
          cases endsLine_cases hend with
          | inl hnil =>
              subst hnil
              rw [lines_comment_last hbreak hblanks, List.foldlM_cons, processLine_comment hblanks]
              exact congrArg some htracks.commands
          | inr hnewline =>
              rcases hnewline with ⟨more, rfl⟩
              rw [run_comment hbreak hblanks]
              exact ihline more rfl d [] d' true pending hvalid hspaced hends htracks fun _ => rfl

theorem commands_layout {atoms : List Atom} (hvalid : Valid true false atoms)
    (hspaced : Spaced atoms) (hends : EndsLines atoms) :
    commands (written atoms) = commandsOfSigns (signs atoms) :=
  run_layout atoms Draft.start [] Draft.start true false hvalid hspaced hends (Tracks.start rfl)
    fun _ => rfl

end StrusWebService.AnaConfig
