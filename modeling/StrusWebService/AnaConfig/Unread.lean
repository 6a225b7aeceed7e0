import StrusWebService.AnaConfig.Layout
import StrusWebService.AnaConfig.WellFormed
import Mathlib.Data.List.Forall2

/-! # What the converter does not read

The converter sees the end of a command only at the end of a line. With anything behind
a semicolon on its line, what has been read of the command is never accepted again: the
commands from there on are lost, or the input is rejected.
-/

namespace StrusWebService.AnaConfig

open Text (isSpace str)

/-! ### Sources with a semicolon -/

theorem separated_end {ps : List Placed} {rest rest' : Bytes} (h : Separated ps rest)
    (hrest : ∀ c ∈ rest'.head?, c = 59 ∨ c ∈ rest.head?) : Separated ps rest' := by
  induction ps with
  | nil => trivial
  | cons p ps ih =>
      show Delimits p.piece.text (source ps ++ rest') ∧ Separated ps rest'
      apply And.intro ?_ (ih h.2)
      have hdelimits : Delimits p.piece.text (source ps ++ rest) := h.1
      intro c hc
      cases hsource : source ps with
      | nil =>
          rw [hsource] at hc hdelimits
          cases hrest c hc with
          | inl heq => exact p.piece.lexeme.runsOn_end (Or.inr heq)
          | inr hmem => exact hdelimits c hmem
      | cons d behind =>
          rw [hsource] at hc hdelimits
          exact hdelimits c hc

/-- The lexer gets to a semicolon, which is not a token. -/
def Stuck (src : Bytes) : Prop :=
  ∃ ps blanks more, (∀ c ∈ blanks, isBlank c = true) ∧ src = source ps ++ (blanks ++ 59 :: more) ∧
    Separated ps (blanks ++ 59 :: more)

theorem Stuck.append {src : Bytes} (h : Stuck src) (behind : Bytes) : Stuck (src ++ behind) := by
  rcases h with ⟨ps, blanks, more, hblanks, hsrc, hps⟩
  refine ⟨ps, blanks, more ++ behind, hblanks, by simp [hsrc], separated_end hps ?_⟩
  intro c hc
  apply Or.inr
  cases blanks with
  | nil => exact hc
  | cons d blanks => exact hc

theorem Stuck.not_eof {src : Bytes} (h : Stuck src) : src.all isSpace = false := by
  rcases h with ⟨ps, blanks, more, -, hsrc, -⟩
  rw [hsrc, List.all_eq_false]
  exact ⟨59, by simp, by decide⟩

theorem blind_stuck : Blind (fun src src' => src = src' ∧ Stuck src) fun _ => True where
  token := by
    intro src src' hstuck
    rcases hstuck with ⟨rfl, ps, blanks, more, hblanks, rfl, hps⟩
    cases ps with
    | nil =>
        have hskip : lexerSkipSpaces (blanks ++ 59 :: more) = 59 :: more := by
          rw [lexerSkipSpaces, List.dropWhile_append_of_pos hblanks,
            List.dropWhile_cons_of_neg (by decide)]
        have hnone : lexerParseToken (blanks ++ 59 :: more) = none := by
          rw [lexerParseToken, lexerParseToken_, hskip]
          rfl
        exact Or.inl ⟨hnone, hnone⟩
    | cons p ps =>
        have htoken := lexerParseToken_source hps
        exact Or.inr ⟨_, _, _, htoken, htoken, trivial, rfl, ps, blanks, more, hblanks, rfl, hps.2⟩
  eof := by
    intro src src' hstuck
    rcases hstuck with ⟨rfl, hstuck⟩
    exact Or.inr ⟨_, src, src, rfl, rfl, trivial, rfl, hstuck⟩

theorem Stuck.command {d d' : Draft} (h : Stuck d.src) (hd : d.command = some d') : False := by
  obtain ⟨⟨c, rest⟩, hread, hmore⟩ := Option.bind_eq_some_iff.mp hd
  cases alike_readCommand blind_stuck d.channel d.src d.src ⟨rfl, h⟩ with
  | inl hnone =>
      rw [hread] at hnone
      nomatch hnone.1
  | inr hsome =>
      rcases hsome with ⟨c', r, r', hr, -, -, -, hrest⟩
      rw [hread] at hr
      cases hr
      dsimp only at hmore
      rw [hrest.not_eof, if_neg (fun hend => nomatch hend.2)] at hmore
      nomatch hmore

theorem Stuck.processLine {d d' : Draft} (h : Stuck d.src) {ln : Bytes}
    (hd : d.processLine ln = some d') : Stuck d'.src ∧ d'.commands = d.commands := by
  obtain ⟨l, -, hl⟩ := Option.bind_eq_some_iff.mp hd
  cases l with
  | comment =>
      cases hl
      exact ⟨h, rfl⟩
  | header channel =>
      cases hl
      exact ⟨h, rfl⟩
  | ends src =>
      have hstuck : Stuck (d.src ++ src) := h.append src
      exact (Stuck.command hstuck hl).elim
  | part src =>
      cases hl
      exact ⟨h.append src, rfl⟩

/-- No command is read any more. -/
theorem run_stuck {lns : List Bytes} {d e : Draft} (h : Stuck d.src)
    (hrun : lns.foldlM Draft.processLine d = some e) : e.commands = d.commands := by
  induction lns generalizing d with
  | nil =>
      cases hrun
      rfl
  | cons ln lns ih =>
      rw [List.foldlM_cons] at hrun
      obtain ⟨d₁, hd₁, hmore⟩ := Option.bind_eq_some_iff.mp hrun
      obtain ⟨hstuck, hcommands⟩ := h.processLine hd₁
      rw [ih hstuck hmore, hcommands]

/-! ### Layouts with something behind a semicolon -/

theorem lines_open {line : Bytes} (h : 10 ∉ line) {c : UInt8} (hc : c ≠ 10) (rest : Bytes) :
    ∃ more lns, lines (line ++ c :: rest) = (line ++ c :: more) :: lns := by
  induction line with
  | nil =>
      rw [List.nil_append, lines, if_neg hc]
      cases lines rest with
      | nil => exact ⟨[], [], rfl⟩
      | cons more lns => exact ⟨more, lns, rfl⟩
  | cons d line ih =>
      have hd : d ≠ 10 := fun heq => h (heq ▸ List.mem_cons_self)
      obtain ⟨more, lns, hlines⟩ := ih fun hmem => h (List.mem_cons_of_mem d hmem)
      apply Exists.intro more
      apply Exists.intro lns
      rw [List.cons_append, lines, if_neg hd, hlines]
      rfl

theorem Tracks.stuck {d d' : Draft} {line : Bytes} {pending : Bool} (h : Tracks d line d' pending [])
    (more : Bytes) : Stuck (d.src ++ (line ++ 59 :: more)) := by
  obtain ⟨ps, blanks, hblanks, hsrc, -, hps, -⟩ := h.src
  refine ⟨ps, blanks, more, hblanks, ?_, separated_end hps ?_⟩
  · rw [← List.append_assoc, hsrc, List.append_assoc]
  · intro c hc
    cases blanks with
    | nil => exact Or.inl (Option.some.inj hc).symm
    | cons b blanks => exact Or.inr hc

/-- With something behind the semicolon the command is left where it is. -/
theorem run_open {d d' e : Draft} {line : Bytes} {pending : Bool} (h : Tracks d line d' pending [])
    {c : UInt8} (hc : c ≠ 10) {rest : Bytes}
    (hrun : (lines (line ++ 59 :: c :: rest)).foldlM Draft.processLine d = some e) :
    e.commands = d.commands := by
  have hsemicolon : 10 ∉ line ++ [59] := append_noBreak h.content.noBreak semicolon_noBreak
  obtain ⟨more, lns, hlines⟩ := lines_open hsemicolon hc rest
  rw [List.append_assoc, List.append_assoc] at hlines
  have hline : lines (line ++ 59 :: c :: rest) = (line ++ 59 :: c :: more) :: lns := hlines
  rw [hline, List.foldlM_cons, Draft.processLine, classify_semicolon h.content] at hrun
  obtain ⟨d₁, hd₁, hmore⟩ := Option.bind_eq_some_iff.mp hrun
  split at hd₁
  · have hstuck := h.stuck (c :: more).dropLast
    have hdrop : (line ++ 59 :: c :: more).dropLast = line ++ 59 :: (c :: more).dropLast := by
      rw [List.dropLast_append_of_ne_nil (List.cons_ne_nil _ _), List.dropLast_cons_cons]
    rw [hdrop] at hd₁
    exact (Stuck.command hstuck hd₁).elim
  · cases hd₁
    have hstuck := h.stuck (c :: more)
    exact run_stuck (d := { d with src := d.src ++ (line ++ 59 :: c :: more) }) hstuck hmore

/-- What does not end the line of a semicolon begins with another byte. -/
theorem written_open {atoms : List Atom} {pending : Bool} (hvalid : Valid false pending atoms)
    (hend : ¬ EndsLine atoms) : ∃ c rest, written atoms = c :: rest ∧ c ≠ 10 := by
  cases atoms with
  | nil => exact absurd trivial hend
  | cons a atoms =>
      cases a with
      | blank c hc => exact ⟨c, written atoms, rfl, fun heq => absurd (heq ▸ hc) (by decide)⟩
      | newline => exact absurd trivial hend
      | piece p =>
          obtain ⟨c, behind, htext⟩ := List.exists_cons_of_ne_nil p.ne_nil
          have hbreak : 10 ∉ p.first := (p.content p.first List.mem_cons_self).noBreak
          refine ⟨c, behind ++ p.behind.flatMap (10 :: ·) ++ written atoms, ?_, ?_⟩
          · simp [written, Atom.render, htext]
          · intro heq
            apply hbreak
            rw [htext, heq]
            exact List.mem_cons_self
      | semicolon => exact ⟨59, written atoms, rfl, by decide⟩
      | header name blanks => exact Bool.noConfusion hvalid.1.1
      | comment blanks text => exact Bool.noConfusion hvalid.1

/-- A command is lost if a semicolon does not end its line. -/
theorem run_lost (atoms : List Atom) (d : Draft) (line : Bytes) (d' : Draft)
    (lineStart pending : Bool) (hvalid : Valid lineStart pending atoms) (hspaced : Spaced atoms)
    (hends : ¬ EndsLines atoms) (htracks : Tracks d line d' pending (following atoms))
    (hline : lineStart = true → line = []) {e : Draft}
    (hrun : (lines (line ++ written atoms)).foldlM Draft.processLine d = some e) :
    e.commands.length < d.commands.length + (signs atoms).count .semicolon := by
  induction atoms using layout_induct generalizing d line d' lineStart pending with
  | nil => exact absurd trivial hends
  | cons a atoms ih ihline =>
      cases a with
      | blank c hc =>
          apply ih d (line ++ [c]) d' false pending hvalid hspaced hends (htracks.blank hc)
            fun h => Bool.noConfusion h
          rwa [List.append_assoc]
      | piece p =>
          obtain ⟨src, more, hmore, hjoined, hpiece⟩ := run_piece p d htracks.content (written atoms)
          have hrest : (lines (line ++ (p.first ++ p.behind.flatMap (10 :: ·) ++ written atoms))).foldlM
            Draft.processLine d = some e := hrun
          rw [hpiece] at hrest
          have hnext := ih _ more _ false true hvalid hspaced.2 hends
            (htracks.piece hspaced.1 hmore hjoined) (fun h => Bool.noConfusion h) hrest
          have hsigns : (signs (.piece p :: atoms)).count .semicolon =
              (signs atoms).count .semicolon := List.count_cons_of_ne (by simp)
          rwa [hsigns]
      | newline =>
          rw [run_newline htracks.content] at hrun
          have hnext := ih _ [] d' true pending hvalid hspaced hends htracks.newline (fun _ => rfl) hrun
          exact hnext
      | semicolon =>
          by_cases hend : EndsLine atoms
          · cases endsLine_cases hend with
            | inl hnil =>
                subst hnil
                exact absurd ⟨trivial, trivial⟩ hends
            | inr hnewline =>
                rcases hnewline with ⟨more, rfl⟩
                rw [run_semicolon htracks] at hrun
                obtain ⟨d₁, hd₁, hmore⟩ := Option.bind_eq_some_iff.mp hrun
                have hnext := ihline more rfl d₁ [] d₁ true false hvalid hspaced
                  (fun hall => hends ⟨hend, hall⟩) (Tracks.start (command_src hd₁)) (fun _ => rfl)
                  hmore
                have hsigns : (signs (.semicolon :: .newline :: more)).count .semicolon =
                    (signs more).count .semicolon + 1 := List.count_cons_self
                rw [length_command hd₁, ← htracks.commands] at hnext
                omega
          · obtain ⟨c, rest, hwritten, hc⟩ := written_open hvalid hend
            have hopen : lines (line ++ written (.semicolon :: atoms)) =
                lines (line ++ 59 :: c :: rest) := by
              rw [← hwritten]
              rfl
            rw [hopen] at hrun
            have hcount : (signs (.semicolon :: atoms)).count .semicolon =
                (signs atoms).count .semicolon + 1 := List.count_cons_self
            rw [run_open htracks hc hrun, hcount]
            omega
      | header name blanks =>
          rcases hvalid with ⟨⟨hstart, rfl⟩, ⟨hbracket, hbreak⟩, hblanks, hend, hvalid⟩
          obtain rfl := hline hstart
          cases endsLine_cases hend with
          | inl hnil =>
              subst hnil
              exact absurd trivial hends
          | inr hnewline =>
              rcases hnewline with ⟨more, rfl⟩
              rw [run_header hbracket hbreak hblanks] at hrun
              obtain ⟨channel, -, hmore⟩ := Option.bind_eq_some_iff.mp hrun
              have hnext := ihline more rfl _ [] _ true false hvalid hspaced hends
                (htracks.header channel (following more)) (fun _ => rfl) hmore
              exact hnext
      | comment blanks text =>
          rcases hvalid with ⟨hstart, hbreak, hblanks, hend, hvalid⟩
          obtain rfl := hline hstart
          cases endsLine_cases hend with
          | inl hnil =>
              subst hnil
              exact absurd trivial hends
          | inr hnewline =>
              rcases hnewline with ⟨more, rfl⟩
              rw [run_comment hbreak hblanks] at hrun
              exact ihline more rfl d [] d' true pending hvalid hspaced hends htracks (fun _ => rfl)
                hrun

/-! ### The texts of the commands of an input -/

/-- The texts up to the ends of commands, and what stands behind the last of them. -/
def texts (src : Bytes) : List Line → List Bytes × Bytes
  | [] => ([], src)
  | .comment :: ls => texts src ls
  | .header _ :: ls => texts src ls
  | .ends more :: ls => ((src ++ more) :: (texts [] ls).1, (texts [] ls).2)
  | .part more :: ls => texts (src ++ more) ls

/-- What is read of an input after its last command. -/
def unread (input : Bytes) : Bytes := (texts [] ((lines input).filterMap classify)).2

/-- The texts of the commands of an input, with the last one even if no end is seen of it. -/
def commandTexts (input : Bytes) : List Bytes :=
  (texts [] ((lines input).filterMap classify)).1 ++
    if (unread input).all isSpace then [] else [unread input]

/-- The text is the whole of a command that has an object. -/
structure Reads (src : Bytes) (c : Channel × Command) : Prop where
  command : ∃ rest, readCommand c.1 src = some (c.2, rest) ∧ rest.all isSpace = true
  entry : c.2.entry.isSome

theorem command_reads {d d' : Draft} (h : d.command = some d') :
    ∃ c, Reads d.src (d.channel, c) ∧
      d' = { src := [], channel := d.channel, commands := d.commands ++ [(d.channel, c)] } := by
  obtain ⟨⟨c, rest⟩, hread, hmore⟩ := Option.bind_eq_some_iff.mp h
  dsimp only at hmore
  split at hmore
  · rename_i hentry
    cases hmore
    exact ⟨c, { command := ⟨rest, hread, hentry.2⟩, entry := hentry.1 }, rfl⟩
  · nomatch hmore

theorem run_texts {lns : List Bytes} {d e : Draft}
    (hrun : lns.foldlM Draft.processLine d = some e) :
    e.src = (texts d.src (lns.filterMap classify)).2 ∧ ∃ cs, e.commands = d.commands ++ cs ∧
      List.Forall₂ Reads (texts d.src (lns.filterMap classify)).1 cs := by
  induction lns generalizing d with
  | nil =>
      cases hrun
      exact ⟨rfl, [], (List.append_nil _).symm, List.Forall₂.nil⟩
  | cons ln lns ih =>
      rw [List.foldlM_cons] at hrun
      obtain ⟨d₁, hd₁, hmore⟩ := Option.bind_eq_some_iff.mp hrun
      obtain ⟨l, hclassify, hl⟩ := Option.bind_eq_some_iff.mp hd₁
      rw [List.filterMap_cons_some hclassify]
      cases l with
      | comment =>
          cases hl
          exact ih hmore
      | header channel =>
          cases hl
          exact ih (d := { d with channel := channel }) hmore
      | ends src =>
          obtain ⟨c, hc, rfl⟩ := command_reads hl
          obtain ⟨hsrc, cs, hcs, hreads⟩ := ih hmore
          dsimp only at hcs
          refine ⟨hsrc, (d.channel, c) :: cs, ?_, List.Forall₂.cons hc hreads⟩
          rw [hcs, List.append_assoc]
          rfl
      | part src =>
          cases hl
          exact ih (d := { d with src := d.src ++ src }) hmore

/-- All commands of an accepted input are read if nothing is left behind the last one. -/
theorem commands_reads_iff {input : Bytes} {cs : List (Channel × Command)}
    (h : commands input = some cs) :
    List.Forall₂ Reads (commandTexts input) cs ↔ (unread input).all isSpace = true := by
  obtain ⟨d, hd, rfl⟩ := Option.map_eq_some_iff.mp h
  obtain ⟨-, cs, hcs, hreads⟩ := run_texts hd
  have hcommands : d.commands = cs := hcs
  rw [hcommands]
  constructor
  · intro hall
    have hlength := hall.length_eq
    have hlength' : (texts [] ((lines input).filterMap classify)).1.length = cs.length :=
      hreads.length_eq
    rw [commandTexts, List.length_append, hlength'] at hlength
    split at hlength
    · assumption
    · rw [List.length_singleton] at hlength
      omega
  · intro hunread
    rw [commandTexts, if_pos hunread, List.append_nil]
    exact hreads

/-! ### The output of a layout -/

/-- The commands stand as they can be told apart when the line breaks are gone. -/
structure Laid (atoms : List Atom) : Prop where
  valid : Valid true false atoms
  spaced : Spaced atoms

/-- Two layouts give the same output, and no command of the first one is lost. -/
structure SameOutput (json : Json.Encoder) (atoms atoms' : List Atom) : Prop where
  output : convert json (written atoms) = convert json (written atoms')
  complete : ∀ cs, commands (written atoms) = some cs → commandsOfSigns (signs atoms) = some cs

theorem sameOutput_of_endsLines (json : Json.Encoder) {atoms atoms' : List Atom}
    (h : Laid atoms) (h' : Laid atoms') (hsigns : signs atoms = signs atoms')
    (hends : EndsLines atoms) (hends' : EndsLines atoms') : SameOutput json atoms atoms' := by
  have hcommands := commands_layout h.valid h.spaced hends
  have hcommands' := commands_layout h'.valid h'.spaced hends'
  exact
    { output := by rw [convert_eq, convert_eq, hcommands, hcommands', hsigns]
      complete := fun cs hcs => hcommands ▸ hcs }

theorem endsLines_of_sameOutput {json : Json.Encoder} {atoms atoms' : List Atom} (h : Laid atoms)
    (haccepted : (convert json (written atoms')).isSome) (hsame : SameOutput json atoms atoms') :
    EndsLines atoms := by
  by_contra hends
  rw [← hsame.output, convert_eq, Option.isSome_map, Option.isSome_iff_exists] at haccepted
  rcases haccepted with ⟨cs, hcs⟩
  have hcount := length_commandsOfSigns (hsame.complete cs hcs)
  obtain ⟨d, hd, rfl⟩ := Option.map_eq_some_iff.mp hcs
  have hlost := run_lost atoms Draft.start [] Draft.start true false h.valid h.spaced hends
    (Tracks.start rfl) (fun _ => rfl) hd
  rw [hcount] at hlost
  have hnone : Draft.start.commands.length = 0 := rfl
  omega

/-- Layouts of the same tokens have the same output if every semicolon ends its line, and
where one of them is accepted only then. In any accepted input every command whose end is
seen has its object, and the last one has none exactly if something is left behind. -/
theorem convert_layout (json : Json.Encoder) :
    (∀ atoms atoms' : List Atom, Laid atoms → Laid atoms' → signs atoms = signs atoms' →
      EndsLines atoms → EndsLines atoms' → SameOutput json atoms atoms') ∧
    (∀ atoms atoms' : List Atom, Laid atoms → Laid atoms' → signs atoms = signs atoms' →
      EndsLines atoms' → (convert json (written atoms')).isSome →
        (SameOutput json atoms atoms' ↔ EndsLines atoms)) ∧
    ∀ input output, convert json input = some output → ∃ cs, commands input = some cs ∧
      output = Json.writeText json (document cs) ∧
      (∀ channel, List.Forall₂ (fun c v => c.2.entry = some v ∧ ∃ members, v = .object members)
        (cs.filter (·.1 = channel)) (entries cs channel)) ∧
      (List.Forall₂ Reads (commandTexts input) cs ↔ (unread input).all isSpace = true) := by
  refine ⟨?_, ?_, ?_⟩
  · intro atoms atoms' h h' hsigns hends hends'
    exact sameOutput_of_endsLines json h h' hsigns hends hends'
  · intro atoms atoms' h h' hsigns hends' haccepted
    constructor
    · exact endsLines_of_sameOutput h haccepted
    · intro hends
      exact sameOutput_of_endsLines json h h' hsigns hends hends'
  · intro input output h
    rw [convert_eq] at h
    obtain ⟨cs, hcommands, houtput⟩ := Option.map_eq_some_iff.mp h
    obtain ⟨d, hd, hcs⟩ := Option.map_eq_some_iff.mp hcommands
    have hvalid := (draft_valid hd).commands
    rw [hcs] at hvalid
    exact ⟨cs, hcommands, houtput.symm, entries_forall₂ hvalid, commands_reads_iff hcommands⟩

/-! ### Layouts of one command -/

/-- A command with what stands before its path and behind its semicolon. -/
def sample (gap behind : List Atom) : List Atom :=
  [.header (str "document") [], .newline,
    .piece ((@Lexeme.name (str "x") (by decide) (by decide)).piece (by decide)), .blank 32 rfl,
    .piece ((@Lexeme.mark 61 rfl).piece (by decide))] ++ gap ++
  [.piece ((@Lexeme.path 47 (str "a") rfl (by decide)).piece (by decide)), .semicolon] ++ behind

/-- The path on a line of its own. -/
theorem laid_sample_lines : Laid (sample [.newline, .blank 32 rfl] [.newline]) where
  valid := ⟨⟨rfl, rfl⟩, ⟨by decide, by decide⟩, (fun _ hc => nomatch hc), trivial, rfl⟩
  spaced := ⟨by decide, by decide, by decide, trivial⟩

theorem laid_sample_line : Laid (sample [.blank 32 rfl] [.newline]) where
  valid := ⟨⟨rfl, rfl⟩, ⟨by decide, by decide⟩, (fun _ hc => nomatch hc), trivial, rfl⟩
  spaced := ⟨by decide, by decide, by decide, trivial⟩

/-- A blank behind the semicolon. -/
theorem laid_sample_blank : Laid (sample [.blank 32 rfl] [.blank 32 rfl, .newline]) where
  valid := ⟨⟨rfl, rfl⟩, ⟨by decide, by decide⟩, (fun _ hc => nomatch hc), trivial, rfl⟩
  spaced := ⟨by decide, by decide, by decide, trivial⟩

theorem convert_layout_sample :
    SameOutput jsonEncoder (sample [.newline, .blank 32 rfl] [.newline])
        (sample [.blank 32 rfl] [.newline]) ∧
      ¬ SameOutput jsonEncoder (sample [.blank 32 rfl] [.blank 32 rfl, .newline])
        (sample [.blank 32 rfl] [.newline]) ∧
      ∃ cs, commands (str "[document]\nx =\n /a;\n") = some cs ∧
        List.Forall₂ Reads (commandTexts (str "[document]\nx =\n /a;\n")) cs := by
  have hlines : (commands (str "[document]\nx =\n /a;\n")).isSome := by decide
  have hline : (convert jsonEncoder (written (sample [.blank 32 rfl] [.newline]))).isSome := by
    have hcommands : (commands (str "[document]\nx = /a;\n")).isSome := by decide
    rw [convert_eq, Option.isSome_map]
    exact hcommands
  have hconvert : (convert jsonEncoder (str "[document]\nx =\n /a;\n")).isSome := by
    rw [convert_eq, Option.isSome_map]
    exact hlines
  obtain ⟨hsame, hiff, hreads⟩ := convert_layout jsonEncoder
  refine ⟨?_, ?_, ?_⟩
  · exact hsame _ _ laid_sample_lines laid_sample_line rfl ⟨trivial, trivial⟩ ⟨trivial, trivial⟩
  · rw [hiff _ _ laid_sample_blank laid_sample_line rfl ⟨trivial, trivial⟩ hline]
    exact fun hends => hends.1
  · obtain ⟨output, houtput⟩ := Option.isSome_iff_exists.mp hconvert
    obtain ⟨cs, hcs, -, -, hall⟩ := hreads _ output houtput
    exact ⟨cs, hcs, hall.mpr (by decide)⟩

/-- A blank behind the last semicolon takes the command from the output. -/
theorem convert_layout_fails :
    ¬ ∀ atoms atoms' : List Atom, Laid atoms → Laid atoms' → signs atoms = signs atoms' →
      convert jsonEncoder (written atoms) = convert jsonEncoder (written atoms') := by
  intro h
  have hsame := h _ _ laid_sample_blank laid_sample_line rfl
  have hblank : commands (str "[document]\nx = /a; \n") = some [] := by decide
  have hline : commands (str "[document]\nx = /a;\n") =
    some [(.document, .document (str "x") (str "/a"))] := by decide
  rw [convert_eq, convert_eq] at hsame
  have htexts : (commands (str "[document]\nx = /a; \n")).map
      (fun cs => Json.writeText jsonEncoder (document cs)) =
    (commands (str "[document]\nx = /a;\n")).map
      fun cs => Json.writeText jsonEncoder (document cs) := hsame
  rw [hblank, hline] at htexts
  exact absurd htexts (by decide +kernel)

end StrusWebService.AnaConfig
