import StrusWebService.AnaConfig.Conversion

/-! # Sources with the same tokens

A source spells the tokens that the lexer reads from it up to its end. Sources that
spell the same tokens give the same command. One way to spell tokens is to write each
with a blank behind it; another is to write their lexemes behind any blanks, as long as
none of them goes on with what stands behind it.
-/

namespace StrusWebService.AnaConfig

open Text (isSpace)

/-- What the lexer reads from a source, up to the end. -/
inductive Spells : Bytes → List Bytes → Prop
  | eof {src : Bytes} (h : src.all isSpace = true) : Spells src []
  | token {src rest token : Bytes} {tokens : List Bytes}
      (h : lexerParseToken src = some (token, rest)) (hrest : Spells rest tokens) :
      Spells src (token :: tokens)

def SameTokens (src src' : Bytes) : Prop := ∃ tokens, Spells src tokens ∧ Spells src' tokens

theorem lexerParseToken_not_eof {src token rest : Bytes}
    (h : lexerParseToken src = some (token, rest)) : src.all isSpace = false := by
  obtain ⟨blanks, text, -, hsrc, htext, -⟩ := ((lexerParseToken_iff src token rest).mp h).ex
  obtain ⟨c, behind, rfl, hc⟩ := htext.start
  rw [hsrc, List.all_eq_false]
  exact ⟨c, by simp, by simp [isSpace_of_isTokenStart hc]⟩

theorem sameTokens_eof {src src' : Bytes} (h : SameTokens src src') :
    src.all isSpace = src'.all isSpace := by
  rcases h with ⟨tokens, h, h'⟩
  cases h with
  | eof heof =>
      cases h' with
      | eof heof' => rw [heof, heof']
  | token htoken hrest =>
      cases h' with
      | token htoken' hrest' =>
          rw [lexerParseToken_not_eof htoken, lexerParseToken_not_eof htoken']

theorem blind_sameTokens : Blind SameTokens fun _ => True where
  token := by
    intro src src' ⟨tokens, h, h'⟩
    cases h with
    | eof heof =>
        cases h' with
        | eof heof' =>
            have hnone : ∀ src : Bytes, src.all isSpace = true → lexerParseToken src = none := by
              intro src hsrc
              cases htoken : lexerParseToken src with
              | none => rfl
              | some r =>
                  rw [lexerParseToken_not_eof htoken] at hsrc
                  nomatch hsrc
            exact Or.inl ⟨hnone src heof, hnone src' heof'⟩
    | token htoken hrest =>
        cases h' with
        | token htoken' hrest' =>
            exact Or.inr ⟨_, _, _, htoken, htoken', trivial, _, hrest, hrest'⟩
  eof := by
    intro src src' h
    refine Or.inr ⟨src.all isSpace, src, src', rfl, ?_, trivial, h⟩
    rw [sameTokens_eof h]
    rfl

theorem isSpace_of_isBlank {c : UInt8} (h : isBlank c = true) : isSpace c = true := by
  simp only [isBlank, Bool.or_eq_true, beq_iff_eq] at h
  cases h with
  | inl heq => rw [heq]; rfl
  | inr heq => rw [heq]; rfl

/-- Drafts that differ in the layout of the command in the making. -/
structure SameDraft (d d' : Draft) : Prop where
  src : SameTokens d.src d'.src
  channel : d.channel = d'.channel
  commands : d.commands = d'.commands

theorem sameDraft_command {d d' : Draft} (h : SameDraft d d') : d.command = d'.command := by
  unfold Draft.command
  rw [h.channel, h.commands]
  cases alike_readCommand blind_sameTokens d'.channel d.src d'.src h.src with
  | inl hnone => rw [hnone.1, hnone.2]
  | inr hsome =>
      rcases hsome with ⟨c, r, r', hr, hr', -, hrest⟩
      rw [hr, hr', Option.bind_some, Option.bind_some]
      dsimp only
      rw [sameTokens_eof hrest]

/-! ### Lexemes in a row -/

theorem Lexeme.last {text token : Bytes} (h : Lexeme text token) : text.getLast? ≠ some 59 := by
  have harguments : ∀ {text token : Bytes}, Arguments text token → text.getLast? = some parenClose := by
    intro text token h
    refine @Arguments.rec (fun _ _ _ => True) (fun text _ _ => text.getLast? = some parenClose)
      ?_ ?_ ?_ ?_ ?_ ?_ ?_ ?_ ?_ text token h
    all_goals intros
    all_goals try trivial
    · simp
    · rename_i ih
      rw [List.getLast?_append, List.getLast?_append, List.getLast?_cons, ih]
      rfl
  intro hlast
  have hmem := List.mem_of_getLast? hlast
  cases h with
  | name hne hname => exact absurd (hname 59 hmem) (by decide)
  | @noArguments name blanks hne hname hblanks =>
      have htext : name ++ parenOpen :: (blanks ++ [parenClose]) =
          (name ++ parenOpen :: blanks) ++ [parenClose] := by simp
      rw [htext, List.getLast?_concat] at hlast
      cases hlast
  | call hne hname hargs =>
      rw [List.getLast?_append, List.getLast?_cons, harguments hargs] at hlast
      simp [parenClose] at hlast
  | path hc hpath =>
      cases List.mem_cons.mp hmem with
      | inl heq =>
          rw [← heq] at hc
          exact absurd hc (by decide)
      | inr hmem => exact absurd (hpath 59 hmem) (by decide)
  | quoted hstring =>
      rw [← List.cons_append, List.getLast?_concat] at hlast
      cases hlast
  | arrow => simp at hlast
  | mark hc =>
      rw [List.mem_singleton] at hmem
      rw [← hmem] at hc
      exact absurd hc (by decide)

/-- A line, or a part of one, that is no comment, no header and no end of a command. -/
structure Content (line : Bytes) : Prop where
  head : line.head? ≠ some 91
  first : (line.dropWhile isSpace).head? ≠ some 35
  last : line.getLast? ≠ some 59
  noBreak : 10 ∉ line

theorem content_nil : Content [] where
  head := fun h => nomatch h
  first := fun h => nomatch h
  last := fun h => nomatch h
  noBreak := List.not_mem_nil

theorem Content.append {line more : Bytes} (h : Content line) (hmore : Content more) :
    Content (line ++ more) where
  head := by
    cases line with
    | nil => exact hmore.head
    | cons d line => exact h.head
  first := by
    rw [List.dropWhile_append]
    split
    · exact hmore.first
    · rename_i hne
      intro heq
      apply h.first
      cases hline : line.dropWhile isSpace with
      | nil => simp [hline] at hne
      | cons d behind =>
          rw [hline] at heq
          exact heq
  last := by
    intro hlast
    rw [List.getLast?_append] at hlast
    cases hmore' : more.getLast? with
    | none =>
        rw [hmore'] at hlast
        exact h.last hlast
    | some c =>
        rw [hmore'] at hlast
        exact hmore.last (hmore'.trans hlast)
  noBreak := append_noBreak h.noBreak hmore.noBreak

theorem content_blank {c : UInt8} (hc : isBlank c = true) : Content [c] where
  head := by
    intro heq
    cases heq
    exact absurd hc (by decide)
  first := by
    rw [List.dropWhile_cons_of_pos (isSpace_of_isBlank hc)]
    exact fun h => nomatch h
  last := by
    intro hlast
    cases hlast
    exact absurd hc (by decide)
  noBreak := by
    intro hmem
    rw [← List.mem_singleton.mp hmem] at hc
    exact absurd hc (by decide)

theorem Lexeme.content {text token : Bytes} (h : Lexeme text token) (hbreak : 10 ∉ text) :
    Content text := by
  obtain ⟨c, behind, htext, hc⟩ := h.start
  exact
    { head := by
        intro heq
        rw [htext] at heq
        cases heq
        exact absurd hc (by decide)
      first := by
        intro heq
        rw [htext, List.dropWhile_cons_of_neg (by simp [isSpace_of_isTokenStart hc])] at heq
        cases heq
        exact absurd hc (by decide)
      last := h.last
      noBreak := hbreak }

/-- A token as it is written, on one line or over several. The converter joins them, so
that a call may go on behind a line break. -/
structure Piece where
  first : Bytes
  behind : List Bytes
  token : Bytes
  lexeme : Lexeme (first ++ behind.flatten) token
  content : ∀ ln ∈ first :: behind, Content ln
  ne_nil : first ≠ []

def Piece.text (p : Piece) : Bytes := p.first ++ p.behind.flatten

def Lexeme.piece {text token : Bytes} (h : Lexeme text token) (hbreak : 10 ∉ text) : Piece where
  first := text
  behind := []
  token := token
  lexeme := by
    rw [List.flatten_nil, List.append_nil]
    exact h
  content := List.forall_mem_singleton.mpr (h.content hbreak)
  ne_nil := by
    obtain ⟨c, behind, htext, -⟩ := h.start
    rw [htext]
    exact List.cons_ne_nil c behind

/-- Lexemes, each behind some blanks. -/
structure Placed where
  blanks : Bytes
  piece : Piece
  isBlank : ∀ c ∈ blanks, isBlank c = true

def source (ps : List Placed) : Bytes := ps.flatMap fun p => p.blanks ++ p.piece.text

def tokensOf (ps : List Placed) : List Bytes := ps.map (·.piece.token)

/-- No lexeme goes on with what stands behind it. -/
def Separated : List Placed → Bytes → Prop
  | [], _ => True
  | p :: ps, rest => Delimits p.piece.text (source ps ++ rest) ∧ Separated ps rest

theorem lexerParseToken_source {p : Placed} {ps : List Placed} {rest : Bytes}
    (h : Separated (p :: ps) rest) :
    lexerParseToken (source (p :: ps) ++ rest) = some (p.piece.token, source ps ++ rest) := by
  rw [lexerParseToken_iff]
  exact
    { ex := ⟨p.blanks, p.piece.text, p.isBlank, by simp [source], p.piece.lexeme, h.1⟩ }

theorem spells_source {ps : List Placed} {rest : Bytes} (hps : Separated ps rest)
    (hrest : rest.all isSpace = true) : Spells (source ps ++ rest) (tokensOf ps) := by
  induction ps with
  | nil => exact Spells.eof hrest
  | cons p ps ih => exact Spells.token (lexerParseToken_source hps) (ih hps.2)

theorem separated_concat {ps : List Placed} {p : Placed} {rest : Bytes}
    (hps : Separated ps (p.blanks ++ (p.piece.text ++ rest)))
    (hp : Delimits p.piece.text rest) : Separated (ps ++ [p]) rest := by
  induction ps with
  | nil => exact ⟨hp, trivial⟩
  | cons p' ps ih =>
      rw [List.cons_append]
      refine ⟨?_, ih hps.2⟩
      have hsource : source (ps ++ [p]) ++ rest = source ps ++ (p.blanks ++ (p.piece.text ++ rest)) := by
        simp [source]
      rw [hsource]
      exact hps.1

/-! ### A blank behind every token -/

/-- A token is itself one of the ways it is written. -/
theorem Lexeme.self {text token : Bytes} (h : Lexeme text token) :
    Lexeme token token ∧ ∀ c, runsOn token c = runsOn text c := by
  refine @Lexeme.rec
    (fun text token _ => Lexeme token token ∧ ∀ c, runsOn token c = runsOn text c)
    (fun _ token _ => Arguments token token) ?_ ?_ ?_ ?_ ?_ ?_ ?_ ?_ ?_ text token h
  · intro name hne hname
    exact ⟨.name hne hname, fun _ => rfl⟩
  · intro name blanks hne hname _
    have hself : Lexeme (name ++ parenOpen :: ([] ++ [parenClose])) (name ++ [parenOpen, parenClose]) :=
      .noArguments hne hname fun c hc => nomatch hc
    refine ⟨hself, ?_⟩
    intro c
    rw [runsOn_call hne hname, runsOn_call hne hname]
  · intro name text token hne hname _ ih
    refine ⟨.call hne hname ih, ?_⟩
    intro c
    rw [runsOn_call hne hname, runsOn_call hne hname]
  · intro c path hc hpath
    exact ⟨.path hc hpath, fun _ => rfl⟩
  · intro string hstring
    exact ⟨.quoted hstring, fun _ => rfl⟩
  · exact ⟨.arrow, fun _ => rfl⟩
  · intro c hc
    exact ⟨.mark hc, fun _ => rfl⟩
  · intro blanks text token _ _ hend ih
    have hnone : ∀ c ∈ ([] : Bytes), AnaConfig.isBlank c = true := fun c hc => nomatch hc
    exact Arguments.last hnone ih.1 fun c hc => (ih.2 c).trans (hend c hc)
  · intro blanks text token texts tokens _ _ hend _ ih ih'
    have hnone : ∀ c ∈ ([] : Bytes), AnaConfig.isBlank c = true := fun c hc => nomatch hc
    exact Arguments.more hnone ih.1 (fun c hc => (ih.2 c).trans (hend c hc)) ih'

/-- Blanks and semicolons end all lexemes. -/
theorem Lexeme.runsOn_end {text token : Bytes} (h : Lexeme text token) {c : UInt8}
    (hc : c = 32 ∨ c = 59) : runsOn text c = false := by
  have hname : (isIdent c || c == parenOpen) = false := by
    cases hc with
    | inl heq => rw [heq]; rfl
    | inr heq => rw [heq]; rfl
  have hpath : isPath c = false := by
    cases hc with
    | inl heq => rw [heq]; rfl
    | inr heq => rw [heq]; rfl
  cases h with
  | name hne hidents => exact (runsOn_name hne hidents c).trans hname
  | noArguments hne hidents hblanks => exact runsOn_call hne hidents _ c
  | call hne hidents harguments => exact runsOn_call hne hidents _ c
  | path hstart hpaths => exact (runsOn_path _ hstart c).trans hpath
  | quoted hstring => exact runsOn_closed rfl List.mem_cons_self rfl c
  | arrow => exact runsOn_closed rfl List.mem_cons_self rfl c
  | mark hmark =>
      obtain ⟨hident, hpath, -⟩ := isMark_excludes hmark
      exact runsOn_closed (by simp [hpath]) List.mem_cons_self hident c

def spell (tokens : List Bytes) : Bytes := tokens.flatMap (· ++ [32])

theorem spells_spell (ps : List Placed) {blanks : Bytes}
    (hblanks : ∀ c ∈ blanks, isBlank c = true) :
    Spells (blanks ++ spell (tokensOf ps)) (tokensOf ps) := by
  induction ps generalizing blanks with
  | nil =>
      apply Spells.eof
      rw [List.all_eq_true]
      intro c hc
      cases List.mem_append.mp hc with
      | inl hmem => exact isSpace_of_isBlank (hblanks c hmem)
      | inr hmem => nomatch hmem
  | cons p ps ih =>
      obtain ⟨hself, hruns⟩ := p.piece.lexeme.self
      have htoken : lexerParseToken (blanks ++ spell (tokensOf (p :: ps))) =
          some (p.piece.token, [32] ++ spell (tokensOf ps)) := by
        rw [lexerParseToken_iff]
        refine { ex := ⟨blanks, p.piece.token, hblanks, by simp [spell, tokensOf], hself, ?_⟩ }
        intro c hc
        cases hc
        rw [hruns]
        exact p.piece.lexeme.runsOn_end (Or.inl rfl)
      exact Spells.token htoken (ih (by decide))

end StrusWebService.AnaConfig
