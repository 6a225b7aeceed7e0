import StrusWebService.AnaConfig.Printing
import StrusWebService.Library.Text

/-! # The arguments of a function

A function with its arguments is written once, `Call`, and taken apart in two places:
`DEF_FUNCTION` reads one argument after the other, the section of aggregators splits the
text between the parentheses at its commas. Neither of them takes all functions apart into
their name and their arguments.
-/

namespace StrusWebService.AnaConfig

open Json (quote comma)
open Text (isSpace)

/-- A name as the lexer reads it. -/
structure Identifier where
  name : Bytes
  ne : name ≠ []
  ident : ∀ c ∈ name, isIdent c = true

/-- An identifier or a string in quotes. -/
inductive Argument where
  | ident (i : Identifier)
  | string (s : Bytes) (h : quote ∉ s)

def Argument.text : Argument → Bytes
  | .ident i => i.name
  | .string s _ => quote :: (s ++ [quote])

/-- The argument that is meant, without quotes. -/
def Argument.value : Argument → Bytes
  | .ident i => i.name
  | .string s _ => s

def Argument.isString : Argument → Bool
  | .ident _ => false
  | .string _ _ => true

/-- An argument with the blanks in front of it. -/
structure SpacedArgument where
  blanks : Bytes
  argument : Argument
  blank : ∀ c ∈ blanks, isBlank c = true

def SpacedArgument.text (a : SpacedArgument) : Bytes := a.blanks ++ a.argument.text

/-- A function with a flat list of arguments. -/
structure Call where
  name : Identifier
  arguments : List SpacedArgument

namespace Call

variable (c : Call)

/-- How the function is written. -/
def text : Bytes :=
  c.name.name ++
    parenOpen :: (List.intercalate [comma] (c.arguments.map SpacedArgument.text) ++ [parenClose])

def argumentTexts : List Bytes := c.arguments.map fun a => a.argument.text

/-- The token of the function. -/
def token : Bytes :=
  c.name.name ++ parenOpen :: (List.intercalate [comma] c.argumentTexts ++ [parenClose])

def values : List Bytes := c.arguments.map fun a => a.argument.value

end Call

/-! ### The token of a function -/

theorem Argument.lexeme (a : Argument) : Lexeme a.text a.text := by
  cases a with
  | ident i => exact .name i.ne i.ident
  | string s h => exact .quoted h

/-- An argument ends where the list goes on. -/
theorem Argument.delimits (a : Argument) {c : UInt8} (rest : Bytes)
    (hc : c = comma ∨ c = parenClose) : Delimits a.text (c :: rest) := by
  intro d hd
  cases hd
  cases a with
  | ident i =>
      rw [Argument.text, runsOn_name i.ne i.ident]
      cases hc with
      | inl heq => rw [heq]; rfl
      | inr heq => rw [heq]; rfl
  | string s h => exact runsOn_start rfl rfl _ _

theorem arguments_cons (a : SpacedArgument) (as : List SpacedArgument) :
    Arguments (List.intercalate [comma] ((a :: as).map SpacedArgument.text) ++ [parenClose])
      (List.intercalate [comma] ((a :: as).map fun a => a.argument.text) ++ [parenClose]) := by
  induction as generalizing a with
  | nil =>
      have hlast := Arguments.last a.blank a.argument.lexeme (a.argument.delimits [] (Or.inr rfl))
      simpa [SpacedArgument.text] using hlast
  | cons b as ih =>
      have hmore := Arguments.more a.blank a.argument.lexeme (a.argument.delimits [] (Or.inl rfl))
        (ih b)
      simpa [SpacedArgument.text] using hmore

/-- The lexer reads a function, whatever stands behind it. -/
theorem lexerParseToken_call (c : Call) (rest : Bytes) :
    lexerParseToken (c.text ++ rest) = some (c.token, rest) := by
  have hlexeme : Lexeme c.text c.token := by
    unfold Call.text Call.token Call.argumentTexts
    cases c.arguments with
    | nil => exact @Lexeme.noArguments _ [] c.name.ne c.name.ident fun _ h => absurd h List.not_mem_nil
    | cons a as => exact .call c.name.ne c.name.ident (arguments_cons a as)
  have hend : Delimits c.text rest := delimits_of_runsOn (runsOn_call c.name.ne c.name.ident _)
  apply (lexerParseToken_iff _ _ _).mpr
  exact ⟨⟨[], c.text, (fun _ h => absurd h List.not_mem_nil), rfl, hlexeme, hend⟩⟩

/-! ### Names -/

theorem isWord_of_isIdent {c : UInt8} (h : isIdent c = true)
    (hpoint : c ≠ 46) : isWord c = true := by
  simpa [isIdent, hpoint] using h

/-- An argument starts with a byte that is no blank and no separator. -/
theorem Argument.start (a : Argument) : ∃ c behind, a.text = c :: behind ∧ isTokenStart c = true :=
  a.lexeme.start

theorem Argument.skip (a : Argument) (behind : Bytes) :
    (a.text ++ behind).dropWhile isSpace = a.text ++ behind := by
  obtain ⟨c, text, htext, hc⟩ := a.start
  rw [htext, List.cons_append]
  exact List.dropWhile_cons_of_neg (by simp [isSpace_of_isTokenStart hc])

/-- The object of a function; `none` where `DEF_FUNCTION` dies. -/
def functionValue (src : Bytes) : Option Json := (defFunction src).map fun f => functionOf f.1 f.2

/-- It is what `DEF_FUNCTION` prints between the braces. -/
theorem printDefFunction_eq (json : Json.Encoder) (o : Output) (src : Bytes) :
    o.printDefFunction json src =
      (functionValue src).map fun v => o.printChan (Json.write json o.indentstr v) := by
  unfold functionValue
  rw [Output.printDefFunction, Option.map_map]
  congr 1
  funext f
  exact Output.prints_function json f.1 f.2 o

theorem regex_ident : ∀ c ∈ ([114, 101, 103, 101, 120] : Bytes), isIdent c = true := by
  decide

theorem quote_not_mem_pattern : quote ∉ ([46, 42] : Bytes) := by
  decide

theorem quote_not_mem_format : quote ∉ ([114, 101, 117, 116, 101, 114, 115, 45, 36, 48] : Bytes) := by
  decide

/-- `regex(".*","reuters-$0")` of the example configuration. -/
def regexCall : Call where
  name :=
    { name := [114, 101, 103, 101, 120]
      ne := List.cons_ne_nil _ _
      ident := regex_ident }
  arguments :=
    [{ blanks := [], argument := .string _ quote_not_mem_pattern, blank := List.forall_mem_nil _ },
     { blanks := [], argument := .string _ quote_not_mem_format, blank := List.forall_mem_nil _ }]

theorem quote_not_mem_value (a : Argument) : quote ∉ a.value := by
  cases a with
  | ident i => exact fun hmem => nomatch i.ident quote hmem
  | string s h => exact h

/-- What is not in quotes is written as it is meant. -/
theorem Argument.ident_text {a : Argument} (h : a.isString = false) :
    a.text = a.value ∧ comma ∉ a.text ∧ a.text ≠ [] := by
  cases a with
  | ident i =>
      refine ⟨rfl, ?_, i.ne⟩
      intro hmem
      nomatch i.ident comma hmem
  | string s hs => nomatch h

theorem splitComma_eq (src : Bytes) : splitComma src = splitFields comma src := rfl

/-- The section of aggregators finds a name without a point and splits what is between the
parentheses. -/
theorem aggregatorFunction_call {name : Bytes} (hne : name ≠ []) (hword : ∀ c ∈ name, isWord c = true)
    (behind : Bytes) :
    aggregatorFunction (name ++ parenOpen :: (behind ++ [parenClose])) =
      some (name, some (splitComma behind)) := by
  have hstop : ∀ c ∈ (parenOpen :: (behind ++ [parenClose])).head?, isWord c = false := by
    intro c hc
    cases hc
    rfl
  unfold aggregatorFunction
  rw [takeWhile_append_stop hword hstop, dropWhile_append_stop hword hstop]
  simp [hne]

/-- No name with a point comes out. -/
theorem aggregatorFunction_name {function funcname : Bytes} {arg : Option (List Bytes)}
    (h : aggregatorFunction function = some (funcname, arg)) : 46 ∉ funcname := by
  intro hmem
  have hname : funcname = function.takeWhile isWord := by
    unfold aggregatorFunction at h
    dsimp only at h
    split_ifs at h
    all_goals
      cases h
      rfl
  rw [hname] at hmem
  nomatch List.mem_takeWhile_imp hmem

/-- A string leaves its quotes in the pieces between the commas. -/
theorem Call.quote_mem_pieces (c : Call) {a : SpacedArgument} (ha : a ∈ c.arguments)
    (hstring : a.argument.isString = true) :
    ∃ piece ∈ splitComma (List.intercalate [comma] c.argumentTexts), quote ∈ piece := by
  have htext : a.argument.text ∈ c.argumentTexts :=
    List.mem_map_of_mem (f := fun a : SpacedArgument => a.argument.text) ha
  have hquote : quote ∈ a.argument.text := by
    cases harg : a.argument with
    | ident i =>
        rw [harg] at hstring
        cases hstring
    | string s h => exact List.mem_cons_self
  have hne : quote ≠ comma := by decide
  have hmem : quote ∈ List.intercalate [comma] c.argumentTexts :=
    (mem_intercalate_iff hne).mpr ⟨_, htext, hquote⟩
  rw [splitComma_eq]
  exact mem_splitFields hmem hne

/-- Without strings the pieces between the commas are the arguments. -/
theorem Call.pieces_eq (c : Call) (hident : ∀ a ∈ c.arguments, a.argument.isString = false) :
    splitComma (List.intercalate [comma] c.argumentTexts) = c.values := by
  have hvalues : c.argumentTexts = c.values :=
    List.map_congr_left fun a ha => (Argument.ident_text (hident a ha)).1
  have hpieces : ∀ piece ∈ c.argumentTexts, comma ∉ piece ∧ piece ≠ [] := by
    intro piece hpiece
    obtain ⟨a, ha, rfl⟩ := List.mem_map.mp hpiece
    exact (Argument.ident_text (hident a ha)).2
  have hlast : c.argumentTexts.getLast? ≠ some [] := fun hnil =>
    (hpieces [] (List.mem_of_getLast? hnil)).2 rfl
  rw [splitComma_eq, splitFields_intercalate (fun piece h => (hpieces piece h).1) hlast, hvalues]

/-- The section of aggregators extracts the name of a function and its arguments exactly if
the name has no point and no argument is in quotes. -/
theorem aggregatorFunction_iff (c : Call) (rest : Bytes) :
    lexerParseToken (c.text ++ rest) = some (c.token, rest) ∧
      (aggregatorFunction c.token = some (c.name.name, some c.values) ↔
        46 ∉ c.name.name ∧ ∀ a ∈ c.arguments, a.argument.isString = false) := by
  refine ⟨lexerParseToken_call c rest, ?_⟩
  have hread (hpoint : 46 ∉ c.name.name) : aggregatorFunction c.token =
      some (c.name.name, some (splitComma (List.intercalate [comma] c.argumentTexts))) := by
    have hword : ∀ d ∈ c.name.name, isWord d = true := fun d hd =>
      isWord_of_isIdent (c.name.ident d hd) fun heq => hpoint (heq ▸ hd)
    exact aggregatorFunction_call c.name.ne hword _
  constructor
  · intro hextract
    have hpoint := aggregatorFunction_name hextract
    refine ⟨hpoint, ?_⟩
    intro a ha
    by_contra hstring
    rw [hread hpoint] at hextract
    have hpieces : splitComma (List.intercalate [comma] c.argumentTexts) = c.values :=
      Option.some.inj (Prod.mk.inj (Option.some.inj hextract)).2
    -- one of the pieces has the quote, no argument has it
    obtain ⟨piece, hpiece, hin⟩ := c.quote_mem_pieces ha (by simpa using hstring)
    rw [hpieces] at hpiece
    obtain ⟨a', -, heq⟩ := List.mem_map.mp hpiece
    exact quote_not_mem_value a'.argument (heq ▸ hin)
  · rintro ⟨hpoint, hident⟩
    rw [hread hpoint, c.pieces_eq hident]

theorem quote_not_mem_list : quote ∉ ([97, 44, 98] : Bytes) := by
  decide

/-- `regex("a,b")`. -/
def listCall : Call where
  name := regexCall.name
  arguments := [{ blanks := [], argument := .string _ quote_not_mem_list, blank := List.forall_mem_nil _ }]

theorem aggregatorFunction_listCall :
    lexerParseToken listCall.text = some (listCall.token, []) ∧
      aggregatorFunction listCall.token = some (listCall.name.name, some [[34, 97], [98, 34]]) ∧
      listCall.values = [[97, 44, 98]] := by
  decide

end StrusWebService.AnaConfig
