import StrusWebService.AnaConfig.Lexer
import StrusWebService.Library.Reading

/-! # The commands of the sections

What the main loop of `convDocAnaConfigToJson.pl` reads from `$g_src` when a line ends
a command: the variables of the branch for the current section. The options of a
feature stand in a hash, in the order in which their names are stored first.
-/

namespace StrusWebService.AnaConfig

open Json (comma openBrace closeBrace)
open Text (colon)

def assign : UInt8 := 61
def caret : UInt8 := 94

/-- The values of `%sectionNameMap` and `$curchan`. -/
inductive Channel where
  | content
  | document
  | search
  | forward
  | metadata
  | attribute
  | lexem
  | aggregator
  | field
  | «structure»
  | all
  deriving DecidableEq, Repr

/-- What a command defines. -/
inductive Command where
  | feature (name : Bytes) (priority : Option Bytes) (normalizers : List Bytes) (tokenizer : Bytes)
      (options : List (Bytes × Bytes)) (expression : Bytes)
  | aggregator (name function : Bytes)
  | content (documentClass expression : Bytes)
  | document (name expression : Bytes)
  | field (name scopeexpr selectexpr idexpr : Bytes)
  | structure (name headername contentname classname : Bytes)
  deriving DecidableEq, Repr

/-- The options of a feature. -/
def Command.options : Command → List (Bytes × Bytes)
  | .feature _ _ _ _ options _ => options
  | _ => []

/-- The next token has to be this byte. -/
def expectToken (c : UInt8) : Lexer Unit := do
  let token ← lexerParseToken
  if token ≠ [c] then failure

/-- Nothing may stand behind the command. -/
def expectEof : Lexer Unit := do
  let eof ← lexerEof
  if !eof then failure

/-- The loop over `$tokenizer eq ":"`. -/
def normalizersLoop : Nat → List Bytes → Bytes → Lexer (List Bytes × Bytes)
  | 0, _, _ => failure
  | fuel + 1, normalizers, tokenizer =>
      if tokenizer = [colon] then do
        let normalizer ← lexerParseToken
        let tokenizer ← lexerParseToken
        normalizersLoop fuel (normalizers ++ [normalizer]) tokenizer
      else pure (normalizers, tokenizer)

/-- `$options{ $optnam} = $optval`. -/
def storeOption (options : List (Bytes × Bytes)) (optnam optval : Bytes) : List (Bytes × Bytes) :=
  if options.any (·.1 = optnam) then
    options.map fun o => if o.1 = optnam then (optnam, optval) else o
  else options ++ [(optnam, optval)]

/-- The loop over `$dl eq ','`, entered with that. -/
def optionsLoop : Nat → List (Bytes × Bytes) → Lexer (List (Bytes × Bytes) × Bytes)
  | 0, _ => failure
  | fuel + 1, options => do
      let optnam ← lexerParseToken
      expectToken assign
      let optval ← lexerParseToken
      let dl ← lexerParseToken
      if dl = [comma] then optionsLoop fuel (storeOption options optnam optval)
      else pure (storeOption options optnam optval, dl)

/-- A turn of a loop reads tokens, so the length of the source bounds the turns. -/
def readNormalizers (normalizer tokenizer : Bytes) : Lexer (List Bytes × Bytes) := fun src =>
  normalizersLoop (src.length + 1) [normalizer] tokenizer src

def readOptionList : Lexer (List (Bytes × Bytes) × Bytes) := fun src =>
  optionsLoop (src.length + 1) [] src

def readOptions : Lexer (List (Bytes × Bytes)) := do
  let (options, dl) ← readOptionList
  if dl ≠ [closeBrace] then failure
  pure options

/-- The priority and the operator behind the name of a feature. -/
def readPriority : Lexer (Option Bytes × Bytes) := do
  let opr ← lexerParseToken
  if opr = [caret] then
    let priority ← lexerParseToken
    let opr ← lexerParseToken
    pure (some priority, opr)
  else pure (none, opr)

/-- The options and the expression at the end of a feature. -/
def readExpression : Lexer (List (Bytes × Bytes) × Bytes) := do
  let expression ← lexerParseToken
  if expression = [openBrace] then
    let options ← readOptions
    let expression ← lexerParseToken
    pure (options, expression)
  else pure ([], expression)

def readFeature : Lexer Command := do
  let name ← lexerParseToken
  let (priority, opr) ← readPriority
  if opr ≠ [assign] then failure
  let normalizer ← lexerParseToken
  let tokenizer ← lexerParseToken
  let (normalizers, tokenizer) ← readNormalizers normalizer tokenizer
  let (options, expression) ← readExpression
  expectEof
  pure (.feature name priority normalizers tokenizer options expression)

def readAggregator : Lexer Command := do
  let name ← lexerParseToken
  expectToken assign
  let function ← lexerParseToken
  pure (.aggregator name function)

def readContent : Lexer Command := do
  let documentClass ← lexerParseToken
  let expression ← lexerParseToken
  pure (.content documentClass expression)

def readDocument : Lexer Command := do
  let name ← lexerParseToken
  expectToken assign
  let expression ← lexerParseToken
  pure (.document name expression)

/-- `$idexpr` is empty where nothing is left for it. -/
def readIdexpr : Lexer Bytes := do
  let eof ← lexerEof
  if !eof then lexerParseToken else pure []

def readField : Lexer Command := do
  let name ← lexerParseToken
  expectToken assign
  let scopeexpr ← lexerParseToken
  let selectexpr ← lexerParseToken
  let idexpr ← readIdexpr
  expectEof
  pure (.field name scopeexpr selectexpr idexpr)

def readStructure : Lexer Command := do
  let name ← lexerParseToken
  expectToken assign
  let headername ← lexerParseToken
  let contentname ← lexerParseToken
  let classname ← lexerParseToken
  expectEof
  pure (.structure name headername contentname classname)

/-- The branches over `$curchan` up to the first call that prints. -/
def readCommand : Channel → Lexer Command
  | .forward | .search | .attribute | .metadata | .lexem => readFeature
  | .aggregator => readAggregator
  | .content => readContent
  | .document => readDocument
  | .field => readField
  | .structure => readStructure
  | .all => failure

/-! ### What a reading depends on -/

theorem lexerParseToken_length {src token rest : Bytes}
    (h : lexerParseToken src = some (token, rest)) : rest.length < src.length := by
  obtain ⟨blanks, text, -, hsrc, htext, -⟩ := ((lexerParseToken_iff src token rest).mp h).ex
  obtain ⟨c, behind, rfl, -⟩ := htext.start
  rw [hsrc]
  simp only [List.length_append, List.length_cons]
  omega

theorem expectToken_length {c : UInt8} {u : Unit} {src rest : Bytes}
    (h : expectToken c src = some (u, rest)) : rest.length < src.length := by
  have hrun : expectToken c src =
      (lexerParseToken src).bind fun r =>
        (if r.1 ≠ [c] then failure else pure () : Lexer Unit) r.2 := rfl
  rw [hrun] at h
  obtain ⟨⟨token, behind⟩, htoken, hmore⟩ := Option.bind_eq_some_iff.mp h
  have hlt := lexerParseToken_length htoken
  dsimp only at hmore
  split at hmore
  · cases hmore
  · cases hmore
    exact hlt

/-- The length of the source is enough for the turns of the loop. -/
theorem normalizersLoop_fuel {fuel : Nat} {src : Bytes} (h : src.length < fuel)
    (normalizers : List Bytes) (tokenizer : Bytes) :
    normalizersLoop (fuel + 1) normalizers tokenizer src =
      normalizersLoop fuel normalizers tokenizer src := by
  induction fuel generalizing src normalizers tokenizer with
  | zero => nomatch h
  | succ fuel ih =>
      rw [normalizersLoop, normalizersLoop]
      split
      · apply bind_congr_run
        intro normalizer src' hsrc'
        apply bind_congr_run
        intro tokenizer' src'' hsrc''
        have hlt := lexerParseToken_length hsrc'
        have hlt' := lexerParseToken_length hsrc''
        exact ih (by omega) _ _
      · rfl

theorem optionsLoop_fuel {fuel : Nat} {src : Bytes} (h : src.length < fuel)
    (options : List (Bytes × Bytes)) :
    optionsLoop (fuel + 1) options src = optionsLoop fuel options src := by
  induction fuel generalizing src options with
  | zero => nomatch h
  | succ fuel ih =>
      rw [optionsLoop, optionsLoop]
      apply bind_congr_run
      intro optnam src₁ h₁
      apply bind_congr_run
      intro _ src₂ h₂
      apply bind_congr_run
      intro optval src₃ h₃
      apply bind_congr_run
      intro dl src₄ h₄
      have hlt₁ := lexerParseToken_length h₁
      have hle₂ := expectToken_length h₂
      have hlt₃ := lexerParseToken_length h₃
      have hlt₄ := lexerParseToken_length h₄
      split
      · exact ih (by omega) _
      · rfl

theorem storeOption_good {good : Bytes → Prop} {options : List (Bytes × Bytes)} {optnam : Bytes} (optval : Bytes)
    (hoptions : ∀ o ∈ options, good o.1) (hoptnam : good optnam) :
    ∀ o ∈ storeOption options optnam optval, good o.1 := by
  intro o ho
  unfold storeOption at ho
  split at ho
  · obtain ⟨o', ho', heq⟩ := List.mem_map.mp ho
    rw [← heq]
    split
    · exact hoptnam
    · exact hoptions o' ho'
  · cases List.mem_append.mp ho with
    | inl hmem => exact hoptions o hmem
    | inr hmem =>
        rw [List.mem_singleton.mp hmem]
        exact hoptnam

section Alike

variable {rel : Bytes → Bytes → Prop} {good : Bytes → Prop}

/-- The readers see nothing of a source but its tokens and its end. -/
structure Blind (rel : Bytes → Bytes → Prop) (good : Bytes → Prop) : Prop where
  token : Alike rel good lexerParseToken
  eof : Alike rel (fun _ => True) lexerEof

variable (blind : Blind rel good)

include blind

theorem alike_expectToken (c : UInt8) : Alike rel (fun _ => True) (expectToken c) := by
  apply blind.token.bind
  intro token _
  apply Alike.ite
  · intro _
    exact Alike.fail
  · intro _
    exact Alike.pure trivial

theorem alike_expectEof : Alike rel (fun _ => True) expectEof := by
  apply blind.eof.bind
  intro eof _
  apply Alike.ite
  · intro _
    exact Alike.fail
  · intro _
    exact Alike.pure trivial

theorem alike_normalizersLoop (fuel : Nat) (normalizers : List Bytes) (tokenizer : Bytes) :
    Alike rel (fun _ => True) (normalizersLoop fuel normalizers tokenizer) := by
  induction fuel generalizing normalizers tokenizer with
  | zero => exact Alike.fail
  | succ fuel ih =>
      apply Alike.ite
      · intro _
        apply blind.token.bind
        intro normalizer _
        apply blind.token.bind
        intro tokenizer _
        exact ih _ _
      · intro _
        exact Alike.pure trivial

theorem alike_readNormalizers (normalizer tokenizer : Bytes) :
    Alike rel (fun _ => True) (readNormalizers normalizer tokenizer) := by
  apply Alike.loop (fun fuel => normalizersLoop fuel [normalizer] tokenizer) List.length
  · intro fuel src hfuel
    exact normalizersLoop_fuel hfuel _ _
  · intro fuel
    exact alike_normalizersLoop blind fuel _ _

theorem alike_readPriority : Alike rel (fun _ => True) readPriority := by
  apply blind.token.bind
  intro opr _
  apply Alike.ite
  · intro _
    apply blind.token.bind
    intro priority _
    apply blind.token.bind
    intro opr _
    exact Alike.pure trivial
  · intro _
    exact Alike.pure trivial

theorem alike_optionsLoop (fuel : Nat) {options : List (Bytes × Bytes)}
    (hoptions : ∀ o ∈ options, good o.1) :
    Alike rel (fun r => ∀ o ∈ r.1, good o.1) (optionsLoop fuel options) := by
  induction fuel generalizing options with
  | zero => exact Alike.fail
  | succ fuel ih =>
      apply blind.token.bind
      intro optnam hoptnam
      apply (alike_expectToken blind assign).bind
      intro _ _
      apply blind.token.bind
      intro optval _
      apply blind.token.bind
      intro dl _
      have hstored := storeOption_good optval hoptions hoptnam
      apply Alike.ite
      · intro _
        exact ih hstored
      · intro _
        exact Alike.pure hstored

theorem alike_readOptions : Alike rel (fun r => ∀ o ∈ r, good o.1) readOptions := by
  have hlist : Alike rel (fun r => ∀ o ∈ r.1, good o.1) readOptionList := by
    apply Alike.loop (fun fuel => optionsLoop fuel []) List.length
    · intro fuel src hfuel
      exact optionsLoop_fuel hfuel _
    · intro fuel
      exact alike_optionsLoop blind fuel fun o ho => nomatch ho
  apply hlist.bind
  intro r hr
  apply Alike.ite
  · intro _
    exact Alike.fail_bind
  · intro _
    exact Alike.pure hr

theorem alike_readExpression : Alike rel (fun r => ∀ o ∈ r.1, good o.1) readExpression := by
  apply blind.token.bind
  intro expression _
  apply Alike.ite
  · intro _
    apply (alike_readOptions blind).bind
    intro options hoptions
    apply blind.token.bind
    intro expression _
    exact Alike.pure hoptions
  · intro _
    exact Alike.pure fun o ho => nomatch ho

theorem alike_readFeature : Alike rel (fun c => ∀ o ∈ c.options, good o.1) readFeature := by
  apply blind.token.bind
  intro name _
  apply (alike_readPriority blind).bind
  intro p _
  apply Alike.ite
  · intro _
    exact Alike.fail_bind
  · intro _
    apply blind.token.bind
    intro normalizer _
    apply blind.token.bind
    intro tokenizer _
    apply (alike_readNormalizers blind normalizer tokenizer).bind
    intro n _
    apply (alike_readExpression blind).bind
    intro e he
    apply (alike_expectEof blind).bind
    intro _ _
    exact Alike.pure he

theorem alike_readAggregator : Alike rel (fun c => ∀ o ∈ c.options, good o.1) readAggregator := by
  apply blind.token.bind
  intro name _
  apply (alike_expectToken blind assign).bind
  intro _ _
  apply blind.token.bind
  intro function _
  exact Alike.pure fun o ho => nomatch ho

theorem alike_readContent : Alike rel (fun c => ∀ o ∈ c.options, good o.1) readContent := by
  apply blind.token.bind
  intro documentClass _
  apply blind.token.bind
  intro expression _
  exact Alike.pure fun o ho => nomatch ho

theorem alike_readDocument : Alike rel (fun c => ∀ o ∈ c.options, good o.1) readDocument := by
  apply blind.token.bind
  intro name _
  apply (alike_expectToken blind assign).bind
  intro _ _
  apply blind.token.bind
  intro expression _
  exact Alike.pure fun o ho => nomatch ho

theorem alike_readIdexpr : Alike rel (fun _ => True) readIdexpr := by
  apply blind.eof.bind
  intro eof _
  apply Alike.ite
  · intro _
    exact blind.token.mono fun _ _ => trivial
  · intro _
    exact Alike.pure trivial

theorem alike_readField : Alike rel (fun c => ∀ o ∈ c.options, good o.1) readField := by
  apply blind.token.bind
  intro name _
  apply (alike_expectToken blind assign).bind
  intro _ _
  apply blind.token.bind
  intro scopeexpr _
  apply blind.token.bind
  intro selectexpr _
  apply (alike_readIdexpr blind).bind
  intro idexpr _
  apply (alike_expectEof blind).bind
  intro _ _
  exact Alike.pure fun o ho => nomatch ho

theorem alike_readStructure : Alike rel (fun c => ∀ o ∈ c.options, good o.1) readStructure := by
  apply blind.token.bind
  intro name _
  apply (alike_expectToken blind assign).bind
  intro _ _
  apply blind.token.bind
  intro headername _
  apply blind.token.bind
  intro contentname _
  apply blind.token.bind
  intro classname _
  apply (alike_expectEof blind).bind
  intro _ _
  exact Alike.pure fun o ho => nomatch ho

/-- Sources with the same tokens give the same command. -/
theorem alike_readCommand (channel : Channel) :
    Alike rel (fun c => ∀ o ∈ c.options, good o.1) (readCommand channel) := by
  cases channel with
  | forward | search | «attribute» | metadata | lexem => exact alike_readFeature blind
  | aggregator => exact alike_readAggregator blind
  | content => exact alike_readContent blind
  | document => exact alike_readDocument blind
  | field => exact alike_readField blind
  | «structure» => exact alike_readStructure blind
  | all => exact Alike.fail

end Alike

/-! ### Line breaks -/

theorem lexerParseToken_noBreak {src token rest : Bytes} (hsrc : 10 ∉ src)
    (h : lexerParseToken src = some (token, rest)) : 10 ∉ token ∧ 10 ∉ rest := by
  obtain ⟨blanks, text, -, heq, htext, -⟩ := ((lexerParseToken_iff src token rest).mp h).ex
  rw [heq, List.mem_append, List.mem_append] at hsrc
  constructor
  · intro hmem
    exact hsrc (Or.inr (Or.inl (htext.mem _ hmem)))
  · intro hmem
    exact hsrc (Or.inr (Or.inr hmem))

/-- A source without line breaks and its tokens. -/
theorem blind_noBreak : Blind (fun src src' => src = src' ∧ 10 ∉ src) (10 ∉ ·) where
  token := by
    intro src src' hsrc
    rcases hsrc with ⟨rfl, hsrc⟩
    cases htoken : lexerParseToken src with
    | none => exact Or.inl ⟨rfl, rfl⟩
    | some r =>
        obtain ⟨hgood, hrest⟩ := lexerParseToken_noBreak hsrc htoken
        exact Or.inr ⟨r.1, r.2, r.2, rfl, rfl, hgood, rfl, hrest⟩
  eof := by
    intro src src' hsrc
    rcases hsrc with ⟨rfl, hsrc⟩
    exact Or.inr ⟨_, src, src, rfl, rfl, trivial, rfl, hsrc⟩

theorem readCommand_noBreak {channel : Channel} {src rest : Bytes} {c : Command} (hsrc : 10 ∉ src)
    (h : readCommand channel src = some (c, rest)) : ∀ o ∈ c.options, 10 ∉ o.1 := by
  cases alike_readCommand blind_noBreak channel src src ⟨rfl, hsrc⟩ with
  | inl hnone =>
      rw [h] at hnone
      nomatch hnone.1
  | inr hsome =>
      rcases hsome with ⟨c', r, r', hr, -, hgood, -⟩
      rw [h] at hr
      cases hr
      exact hgood

end StrusWebService.AnaConfig
