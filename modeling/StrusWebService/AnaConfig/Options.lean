import StrusWebService.AnaConfig.WellFormed
import StrusWebService.Library.Json.Determined

/-! # The options of a feature

A feature may have a block of options between its tokenizer and its selector. The block is
written with commas, `OptionBlock`, for which the lexer has no token: a feature with more
than one option is not converted. What is printed for one option is read as JSON.
-/

namespace StrusWebService.AnaConfig

open Json (quote comma openBrace closeBrace)
open Text (isSpace str)

/-- A token as it is written, with the blanks in front of it. -/
structure Word where
  blanks : Bytes
  text : Bytes
  token : Bytes
  blank : ∀ c ∈ blanks, isBlank c = true
  lexeme : Lexeme text token

def Word.written (w : Word) : Bytes := w.blanks ++ w.text

/-- `name = value`. -/
structure Assignment where
  name : Word
  blanks : Bytes
  value : Word
  blank : ∀ c ∈ blanks, isBlank c = true
  ends : Delimits name.text (blanks ++ [assign])

namespace Assignment

variable (a : Assignment)

def written : Bytes := a.name.written ++ (a.blanks ++ assign :: a.value.written)

def option : Bytes × Bytes := (a.name.token, a.value.token)

end Assignment

/-- Options and their text up to the closing brace. -/
inductive OptionBlock : List (Bytes × Bytes) → Bytes → Prop
  | last {a : Assignment} {blanks : Bytes} (hblanks : ∀ c ∈ blanks, isBlank c = true)
      (hend : Delimits a.value.text (blanks ++ [closeBrace])) :
      OptionBlock [a.option] (a.written ++ (blanks ++ [closeBrace]))
  | more {a : Assignment} {blanks : Bytes} {options : List (Bytes × Bytes)} {block : Bytes}
      (hblanks : ∀ c ∈ blanks, isBlank c = true)
      (hend : Delimits a.value.text (blanks ++ [comma])) (hmore : OptionBlock options block) :
      OptionBlock (a.option :: options) (a.written ++ (blanks ++ comma :: block))

/-- What is read of a feature in front of its options. -/
structure FeatureHead where
  name : Bytes
  priority : Option Bytes
  normalizers : List Bytes
  tokenizer : Bytes

def readFeatureHead : Lexer FeatureHead := do
  let name ← lexerParseToken
  let (priority, opr) ← readPriority
  if opr ≠ [assign] then failure
  let normalizer ← lexerParseToken
  let tokenizer ← lexerParseToken
  let (normalizers, tokenizer) ← readNormalizers normalizer tokenizer
  pure { name := name, priority := priority, normalizers := normalizers, tokenizer := tokenizer }

/-- What follows the part that has been read of a feature. -/
def readFeatureRest (head : FeatureHead) : Lexer Command := do
  let (options, expression) ← readExpression
  expectEof
  pure (.feature head.name head.priority head.normalizers head.tokenizer options expression)

theorem readFeature_eq : readFeature = readFeatureHead >>= readFeatureRest := by
  unfold readFeature readFeatureHead readFeatureRest
  simp only [bind_assoc]
  apply bind_congr
  intro name
  apply bind_congr
  intro p
  split
  · simp only [bind_assoc, pure_bind]
  · simp only [bind_assoc, pure_bind]

/-! ### Tokens behind blanks -/

theorem Delimits.extend {text blanks : Bytes} {c : UInt8} (h : Delimits text (blanks ++ [c]))
    (rest : Bytes) : Delimits text (blanks ++ c :: rest) := by
  cases blanks with
  | nil => exact h
  | cons d blanks => exact h

theorem Word.read (w : Word) {rest : Bytes} (hend : Delimits w.text rest) :
    lexerParseToken (w.written ++ rest) = some (w.token, rest) := by
  apply (lexerParseToken_iff _ _ _).mpr
  exact ⟨⟨w.blanks, w.text, w.blank, List.append_assoc _ _ _, w.lexeme, hend⟩⟩

theorem lexerParseToken_mark {blanks : Bytes} {c : UInt8} (hblanks : ∀ c ∈ blanks, isBlank c = true)
    (hc : isMark c = true) (rest : Bytes) :
    lexerParseToken (blanks ++ c :: rest) = some ([c], rest) := by
  have hexcludes := isMark_excludes hc
  have hend : Delimits [c] rest := delimits_of_runsOn (runsOn_start hexcludes.1 hexcludes.2.1 [])
  apply (lexerParseToken_iff _ _ _).mpr
  exact ⟨⟨blanks, [c], hblanks, rfl, .mark hc, hend⟩⟩

theorem lexerParseToken_comma {blanks : Bytes} (hblanks : ∀ c ∈ blanks, isBlank c = true)
    (rest : Bytes) : lexerParseToken (blanks ++ comma :: rest) = none := by
  cases hread : lexerParseToken (blanks ++ comma :: rest) with
  | none => rfl
  | some r =>
      exfalso
      obtain ⟨blanks', text, hblanks', hsrc, htext, -⟩ := ((lexerParseToken_iff _ _ _).mp hread).ex
      have hskip := htext.skip hblanks' r.2
      obtain ⟨c, behind, rfl, hc⟩ := htext.start
      rw [← hsrc, lexerSkipSpaces_append hblanks, lexerSkipSpaces_cons (by decide),
        List.cons_append] at hskip
      exact ne_of_isTokenStart hc rfl (List.cons.inj hskip).1.symm

/-! ### Reading the block -/

theorem optionsLoop_assignment (fuel : Nat) (options : List (Bytes × Bytes)) (a : Assignment)
    {rest : Bytes} (hend : Delimits a.value.text rest) :
    optionsLoop (fuel + 1) options (a.written ++ rest) =
      (do
        let dl ← lexerParseToken
        if dl = [comma] then optionsLoop fuel (storeOption options a.name.token a.value.token)
        else pure (storeOption options a.name.token a.value.token, dl) :
        Lexer (List (Bytes × Bytes) × Bytes)) rest := by
  have hsrc : a.written ++ rest =
      a.name.written ++ (a.blanks ++ assign :: (a.value.written ++ rest)) := by
    simp [Assignment.written]
  have hname := a.name.read (a.ends.extend (a.value.written ++ rest))
  have hassign : expectToken assign (a.blanks ++ assign :: (a.value.written ++ rest)) =
      some ((), a.value.written ++ rest) := by
    unfold expectToken
    rw [bind_of_some (lexerParseToken_mark a.blank rfl _), if_neg (by simp)]
    rfl
  rw [optionsLoop, hsrc, bind_of_some hname, bind_of_some hassign, bind_of_some (a.value.read hend)]

/-- A block is read if it has one option: a comma behind the first ends the program. -/
theorem readOptions_block {options : List (Bytes × Bytes)} {block : Bytes}
    (h : OptionBlock options block) (behind : Bytes) :
    readOptions (block ++ behind) = if options.length = 1 then some (options, behind) else none := by
  cases h with
  | @last a blanks hblanks hend =>
      have hsrc : a.written ++ (blanks ++ [closeBrace]) ++ behind =
          a.written ++ (blanks ++ closeBrace :: behind) := by simp
      have hlist : readOptionList (a.written ++ (blanks ++ closeBrace :: behind)) =
          some (([a.option], [closeBrace]), behind) := by
        unfold readOptionList
        rw [optionsLoop_assignment _ _ _ (hend.extend behind),
          bind_of_some (lexerParseToken_mark hblanks rfl behind), if_neg (by decide)]
        rfl
      rw [hsrc, readOptions, bind_of_some hlist]
      rfl
  | @more a blanks options block hblanks hend hmore =>
      have hsrc : a.written ++ (blanks ++ comma :: block) ++ behind =
          a.written ++ (blanks ++ comma :: (block ++ behind)) := by simp
      have hlist : readOptionList (a.written ++ (blanks ++ comma :: (block ++ behind))) = none := by
        unfold readOptionList
        rw [optionsLoop_assignment _ _ _ (hend.extend _),
          bind_of_none (lexerParseToken_comma hblanks _)]
      have hlength : options.length ≠ 0 := by
        cases hmore with
        | last => exact Nat.one_ne_zero
        | more => exact Nat.succ_ne_zero _
      rw [hsrc, readOptions, bind_of_none hlist, List.length_cons, if_neg (by omega)]

theorem printChan_injective (o : Output) {arg arg' : Bytes} (h : o.printChan arg = o.printChan arg') :
    arg = arg' := by
  have hmap := congrFun (congrArg Output.outputmap h) o.curchan
  simpa [Output.printChan] using hmap

/-- What looks like a number has no letters. -/
theorem figures_of_printedRaw {val : Bytes} (h : printedRaw val = true) : Json.Figures val where
  numeral := numeral_of_printedRaw h
  noWord := by
    intro c hc
    have hmem := (bytes_of_printedRaw h).2 c (List.mem_of_mem_head? hc)
    rcases hmem with hdigit | rfl | rfl
    · simp only [Text.isDigit, Bool.and_eq_true, decide_eq_true_eq] at hdigit
      exact UInt8.lt_of_le_of_lt hdigit.2 (by decide)
    · decide
    · decide

/-! ### A feature with options -/

/-- The text of a command in one of the sections of features: what is read in front of the
block has been read already, the rest is written as it is to be read. -/
structure OptionCommand where
  out : Output
  src : Bytes
  head : FeatureHead
  blanks : Bytes
  options : List (Bytes × Bytes)
  block : Bytes
  selector : Word
  behind : Bytes
  channel : out.curchan ∈ [Channel.forward, .search, .attribute, .metadata, .lexem]
  read : readFeatureHead src =
    some (head, blanks ++ openBrace :: (block ++ (selector.written ++ behind)))
  blank : ∀ c ∈ blanks, isBlank c = true
  written : OptionBlock options block
  distinct : (options.map (·.1)).Nodup
  ends : Delimits selector.text behind
  eof : behind.all isSpace = true

namespace OptionCommand

variable (c : OptionCommand)

def state : Converter where
  src := c.src
  out := c.out

/-- The command that is meant. -/
def command : Command :=
  .feature c.head.name c.head.priority c.head.normalizers c.head.tokenizer c.options c.selector.token

theorem readCommand_eq :
    readCommand c.out.curchan c.src =
      if c.options.length = 1 then some (c.command, c.behind) else none := by
  have hfeature : readCommand c.out.curchan = readFeature := by
    have hchannel := c.channel
    simp only [List.mem_cons, List.not_mem_nil, or_false] at hchannel
    rcases hchannel with h | h | h | h | h
    all_goals
      rw [h]
      rfl
  have hbrace : isMark openBrace = true := rfl
  have hopen := lexerParseToken_mark c.blank hbrace (c.block ++ (c.selector.written ++ c.behind))
  have hoptions := readOptions_block c.written (c.selector.written ++ c.behind)
  rw [hfeature, readFeature_eq, bind_of_some c.read]
  unfold readFeatureRest readExpression
  simp only [bind_assoc]
  rw [bind_of_some hopen, if_pos rfl]
  by_cases hlength : c.options.length = 1
  · rw [if_pos hlength] at hoptions ⊢
    have hselector := c.selector.read c.ends
    have heof : expectEof c.behind = some ((), c.behind) := by
      unfold expectEof
      rw [bind_of_some (show lexerEof c.behind = some (c.behind.all isSpace, c.behind) from rfl),
        c.eof]
      rfl
    simp only [bind_assoc]
    rw [bind_of_some hoptions, bind_of_some hselector]
    simp only [pure_bind]
    rw [bind_of_some heof]
    rfl
  · rw [if_neg hlength] at hoptions ⊢
    simp only [bind_assoc]
    rw [bind_of_none hoptions]

/-- The command is converted, and the text printed for it is read as an object whose
member of this name has the options as its members. -/
def ConvertsOptions (json : Json.Encoder) : Prop :=
  ∃ entry members options,
    AnaConfig.command json c.state =
        some { src := [], out := c.out.printInitDelim.printChan entry } ∧
      Json.parse entry = some (.object members) ∧
      members.filter (·.1 = str "option") = [(str "option", .object options)] ∧
      options.Perm (c.options.map fun o => member o.1 o.2)

/-- `DEF_FUNCTION` accepts the tokenizer and the normalizers. -/
def functionsAccepted : Bool :=
  (defFunction c.head.tokenizer).isSome && c.head.normalizers.all fun n => (defFunction n).isSome

def optionMember : Bytes × Json := (str "option", .object (c.options.map fun o => member o.1 o.2))

theorem isSome_mapM {α β : Type} (f : α → Option β) (list : List α) :
    (list.mapM f).isSome = list.all fun a => (f a).isSome := by
  induction list with
  | nil => rfl
  | cons a list ih =>
      rw [List.mapM_cons, List.all_cons, ← ih]
      cases f a with
      | none => rfl
      | some b =>
          cases list.mapM f with
          | none => rfl
          | some bs => rfl

def before (tokenizer : Bytes × List Bytes) (normalizers : List (Bytes × List Bytes)) :
    List (Bytes × Json) :=
  [member (str "type") c.head.name, (str "tokenizer", functionOf tokenizer.1 tokenizer.2),
    (str "normalizer", .array (normalizers.map fun f => functionOf f.1 f.2))] ++
    member? (str "priority") c.head.priority

theorem before_ne_option (tokenizer : Bytes × List Bytes) (normalizers : List (Bytes × List Bytes)) :
    ∀ m ∈ c.before tokenizer normalizers ++ [member (str "select") c.selector.token],
      m.1 ≠ str "option" := by
  have hnames : ∀ name ∈ [str "type", str "tokenizer", str "normalizer", str "priority",
      str "select"], name ≠ str "option" := by decide
  intro m hm
  apply hnames
  cases hpriority : c.head.priority with
  | none =>
      simp only [before, hpriority, member?, Option.map_none, Option.toList_none, List.append_nil,
        List.mem_append, List.mem_cons, List.not_mem_nil, or_false] at hm
      rcases hm with (rfl | rfl | rfl) | rfl
      all_goals simp [member]
  | some val =>
      simp only [before, hpriority, member?, Option.map_some, Option.toList_some,
        List.mem_append, List.mem_cons, List.not_mem_nil, or_false] at hm
      rcases hm with ((rfl | rfl | rfl) | rfl) | rfl
      all_goals simp [member]

def plainCommand : Command :=
  .feature c.head.name c.head.priority c.head.normalizers c.head.tokenizer [] c.selector.token

/-- Where the functions are accepted, the entry has the options behind the priority, and is
the entry of the command without options otherwise. -/
theorem entry_command (hoptions : c.options ≠ []) :
    (c.functionsAccepted = false ∧ c.command.entry = none) ∨
      (c.functionsAccepted = true ∧ ∃ before select,
        c.command.entry = some (.object (before ++ c.optionMember :: [select])) ∧
        c.plainCommand.entry = some (.object (before ++ [select])) ∧
        ∀ m ∈ before ++ [select], m.1 ≠ str "option") := by
  have hnormalizers := isSome_mapM defFunction c.head.normalizers
  unfold functionsAccepted command plainCommand Command.entry
  dsimp only
  cases htokenizer : defFunction c.head.tokenizer with
  | none => exact Or.inl ⟨rfl, rfl⟩
  | some f =>
      rw [← hnormalizers]
      cases hfunctions : c.head.normalizers.mapM defFunction with
      | none => exact Or.inl ⟨rfl, rfl⟩
      | some functions =>
          refine Or.inr ⟨rfl, c.before f functions, member (str "select") c.selector.token,
            ?_, ?_, c.before_ne_option f functions⟩
          · simp [hoptions, before, optionMember]
          · simp [before]

/-- The values and names printed as they are, of the command with its options. -/
theorem legal_iff {before : List (Bytes × Json)} {select : Bytes × Json}
    (hentry : c.command.entry = some (.object (before ++ c.optionMember :: [select]))) :
    (Json.object (before ++ c.optionMember :: [select])).All (Json.isNumber · = true) Json.Plain ↔
      c.command.Legal := by
  rw [Command.entry_all (by decide) hentry]
  constructor
  · intro h
    exact ⟨h.1, h.2⟩
  · intro h
    exact ⟨h.values, h.options⟩

theorem filter_option {c : OptionCommand} {before : List (Bytes × Json)} {select : Bytes × Json}
    (hnames : ∀ m ∈ before ++ [select], m.1 ≠ str "option") :
    (before ++ c.optionMember :: [select]).filter (·.1 = str "option") = [c.optionMember] := by
  obtain ⟨hbefore, hselect⟩ := List.forall_mem_append.mp hnames
  have hnone : before.filter (·.1 = str "option") = [] :=
    List.filter_eq_nil_iff.mpr fun m hm => by simpa using hbefore m hm
  have hlast := hselect select List.mem_cons_self
  rw [List.filter_append, hnone, List.nil_append, List.filter_cons_of_pos (by simp [optionMember]),
    List.filter_cons_of_neg (by simpa using hlast), List.filter_nil]

/-- The text of one option is not read as its member unless everything is well written. -/
theorem legal_of_parse (json : Json.Encoder) {indent : Nat} {before members : List (Bytes × Json)}
    {select : Bytes × Json} {options : List (Bytes × Json)} (hlength : c.options.length = 1)
    (hplain : c.plainCommand.entry = some (.object (before ++ [select])))
    (hnumerals : (Json.object (before ++ c.optionMember :: [select])).All Json.Numeral fun _ => True)
    (hparse : Json.parse (Json.write json indent (.object (before ++ c.optionMember :: [select]))) =
      some (.object members))
    (hoption : members.filter (·.1 = str "option") = [(str "option", .object options)])
    (hperm : options.Perm (c.options.map fun o => member o.1 o.2)) :
    (Json.object (before ++ c.optionMember :: [select])).All (Json.isNumber · = true) Json.Plain := by
  obtain ⟨o, ho⟩ := List.length_eq_one_iff.mp hlength
  have hoptions : options = c.options.map fun o => member o.1 o.2 := by
    rw [ho] at hperm ⊢
    exact List.perm_singleton.mp hperm
  have hexpected : ∀ m ∈ members, m.1 = str "option" → m.2 = c.optionMember.2 := by
    intro m hm hname
    have hfilter : m ∈ members.filter (·.1 = str "option") :=
      List.mem_filter.mpr ⟨hm, by simpa using hname⟩
    rw [hoption, List.mem_singleton] at hfilter
    rw [hfilter, hoptions]
    rfl
  have hothers : ∀ m ∈ before ++ [select], Json.Plain m.1 ∧ m.2.All Json.Figures Json.Plain := by
    rw [← Json.all_object, Command.entry_all (by decide) hplain]
    exact ⟨fun val _ hraw => figures_of_printedRaw hraw, fun o ho => absurd ho List.not_mem_nil⟩
  have hall : ∀ m ∈ before ++ c.optionMember :: [select],
      m = (str "option", c.optionMember.2) ∨ Json.Plain m.1 ∧ m.2.All Json.Figures Json.Plain := by
    intro m hm
    rw [List.mem_append, List.mem_cons] at hm
    rcases hm with hbefore | rfl | hselect
    · exact Or.inr (hothers m (List.mem_append_left _ hbefore))
    · exact Or.inl rfl
    · exact Or.inr (hothers m (List.mem_append_right _ hselect))
  exact (Json.all_of_parse_members json indent hnumerals (by decide) hall hparse hexpected).1

/-- What the command does: with one option its entry is printed, with more the program ends. -/
theorem command_eq (json : Json.Encoder) :
    AnaConfig.command json c.state =
      if c.options.length = 1 then
        c.command.entry.map fun v =>
          { src := []
            out := c.out.printInitDelim.printChan
              (Json.write json c.out.printInitDelim.indentstr v) }
      else none := by
  have hread := c.readCommand_eq
  unfold AnaConfig.command OptionCommand.state
  rw [hread]
  by_cases hlength : c.options.length = 1
  · rw [if_pos hlength, if_pos hlength]
    simp only [Option.bind_eq_bind, Option.bind_some, Output.printCommand_eq]
    cases c.command.entry with
    | none => rfl
    | some v => simp [lexerEof, c.eof]
  · rw [if_neg hlength, if_neg hlength]
    rfl

theorem options_ne_nil : c.options ≠ [] := by
  have hwritten := c.written
  intro hnil
  rw [hnil] at hwritten
  cases hwritten

end OptionCommand

/-- A feature with options is converted exactly if it has one option, apart from functions
that are not accepted and from what is printed as it is and may not be. -/
theorem convertsOptions_iff (json : Json.Encoder) (c : OptionCommand) :
    c.ConvertsOptions json ↔
      c.options.length = 1 ∧ c.functionsAccepted = true ∧ c.command.Legal := by
  have hrun := c.command_eq json
  by_cases hlength : c.options.length = 1
  · rw [if_pos hlength] at hrun
    rcases c.entry_command c.options_ne_nil with
      ⟨hnot, hentry⟩ | ⟨haccepted, before, select, hentry, hplain, hnames⟩
    · constructor
      · rintro ⟨entry, members, options, hconvert, -⟩
        rw [hrun, hentry] at hconvert
        cases hconvert
      · rintro ⟨-, haccepted, -⟩
        rw [hnot] at haccepted
        cases haccepted
    · have hnumerals : (Json.object (before ++ c.optionMember :: [select])).All Json.Numeral
          fun _ => True := by
        rw [Command.entry_all (fun _ _ => trivial) hentry]
        exact ⟨fun val _ hraw => numeral_of_printedRaw hraw, fun _ _ => trivial⟩
      rw [hentry] at hrun
      constructor
      · rintro ⟨entry, members, options, hconvert, hparse, hoption, hperm⟩
        rw [hrun] at hconvert
        simp only [Option.map_some, Option.some.injEq, Converter.mk.injEq, true_and] at hconvert
        rw [← printChan_injective _ hconvert] at hparse
        have hlegal := c.legal_of_parse json hlength hplain hnumerals hparse hoption hperm
        exact ⟨hlength, haccepted, (c.legal_iff hentry).mp hlegal⟩
      · rintro ⟨-, -, hlegal⟩
        have hparse := (Json.parse_write_iff json c.out.printInitDelim.indentstr hnumerals).mpr
          ((c.legal_iff hentry).mpr hlegal)
        exact ⟨_, _, _, hrun, hparse, OptionCommand.filter_option hnames, List.Perm.refl _⟩
  · rw [if_neg hlength] at hrun
    constructor
    · rintro ⟨entry, members, options, hconvert, -⟩
      rw [hrun] at hconvert
      cases hconvert
    · rintro ⟨hone, -⟩
      exact absurd hone hlength

/-- `a = 1`. -/
def sampleAssignment : Assignment where
  name :=
    { blanks := [32]
      text := str "a"
      token := str "a"
      blank := by decide
      lexeme := .name (by decide) (by decide) }
  blanks := [32]
  value :=
    { blanks := [32]
      text := str "1"
      token := str "1"
      blank := by decide
      lexeme := .name (by decide) (by decide) }
  blank := by decide
  ends := by decide

/-- One option behind the tokenizer. -/
def sampleCommand : OptionCommand where
  out := start.out
  src := str "word = lc text \x7b a = 1 \x7d /doc"
  head :=
    { name := str "word"
      priority := none
      normalizers := [str "lc"]
      tokenizer := str "text" }
  blanks := [32]
  options := [sampleAssignment.option]
  block := sampleAssignment.written ++ ([32] ++ [closeBrace])
  selector :=
    { blanks := [32]
      text := str "/doc"
      token := str "/doc"
      blank := by decide
      lexeme := .path rfl (by decide) }
  behind := []
  channel := by decide
  read := rfl
  blank := by decide
  written := .last (by decide) (by decide)
  distinct := by decide
  ends := by decide
  eof := rfl

theorem convertsOptions_sample : sampleCommand.ConvertsOptions jsonEncoder := by
  apply (convertsOptions_iff jsonEncoder sampleCommand).mpr
  have hlegal : sampleCommand.command.Legal :=
    { values := by decide
      options := by decide }
  exact ⟨rfl, rfl, hlegal⟩

/-- The second option is not accepted. -/
theorem convert_twoOptions :
    convert jsonEncoder (str "[searchindex]\nword = lc text \x7b a = 1, b = 2 \x7d /doc;\n") = none ∧
      (convert jsonEncoder (str "[searchindex]\nword = lc text \x7b a = 1 \x7d /doc;\n")).isSome := by
  have htwo : commands (str "[searchindex]\nword = lc text \x7b a = 1, b = 2 \x7d /doc;\n") = none := by
    decide
  have hone : (commands (str "[searchindex]\nword = lc text \x7b a = 1 \x7d /doc;\n")).isSome := by
    decide
  constructor
  · rw [convert_eq, htwo]
    rfl
  · rw [convert_eq, Option.isSome_map]
    exact hone

end StrusWebService.AnaConfig
