import StrusWebService.AnaConfig.Printing

/-! # The values of a command

What the object of a command consists of: an object whose names are fixed, except for
those of options, and whose values are printed as numbers where they look like one.
-/

namespace StrusWebService.AnaConfig

open Text (str)

/-- `VALUE` prints the value as it is. -/
def printedRaw (val : Bytes) : Bool := isInteger val || isDecimal val

theorem isScalarByte_of_isDigit {c : UInt8}
    (h : Text.isDigit c = true) : Json.isScalarByte c = true := by
  simp [Json.isScalarByte, h]

/-- What looks like a number consists of digits, a sign and a point. -/
theorem bytes_of_printedRaw {val : Bytes} (h : printedRaw val = true) :
    val ≠ [] ∧ ∀ c ∈ val, Text.isDigit c = true ∨ c = 45 ∨ c = 46 := by
  have hunsigned : ∀ unsigned : Bytes, unsigned = (if val.head? = some 45 then val.tail else val) →
      (unsigned ≠ [] ∧ ∀ c ∈ unsigned, Text.isDigit c = true ∨ c = 46) →
      val ≠ [] ∧ ∀ c ∈ val, Text.isDigit c = true ∨ c = 45 ∨ c = 46 := by
    rintro unsigned heq ⟨hne, hall⟩
    cases val with
    | nil =>
        rw [heq] at hne
        exact absurd rfl hne
    | cons c val =>
        refine ⟨List.cons_ne_nil c val, ?_⟩
        split at heq
        · rename_i hc
          cases hc
          rw [heq] at hall
          exact List.forall_mem_cons.mpr ⟨Or.inr (Or.inl rfl), fun d hd => (hall d hd).imp_right Or.inr⟩
        · rw [heq] at hall
          exact fun d hd => (hall d hd).imp_right Or.inr
  apply hunsigned _ rfl
  rw [printedRaw, Bool.or_eq_true] at h
  cases h with
  | inl hinteger =>
      simp only [isInteger, Bool.and_eq_true, decide_eq_true_eq] at hinteger
      exact ⟨hinteger.1, fun c hc => Or.inl (List.all_eq_true.mp hinteger.2 c hc)⟩
  | inr hdecimal =>
      simp only [isDecimal, Bool.and_eq_true, decide_eq_true_eq] at hdecimal
      rcases hdecimal with ⟨⟨⟨hdigits, hpoint⟩, -⟩, hfraction⟩
      generalize (if val.head? = some 45 then val.tail else val) = unsigned at *
      constructor
      · intro hnil
        rw [hnil] at hdigits
        exact hdigits rfl
      · intro c hc
        rw [← List.takeWhile_append_dropWhile (p := Text.isDigit) (l := unsigned),
          List.mem_append] at hc
        cases hc with
        | inl hmem => exact Or.inl (List.mem_takeWhile_imp hmem)
        | inr hmem =>
            cases hbehind : unsigned.dropWhile Text.isDigit with
            | nil =>
                rw [hbehind] at hmem
                nomatch hmem
            | cons d fraction =>
                rw [hbehind] at hmem hpoint hfraction
                cases hpoint
                cases List.mem_cons.mp hmem with
                | inl heq => exact Or.inr heq
                | inr hmem => exact Or.inl (List.all_eq_true.mp hfraction c hmem)

theorem numeral_of_printedRaw {val : Bytes} (h : printedRaw val = true) : Json.Numeral val := by
  obtain ⟨hne, hbytes⟩ := bytes_of_printedRaw h
  refine ⟨hne, ?_⟩
  intro c hc
  rcases hbytes c hc with hdigit | rfl | rfl
  · exact isScalarByte_of_isDigit hdigit
  · rfl
  · rfl

theorem printedRaw_noBreak {val : Bytes} (h : printedRaw val = true) : 10 ∉ val := by
  intro hmem
  exact absurd ((numeral_of_printedRaw h).2 10 hmem) (by decide)

def functionValues (src : Bytes) : List Bytes :=
  match defFunction src with
  | some (nam, arg) => nam :: arg
  | none => []

def aggregatorValues : Option (Bytes × Option (List Bytes)) → List Bytes
  | some (funcname, arg) => funcname :: arg.getD []
  | none => []

/-- What `VALUE` is called with for a command. -/
def Command.values : Command → List Bytes
  | .feature name priority normalizers tokenizer options expression =>
      name :: (functionValues tokenizer ++ normalizers.flatMap functionValues ++ priority.toList ++
        options.map (·.2) ++ [expression])
  | .aggregator name function => name :: aggregatorValues (aggregatorFunction function)
  | .content documentClass expression =>
      let parameters := documentClassOf documentClass
      expression :: (parameters.mimetype.toList ++ parameters.encoding.toList ++
        parameters.schema.toList)
  | .document name expression => [name, expression]
  | .field name scopeexpr selectexpr idexpr =>
      [name, scopeexpr, selectexpr] ++ if idexpr ≠ [] then [idexpr] else []
  | .structure name headername contentname classname => [name, headername, contentname, classname]

/-- The names of members that do not come from the input. -/
def tags : List Bytes :=
  [str "docanalyzer", str "class", str "mimetype", str "content", str "document",
    str "feature", str "forward", str "search", str "attribute", str "aggregator",
    str "metadata", str "lexem", str "field", str "structure", str "ALL", str "type", str "tokenizer",
    str "normalizer", str "priority", str "option", str "select", str "name", str "arg",
    str "function", str "mime", str "encoding", str "schema", str "scope", str "key",
    str "header"]

theorem Command.entry_object {c : Command} {v : Json} (h : c.entry = some v) :
    ∃ members, v = .object members := by
  cases c with
  | feature name priority normalizers tokenizer options expression =>
      obtain ⟨f, -, hmore⟩ := Option.bind_eq_some_iff.mp h
      obtain ⟨functions, -, heq⟩ := Option.bind_eq_some_iff.mp hmore
      cases heq
      exact ⟨_, rfl⟩
  | content documentClass expression =>
      obtain ⟨mimetype, -, heq⟩ := Option.bind_eq_some_iff.mp h
      cases heq
      exact ⟨_, rfl⟩
  | aggregator | document | field | «structure» =>
      cases h
      exact ⟨_, rfl⟩

section All

variable {p q : Bytes → Prop}

theorem valueOf_all (val : Bytes) : (valueOf val).All p q ↔ (printedRaw val = true → p val) := by
  unfold valueOf printedRaw
  split
  · rename_i hraw
    simp [Json.All, hraw]
  · rename_i hraw
    simp [Json.All, hraw]

theorem array_all (vals : List Bytes) :
    (Json.array (vals.map valueOf)).All p q ↔ ∀ val ∈ vals, printedRaw val = true → p val := by
  rw [Json.all_array, List.forall_mem_map]
  exact forall₂_congr fun val _ => valueOf_all val

variable (htags : ∀ tag ∈ tags, q tag)

include htags

theorem functionOf_all (nam : Bytes) (arg : List Bytes) :
    (functionOf nam arg).All p q ↔ ∀ val ∈ nam :: arg, printedRaw val = true → p val := by
  have hname : q (str "name") := htags _ (by simp [tags])
  have harg : q (str "arg") := htags _ (by simp [tags])
  rw [functionOf, Json.all_object, List.forall_mem_cons, List.forall_mem_cons, valueOf_all]
  split
  · rw [List.forall_mem_singleton, array_all]
    simp only [hname, harg, true_and]
  · rename_i hnil
    rw [not_not] at hnil
    simp only [hname, true_and, hnil, List.not_mem_nil, false_imp_iff, implies_true]

theorem aggregatorOf_all (function : Option (Bytes × Option (List Bytes))) :
    (aggregatorOf function).All p q ↔
      ∀ val ∈ aggregatorValues function, printedRaw val = true → p val := by
  have hname : q (str "name") := htags _ (by simp [tags])
  have harg : q (str "arg") := htags _ (by simp [tags])
  match function with
  | some (funcname, some arg) =>
      rw [aggregatorOf, Json.all_object, List.forall_mem_cons, List.forall_mem_singleton, valueOf_all,
        array_all, aggregatorValues, Option.getD_some, List.forall_mem_cons]
      simp only [hname, harg, true_and]
  | some (funcname, none) =>
      rw [aggregatorOf, Json.all_object, List.forall_mem_singleton, valueOf_all, aggregatorValues,
        Option.getD_none, List.forall_mem_singleton]
      simp only [hname, true_and]
  | none => simp [aggregatorOf, aggregatorValues, Json.all_object]

theorem member_all {tagname : Bytes} (htag : tagname ∈ tags) (val : Bytes) :
    (q (member tagname val).1 ∧ (member tagname val).2.All p q) ↔ (printedRaw val = true → p val) := by
  have hq : q (member tagname val).1 := htags tagname htag
  have hval : (member tagname val).2.All p q ↔ (printedRaw val = true → p val) := valueOf_all val
  simp only [hq, hval, true_and]

theorem member?_all {tagname : Bytes} (htag : tagname ∈ tags) (val : Option Bytes) :
    (∀ m ∈ member? tagname val, q m.1 ∧ m.2.All p q) ↔
      ∀ val' ∈ val.toList, printedRaw val' = true → p val' := by
  cases val with
  | none => simp [member?]
  | some val => simpa [member?] using member_all htags htag val

omit htags in
theorem options_all (options : List (Bytes × Bytes)) :
    (∀ m ∈ options.map fun o => member o.1 o.2, q m.1 ∧ m.2.All p q) ↔
      (∀ val ∈ options.map (·.2), printedRaw val = true → p val) ∧ ∀ o ∈ options, q o.1 := by
  rw [List.forall_mem_map, List.forall_mem_map]
  simp only [member, valueOf_all]
  constructor
  · intro h
    exact ⟨fun o ho => (h o ho).2, fun o ho => (h o ho).1⟩
  · intro h o ho
    exact ⟨h.2 o ho, h.1 o ho⟩

theorem functions_all {normalizers : List Bytes} {functions : List (Bytes × List Bytes)}
    (h : normalizers.mapM defFunction = some functions) :
    (Json.array (functions.map fun f => functionOf f.1 f.2)).All p q ↔
      ∀ val ∈ normalizers.flatMap functionValues, printedRaw val = true → p val := by
  rw [Json.all_array]
  induction normalizers generalizing functions with
  | nil =>
      cases h
      simp
  | cons normalizer normalizers ih =>
      rw [List.mapM_cons] at h
      obtain ⟨f, hf, hmore⟩ := Option.bind_eq_some_iff.mp h
      obtain ⟨functions', hfunctions, heq⟩ := Option.bind_eq_some_iff.mp hmore
      cases heq
      have hvalues : functionValues normalizer = f.1 :: f.2 := by rw [functionValues, hf]
      rw [List.map_cons, List.forall_mem_cons, ih hfunctions, functionOf_all htags, List.flatMap_cons,
        List.forall_mem_append, hvalues]

theorem option_all {options : List (Bytes × Bytes)} :
    (∀ m ∈ (if options ≠ [] then
      [(str "option", Json.object (options.map fun o => member o.1 o.2))] else []), q m.1 ∧ m.2.All p q) ↔
      (∀ val ∈ options.map (·.2), printedRaw val = true → p val) ∧ ∀ o ∈ options, q o.1 := by
  split
  · rw [List.forall_mem_singleton, Json.all_object, options_all]
    simp only [htags (str "option") (by simp [tags]), true_and]
  · rename_i hnil
    rw [not_not] at hnil
    simp [hnil]

/-- What holds of the numbers and of the names in the object of a command. -/
theorem Command.entry_all {c : Command} {v : Json} (h : c.entry = some v) :
    v.All p q ↔ (∀ val ∈ c.values, printedRaw val = true → p val) ∧ ∀ o ∈ c.options, q o.1 := by
  cases c with
  | feature name priority normalizers tokenizer options expression =>
      obtain ⟨f, hf, hmore⟩ := Option.bind_eq_some_iff.mp h
      obtain ⟨functions, hfunctions, heq⟩ := Option.bind_eq_some_iff.mp hmore
      cases heq
      have hvalues : functionValues tokenizer = f.1 :: f.2 := by rw [functionValues, hf]
      have htokenizer : q (str "tokenizer") := htags _ (by simp [tags])
      have hnormalizer : q (str "normalizer") := htags _ (by simp [tags])
      rw [Json.all_object, List.forall_mem_append, List.forall_mem_append, List.forall_mem_append,
        List.forall_mem_cons, List.forall_mem_cons, List.forall_mem_singleton,
        List.forall_mem_singleton, option_all htags, member_all htags (by simp [tags]),
        member_all htags (by simp [tags]), member?_all htags (by simp [tags]),
        functionOf_all htags, functions_all htags hfunctions, Command.values, hvalues]
      simp only [htokenizer, hnormalizer, true_and, Command.options, List.forall_mem_cons,
        List.forall_mem_append]
      tauto
  | aggregator name function =>
      cases h
      have hfunction : q (str "function") := htags _ (by simp [tags])
      rw [Json.all_object, List.forall_mem_cons, List.forall_mem_singleton,
        member_all htags (by simp [tags]), aggregatorOf_all htags, Command.values,
        List.forall_mem_cons]
      simp only [hfunction, true_and, Command.options, List.not_mem_nil, false_imp_iff, implies_true,
        and_true]
  | content documentClass expression =>
      obtain ⟨mimetype, hmimetype, heq⟩ := Option.bind_eq_some_iff.mp h
      cases heq
      rw [Json.all_object, List.forall_mem_append, List.forall_mem_append, List.forall_mem_cons,
        List.forall_mem_singleton, member_all htags (by simp [tags]), member_all htags (by simp [tags]),
        member?_all htags (by simp [tags]), member?_all htags (by simp [tags]), Command.values,
        hmimetype]
      simp only [Command.options, List.not_mem_nil, false_imp_iff, implies_true, and_true,
        List.forall_mem_cons, List.forall_mem_append, Option.toList_some, and_assoc]
  | document name expression =>
      cases h
      rw [Json.all_object, List.forall_mem_cons, List.forall_mem_singleton,
        member_all htags (by simp [tags]), member_all htags (by simp [tags]), Command.values]
      simp only [Command.options, List.not_mem_nil, false_imp_iff, implies_true, and_true,
        List.forall_mem_cons]
  | field name scopeexpr selectexpr idexpr =>
      cases h
      rw [Json.all_object, List.forall_mem_append, List.forall_mem_cons, List.forall_mem_cons,
        List.forall_mem_singleton, member_all htags (by simp [tags]), member_all htags (by simp [tags]),
        member_all htags (by simp [tags]), Command.values]
      split
      · rw [List.forall_mem_singleton, member_all htags (by simp [tags])]
        simp only [Command.options, List.not_mem_nil, false_imp_iff, implies_true, and_true,
          List.forall_mem_cons, List.forall_mem_append]
      · simp only [Command.options, List.not_mem_nil, false_imp_iff, implies_true, and_true,
          List.forall_mem_cons, List.forall_mem_append]
  | «structure» name headername contentname classname =>
      cases h
      rw [Json.all_object, List.forall_mem_cons, List.forall_mem_cons, List.forall_mem_cons,
        List.forall_mem_singleton, member_all htags (by simp [tags]), member_all htags (by simp [tags]),
        member_all htags (by simp [tags]), member_all htags (by simp [tags]), Command.values]
      simp only [Command.options, List.not_mem_nil, false_imp_iff, implies_true, and_true,
        List.forall_mem_cons]

end All

end StrusWebService.AnaConfig
