import StrusWebService.Config.Traverse

/-! # Resolved configurations

A configuration whose strings are templates is resolved by the tree that has, for
every string, the template with each reference replaced by the resolved text it
leads to. Without a cycle of references this tree exists and is the only one, and
it does not depend on the order of the members. The traversal in place computes it
exactly when a string it meets later is referred to only if it has no references
itself, as it reads that string before it is overwritten.
-/

namespace StrusWebService.Config

namespace Value

variable {ν : Type}

/-- The string at position `i` refers to the one at position `j`. -/
def Refers (T : Value Template ν) (i j : Nat) : Prop :=
  ∃ t, T.texts[i]? = some t ∧ ∃ name ∈ t.names, T.position (keysOf name) = some j

def Acyclic (T : Value Template ν) : Prop := ∀ i, ¬Relation.TransGen T.Refers i i

/-- `W` has every reference replaced by the text that `W` itself has there. -/
def Resolved (T : Value Template ν) (W : Value Str ν) : Prop := W = T.map (Template.expand W.get)

/-- A reference to a string that is met later leads to a string without references. -/
def LaterSettled (T : Value Template ν) : Prop :=
  ∀ i j t, T.Refers i j → i < j → T.texts[j]? = some t → t.names = []

/-- References that lead to a lower rank only have no cycle. -/
theorem acyclic_of_rank {T : Value Template ν} (rank : Nat → Nat)
    (h : ∀ p ∈ T.texts.zipIdx, ∀ name ∈ p.1.names,
      (T.position (keysOf name)).all fun j => rank j < rank p.2) : T.Acyclic := by
  have hlower : ∀ i j, T.Refers i j → rank j < rank i := by
    intro i j hrefers
    rcases hrefers with ⟨t, ht, name, hname, hpos⟩
    have hall := h (t, i) (List.mem_zipIdx_iff_getElem?.mpr ht) name hname
    simpa [hpos] using hall
  have hchain : ∀ i j, Relation.TransGen T.Refers i j → rank j < rank i := by
    intro i j hchain
    induction hchain with
    | single hrefers => exact hlower _ _ hrefers
    | tail _ hrefers ih => exact (hlower _ _ hrefers).trans ih
  intro i hcycle
  exact absurd (hchain i i hcycle) (Nat.lt_irrefl _)

/-! ### The resolved tree as the solution of equations -/

/-- The resolved text of a name by the texts of all names. -/
def textOf (T : Value Template ν) (name : Str) (get : Str → Str) : Str :=
  ((T.textAt (keysOf name)).map (Template.expand get)).getD []

/-- The text of a name takes the text of another one over. -/
def Uses (T : Value Template ν) (name used : Str) : Prop :=
  ∃ t, T.textAt (keysOf name) = some t ∧ used ∈ t.names

theorem local_textOf (T : Value Template ν) : InPlace.Local T.Uses T.textOf := by
  intro name get get' h
  unfold textOf
  cases htext : T.textAt (keysOf name) with
  | none => rfl
  | some t => exact t.expand_congr fun used hused => h used ⟨t, htext, hused⟩

theorem get_map_expand (T : Value Template ν) (get : Str → Str) (name : Str) :
    (T.map (Template.expand get)).get name = T.textOf name get := by
  rw [Value.get, textAt_map, textOf]

theorem Resolved.solves {T : Value Template ν} {W : Value Str ν} (h : T.Resolved W) :
    InPlace.Solves T.textOf W.get := by
  intro name
  have hname := get_map_expand T W.get name
  rwa [← h] at hname

theorem resolved_of_solves {T : Value Template ν} {get : Str → Str}
    (h : InPlace.Solves T.textOf get) : T.Resolved (T.map (Template.expand get)) := by
  have hget : (T.map (Template.expand get)).get = get := by
    funext name
    rw [get_map_expand, ← h name]
  rw [Resolved, hget]

theorem wellFounded_refers {T : Value Template ν} (acyclic : T.Acyclic) :
    WellFounded fun j i => T.Refers i j := by
  apply InPlace.wellFounded_of_acyclic (Set.finite_lt_nat T.texts.length)
  · intro j i h
    rcases h with ⟨t, ht, -⟩
    exact (List.getElem?_eq_some_iff.mp ht).1
  · intro i h
    exact acyclic i (Relation.transGen_swap.mp h)

theorem wellFounded_uses {T : Value Template ν} (acyclic : T.Acyclic) :
    WellFounded fun used name => T.Uses name used := by
  have hnone : ∀ name, T.position (keysOf name) = none →
      Acc (fun used name => T.Uses name used) name := by
    intro name hname
    apply Acc.intro
    intro used huses
    rcases huses with ⟨t, ht, -⟩
    rw [textAt_eq, hname] at ht
    nomatch ht
  have hsome : ∀ i name, T.position (keysOf name) = some i →
      Acc (fun used name => T.Uses name used) name := by
    intro i
    induction i using (wellFounded_refers acyclic).induction with
    | h i ih =>
        intro name hname
        apply Acc.intro
        intro used huses
        rcases huses with ⟨t, ht, hused⟩
        rw [textAt_eq, hname, Option.bind_some] at ht
        cases hpos : T.position (keysOf used) with
        | none => exact hnone used hpos
        | some j => exact ih j ⟨t, ht, used, hused, hpos⟩ used hpos
  constructor
  intro name
  cases hpos : T.position (keysOf name) with
  | none => exact hnone name hpos
  | some i => exact hsome i name hpos

theorem existsUnique_resolved {T : Value Template ν} (acyclic : T.Acyclic) :
    ∃! W, T.Resolved W := by
  have hwf := wellFounded_uses acyclic
  obtain ⟨get, hget⟩ := InPlace.exists_solves hwf T.local_textOf
  refine ⟨_, resolved_of_solves hget, ?_⟩
  intro W hW
  have hsame := InPlace.Solves.unique hwf T.local_textOf hW.solves hget
  rw [hW, hsame]

/-- Configurations that differ in the order of the members have resolved trees that do. -/
theorem Resolved.reordered {T T' : Value Template ν} (acyclic : T.Acyclic) {W W' : Value Str ν}
    (h : T.Resolved W) (order : T.Reordered T') (h' : T'.Resolved W') : W.Reordered W' := by
  have hrule : T'.textOf = T.textOf := by
    funext name get
    rw [textOf, textOf, order.textAt_eq]
  have hget : W'.get = W.get := by
    apply InPlace.Solves.unique (wellFounded_uses acyclic) T.local_textOf _ h.solves
    rw [← hrule]
    exact h'.solves
  have hmap := order.map (Template.expand W.get)
  rw [Resolved, hget] at h'
  rw [Resolved] at h
  rwa [← h, ← h'] at hmap

/-! ### No brace remains -/

theorem Resolved.plain_get {T : Value Template ν} (acyclic : T.Acyclic) {W : Value Str ν}
    (h : T.Resolved W) (name : Str) : Plain (W.get name) := by
  induction name using (wellFounded_uses acyclic).induction with
  | h name ih =>
      rw [h.solves name, textOf]
      cases htext : T.textAt (keysOf name) with
      | none => exact Plain.nil
      | some t => exact t.plain_expand fun used hused => ih used ⟨t, htext, hused⟩

theorem Resolved.plain_texts {T : Value Template ν} (acyclic : T.Acyclic) {W : Value Str ν}
    (h : T.Resolved W) : ∀ text ∈ W.texts, Plain text := by
  intro text htext
  rw [h, texts_map] at htext
  obtain ⟨t, -, rfl⟩ := List.mem_map.mp htext
  exact t.plain_expand fun used _ => h.plain_get acyclic used

/-! ### The traversal -/

/-- The strings while the one at position `i` is rewritten. -/
def textsDuring (T : Value Template ν) (V : Value Str ν) (i : Nat) : List Str :=
  V.texts.take i ++ (T.texts.map Template.render).drop i

/-- Each string has been expanded with the strings read as they were at that moment. -/
def ExpandedInTurn (T : Value Template ν) (V : Value Str ν) : Prop :=
  ∀ (i : Nat) (t : Template), T.texts[i]? = some t →
    V.texts[i]? = some (t.expand (T.readAt (T.textsDuring V i)))

theorem exists_configFromParsed (T : Value Template ν) :
    ∃ V, configFromParsed (T.map Template.render) = some V ∧ V.shape = T.shape ∧
      T.ExpandedInTurn V := by
  have houtcome := subst_outcome T.readAt [] [] (T.map Template.render) id fun w hw => by
    rw [id, get_eq_readAt (hw.trans (shape_map _ T)), List.nil_append, List.append_nil]
  have htotal : ∀ text ∈ (T.map Template.render).texts, ∀ all,
      (Config.substConfigReferenceVariables (T.readAt (all ++ [])) text).isSome := by
    intro text htext all
    rw [texts_map] at htext
    obtain ⟨t, -, rfl⟩ := List.mem_map.mp htext
    rw [t.substConfigReferenceVariables_render]
    rfl
  obtain ⟨result, hpass⟩ := InPlace.exists_pass_eq_some htotal []
  rw [passOver, hpass, Option.map_some] at houtcome
  obtain ⟨V, hV, hobserved⟩ := Option.map_eq_some_iff.mp houtcome
  obtain ⟨hshape, hresult⟩ := Prod.mk.inj hobserved
  obtain ⟨written, hwritten, -, heach⟩ := InPlace.pass_eq_some_iff.mp hpass
  obtain rfl : V.texts = written := hresult.trans hwritten
  refine ⟨V, hV, hshape.trans (shape_map _ T), ?_⟩
  intro i t ht
  obtain ⟨hi, hti⟩ := List.getElem?_eq_some_iff.mp ht
  have hturn := heach i (by simpa [texts_map] using hi)
  simp only [texts_map, List.getElem_map, hti, t.substConfigReferenceVariables_render,
    List.nil_append, List.append_nil] at hturn
  exact hturn.symm

/-- Before position `i` the new strings are read. -/
theorem getElem?_textsDuring_of_lt {T : Value Template ν} {V : Value Str ν}
    (hshape : V.shape = T.shape) {i j : Nat} (hi : i < T.texts.length) (h : j < i) :
    (T.textsDuring V i)[j]? = V.texts[j]? := by
  have hlength := length_texts_of_shape hshape
  rw [textsDuring, List.getElem?_append_left (by rw [List.length_take]; omega),
    List.getElem?_take_of_lt h]

/-- From position `i` on the old strings are read. -/
theorem getElem?_textsDuring_of_le {T : Value Template ν} {V : Value Str ν}
    (hshape : V.shape = T.shape) {i j : Nat} (hi : i < T.texts.length) (h : i ≤ j) :
    (T.textsDuring V i)[j]? = (T.texts[j]?).map Template.render := by
  have hlength := length_texts_of_shape hshape
  have htake : (V.texts.take i).length = i := by rw [List.length_take]; omega
  rw [textsDuring, List.getElem?_append_right (by omega), htake, List.getElem?_drop,
    Nat.add_sub_cancel' h, List.getElem?_map]

theorem Resolved.getElem?_texts {T : Value Template ν} {W : Value Str ν} (h : T.Resolved W)
    (i : Nat) : W.texts[i]? = (T.texts[i]?).map (Template.expand W.get) := by
  have htexts : W.texts = T.texts.map (Template.expand W.get) := by
    rw [← texts_map, ← h]
  rw [htexts, List.getElem?_map]

theorem Resolved.shape_eq {T : Value Template ν} {W : Value Str ν} (h : T.Resolved W) :
    W.shape = T.shape := by
  rw [h, shape_map]

/-- With every later string settled, each string gets its resolved text in its turn. -/
theorem texts_eq_of_laterSettled {T : Value Template ν} (acyclic : T.Acyclic)
    (settled : T.LaterSettled) {V W : Value Str ν} (h : T.Resolved W) (hshape : V.shape = T.shape)
    (hturn : T.ExpandedInTurn V) (i : Nat) :
    V.texts[i]? = W.texts[i]? := by
  induction i using Nat.strong_induction_on with
  | _ i ih =>
      rw [h.getElem?_texts]
      cases ht : T.texts[i]? with
      | none =>
          have hlength := length_texts_of_shape hshape
          rw [List.getElem?_eq_none_iff] at ht
          exact List.getElem?_eq_none_iff.mpr (by omega)
      | some t =>
          have hi := (List.getElem?_eq_some_iff.mp ht).1
          rw [hturn i t ht, Option.map_some]
          apply congrArg some
          apply t.expand_congr
          intro name hname
          rw [get_eq_readAt h.shape_eq, readAt, readAt]
          cases hpos : T.position (keysOf name) with
          | none => rfl
          | some j =>
              have hrefers : T.Refers i j := ⟨t, ht, name, hname, hpos⟩
              have hsame : (T.textsDuring V i)[j]? = W.texts[j]? := by
                by_cases hlt : j < i
                · rw [getElem?_textsDuring_of_lt hshape hi hlt, ih j hlt]
                · have hne : i ≠ j := by
                    intro heq
                    subst heq
                    exact acyclic i (Relation.TransGen.single hrefers)
                  rw [getElem?_textsDuring_of_le hshape hi (by omega), h.getElem?_texts]
                  cases hu : T.texts[j]? with
                  | none => rfl
                  | some u =>
                      have hnames := settled i j u hrefers (by omega) hu
                      exact congrArg some (Template.expand_eq_render hnames _).symm
              rw [Option.bind_some, Option.bind_some, hsame]

/-- A later string with references is copied with its braces. -/
theorem laterSettled_of_resolved {T : Value Template ν} (acyclic : T.Acyclic) {V : Value Str ν}
    (h : T.Resolved V) (hturn : T.ExpandedInTurn V) : T.LaterSettled := by
  intro i j u hrefers hlt hu
  rcases hrefers with ⟨t, ht, name, hname, hpos⟩
  by_contra hnames
  have hi := (List.getElem?_eq_some_iff.mp ht).1
  have hread : T.readAt (T.textsDuring V i) name = u.render := by
    rw [readAt, hpos, Option.bind_some, getElem?_textsDuring_of_le h.shape_eq hi hlt.le, hu]
    rfl
  have hcopied : braceOpen ∈ t.expand (T.readAt (T.textsDuring V i)) := by
    apply t.mem_expand hname
    rw [hread]
    exact Template.braceOpen_mem_render hnames
  have hplain := h.plain_texts acyclic _ (List.mem_of_getElem? (hturn i t ht))
  exact (hplain braceOpen hcopied).2.1 rfl

theorem configFromParsed_eq_iff {T : Value Template ν} (acyclic : T.Acyclic) {W : Value Str ν}
    (h : T.Resolved W) :
    configFromParsed (T.map Template.render) = some W ↔ T.LaterSettled := by
  obtain ⟨V, hV, hshape, hturn⟩ := exists_configFromParsed T
  rw [hV, Option.some_inj]
  constructor
  · intro heq
    subst heq
    exact laterSettled_of_resolved acyclic h hturn
  · intro settled
    apply ext_texts V W (hshape.trans h.shape_eq.symm)
    exact List.ext_getElem? (texts_eq_of_laterSettled acyclic settled h hshape hturn)

/-- A configuration without a cycle of references has exactly one resolved tree. It
has no braces, it is the same up to the order of the members however they are
ordered, and it is what the traversal leaves exactly when no string refers to a
later one that has references itself. -/
theorem configFromParsed_resolves (T : Value Template ν) (acyclic : T.Acyclic) :
    (∃! W, T.Resolved W) ∧
      ∀ W, T.Resolved W →
        (∀ text ∈ W.texts, Plain text) ∧
        (∀ T' W', T.Reordered T' → T'.Resolved W' → W.Reordered W') ∧
        (configFromParsed (T.map Template.render) = some W ↔ T.LaterSettled) := by
  refine ⟨existsUnique_resolved acyclic, fun W h => ⟨h.plain_texts acyclic, ?_, ?_⟩⟩
  · intro T' W' order h'
    exact h.reordered acyclic order h'
  · exact configFromParsed_eq_iff acyclic h

/-- `{"d":{"f":"{l.d}/r"}, "l":{"d":"/l"}}`, with the references of the shipped
configuration: from a string to one that is met later and has no references. -/
def shipped : Value Template Unit :=
  object
    [([100], object [([102], string ⟨[.reference [] [108, 46, 100] [], .text [47, 114]], by decide⟩)]),
      ([108], object [([100], string ⟨[.text [47, 108]], by decide⟩)])]

theorem shipped_acyclic : shipped.Acyclic := by
  apply acyclic_of_rank fun i => 1 - i
  decide

def shippedResolved : Value Str Unit :=
  object
    [([100], object [([102], string [47, 108, 47, 114])]),
      ([108], object [([100], string [47, 108])])]

theorem configFromParsed_shipped :
    configFromParsed (shipped.map Template.render) = some shippedResolved := by
  have hresolved : shipped.Resolved shippedResolved := rfl
  apply ((configFromParsed_resolves shipped shipped_acyclic).2 _ hresolved).2.2.mpr
  intro i j t hrefers hlt ht
  have hj : j = 1 := by
    have hbound := (List.getElem?_eq_some_iff.mp ht).1
    change j < 2 at hbound
    omega
  subst hj
  cases ht
  rfl

/-! ### A chain of references -/

def threeMembers {σ : Type} (a b c : σ) : Value σ Unit :=
  object [([97], string a), ([98], string b), ([99], string c)]

/-- `{"a":"{b}", "b":"{c}", "c":"x"}`: each member refers to the next one. -/
def chained : Value Template Unit :=
  threeMembers ⟨[.reference [] [98] []], by decide⟩ ⟨[.reference [] [99] []], by decide⟩
    ⟨[.text [120]], by decide⟩

theorem chained_acyclic : chained.Acyclic := by
  apply acyclic_of_rank fun i => 3 - i
  decide

/-- The first member is left with the reference of the second one. -/
theorem configFromParsed_chained :
    chained.Acyclic ∧ chained.Resolved (threeMembers [120] [120] [120]) ∧
      configFromParsed (chained.map Template.render) =
        some (threeMembers [123, 99, 125] [120] [120]) ∧
      (threeMembers [123, 99, 125] [120] [120] : Value Str Unit) ≠
        threeMembers [120] [120] [120] := by
  refine ⟨chained_acyclic, rfl, rfl, ?_⟩
  intro h
  have htexts := congrArg texts h
  revert htexts
  decide

end Value

end StrusWebService.Config
