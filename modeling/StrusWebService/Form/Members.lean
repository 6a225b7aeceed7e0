import StrusWebService.Form.Groups
import StrusWebService.Form.Encoding
import Mathlib.Data.List.Dedup

/-! # The members of a form

A form is a multimap in key order. Its groups are its distinct keys with their
values, `membersOf` are the members that stand for them. What is written for every
value stands in the text, and only the empty value is written as it is.
-/

namespace StrusWebService.Form

open Json (comma quoted mem_intercalate)

/-- `cppcms::http::request::form_type`, a `std::multimap`: its entries in key order. -/
structure FormType where
  entries : List Entry
  ordered : (entries.map Prod.fst).Pairwise (· ≤ ·)

/-- The values of a key, in order. -/
def valuesOf (form : List Entry) (key : Bytes) : List Bytes :=
  (form.filter (·.1 == key)).map Prod.snd

/-- The value of a key that occurs once, and the array of its values otherwise. -/
def valueOf : List Bytes → Json
  | [value] => .string value
  | values => .array (values.map .string)

/-- One member for each distinct key. -/
def membersOf (form : List Entry) : List (Bytes × Json) :=
  (form.map Prod.fst).dedup.map fun key => (key, valueOf (valuesOf form key))

/-! ### Groups and members -/

theorem valuesOf_cons_of_ne {e : Entry} {key : Bytes} (h : e.1 ≠ key) (form : List Entry) :
    valuesOf (e :: form) key = valuesOf form key := by
  simp [valuesOf, h]

theorem valuesOf_cons_self (e : Entry) (form : List Entry) :
    valuesOf (e :: form) e.1 = e.2 :: valuesOf form e.1 := by
  simp [valuesOf]

theorem valuesOf_of_notMem {form : List Entry} {key : Bytes} (h : key ∉ form.map Prod.fst) :
    valuesOf form key = [] := by
  rw [valuesOf, List.map_eq_nil_iff, List.filter_eq_nil_iff]
  intro e he heq
  apply h
  rw [← eq_of_beq heq]
  exact List.mem_map_of_mem he

/-- An entry does not change the values of the other keys. -/
theorem map_valuesOf_cons {e : Entry} {keys : List Bytes} (h : e.1 ∉ keys) (form : List Entry) :
    keys.map (fun key => (key, valuesOf (e :: form) key)) = keys.map fun key => (key, valuesOf form key) := by
  apply List.map_congr_left
  intro key hkey
  have hne : e.1 ≠ key := by
    rintro rfl
    exact h hkey
  rw [valuesOf_cons_of_ne hne]

/-- The key of an entry that is found behind it is that of the next entry. -/
theorem next_of_ordered {e e' : Entry} {form : List Entry}
    (ordered : ((e :: e' :: form).map Prod.fst).Pairwise (· ≤ ·))
    (hmem : e.1 ∈ (e' :: form).map Prod.fst) : e'.1 = e.1 := by
  have hkeys := List.pairwise_cons.mp ordered
  apply List.le_antisymm
  · rcases List.mem_cons.mp hmem with heq | hbehind
    · rw [heq]
      exact List.le_refl _
    · exact (List.pairwise_cons.mp hkeys.2).1 e.1 hbehind
  · exact hkeys.1 e'.1 List.mem_cons_self

theorem groups_eq {form : List Entry} (ordered : (form.map Prod.fst).Pairwise (· ≤ ·)) :
    groups form = (form.map Prod.fst).dedup.map fun key => (key, valuesOf form key) := by
  induction form with
  | nil => rfl
  | cons e form ih =>
      have hform := ih (List.pairwise_cons.mp ordered).2
      rw [groups, List.map_cons]
      by_cases hmem : e.1 ∈ form.map Prod.fst
      · rw [List.dedup_cons_of_mem hmem]
        cases form with
        | nil => cases hmem
        | cons e' form =>
            -- the key stands among the keys behind, so it is the first of them
            have hkey : e'.1 = e.1 := next_of_ordered ordered hmem
            have hnodup := List.nodup_dedup ((e' :: form).map Prod.fst)
            rw [groups_cons] at hform ⊢
            cases hkeys : ((e' :: form).map Prod.fst).dedup with
            | nil =>
                rw [hkeys] at hform
                cases hform
            | cons key keys =>
                rw [hkeys, List.map_cons] at hform
                rw [hkeys] at hnodup
                obtain ⟨hhead, htail⟩ := List.cons.inj hform
                obtain ⟨hfirst, hvalues⟩ := Prod.mk.inj hhead
                have hkey' : e.1 = key := hkey.symm.trans hfirst
                have hnone : e.1 ∉ keys := hkey' ▸ (List.nodup_cons.mp hnodup).1
                rw [htail, hvalues, List.map_cons, map_valuesOf_cons hnone]
                dsimp only
                rw [if_pos hkey, ← hkey', valuesOf_cons_self]
      · rw [List.dedup_cons_of_notMem hmem, List.map_cons, valuesOf_cons_self, valuesOf_of_notMem hmem,
          map_valuesOf_cons (fun h => hmem (List.mem_dedup.mp h)), ← hform]
        cases form with
        | nil => rfl
        | cons e' form =>
            have hne : e'.1 ≠ e.1 := by
              intro heq
              apply hmem
              rw [← heq]
              exact List.mem_cons_self
            rw [groups_cons]
            exact if_neg hne

theorem membersOf_eq (form : FormType) :
    membersOf form.entries = (groups form.entries).map fun g => (g.1, valueOf g.2) := by
  rw [groups_eq form.ordered, List.map_map]
  rfl

theorem mem_groups_iff (form : FormType) (e : Entry) :
    e ∈ form.entries ↔ ∃ g ∈ groups form.entries, g.1 = e.1 ∧ e.2 ∈ g.2 := by
  rw [groups_eq form.ordered]
  constructor
  · intro he
    refine ⟨(e.1, valuesOf form.entries e.1), ?_, rfl, ?_⟩
    · exact List.mem_map_of_mem (List.mem_dedup.mpr (List.mem_map_of_mem he))
    · exact List.mem_map_of_mem (List.mem_filter.mpr ⟨he, beq_self_eq_true _⟩)
  · intro h
    rcases h with ⟨g, hg, hkey, hvalue⟩
    obtain ⟨key, -, rfl⟩ := List.mem_map.mp hg
    obtain ⟨e', he', hsame⟩ := List.mem_map.mp hvalue
    obtain ⟨hmem, heq⟩ := List.mem_filter.mp he'
    have hpair : e' = e := Prod.ext ((eq_of_beq heq).trans hkey) hsame
    rwa [← hpair]

/-! ### The values -/

theorem exists_mem_of_forall₂ {α β : Type} {r : α → β → Prop} {as : List α} {bs : List β}
    (h : List.Forall₂ r as bs) {a : α} (ha : a ∈ as) : ∃ b ∈ bs, r a b := by
  induction h with
  | nil => nomatch ha
  | cons hr _ ih =>
      cases List.mem_cons.mp ha with
      | inl heq => exact ⟨_, List.mem_cons_self, heq ▸ hr⟩
      | inr hmem =>
          obtain ⟨b, hb, hab⟩ := ih hmem
          exact ⟨b, List.mem_cons_of_mem _ hb, hab⟩

theorem mem_valuesText {c : UInt8} {value : Bytes} {values : List Bytes} (hvalue : value ∈ values)
    (hc : c ∈ value) : c ∈ valuesText values := by
  have hquoted : c ∈ quoted value := List.mem_cons_of_mem _ (List.mem_append_left _ hc)
  match values, hvalue with
  | [_], hvalue =>
      rw [List.mem_singleton] at hvalue
      rwa [valuesText, ← hvalue]
  | _ :: _ :: _, hvalue =>
      rw [valuesText_of_two (by simp)]
      apply List.mem_append_left
      apply List.mem_append_right
      exact mem_intercalate (List.mem_map_of_mem hvalue) hquoted

/-- What is written for a value stands in the text. -/
theorem exists_encoded {enc : Bytes → Option Bytes} {form : FormType} {text : Bytes}
    (htext : formToJson enc form.entries = some text) {e : Entry} (he : e ∈ form.entries) :
    ∃ encoded, enc e.2 = some encoded ∧ ∀ c ∈ encoded, c ∈ text := by
  rw [formToJson_eq] at htext
  obtain ⟨pieces, hpieces, rfl⟩ := Option.map_eq_some_iff.mp htext
  obtain ⟨g, hg, -, hvalue⟩ := (mem_groups_iff form e).mp he
  obtain ⟨piece, hpiece, hgroup⟩ := exists_mem_of_forall₂ (mapM_eq_some_iff.mp hpieces) hg
  obtain ⟨values, hvalues, rfl⟩ := Option.map_eq_some_iff.mp hgroup
  obtain ⟨encoded, hencoded, henc⟩ := exists_mem_of_forall₂ (mapM_eq_some_iff.mp hvalues) hvalue
  refine ⟨encoded, henc, ?_⟩
  intro c hc
  apply List.mem_append_left
  apply List.mem_append_right
  apply mem_intercalate hpiece
  exact List.mem_append_right _ (mem_valuesText hencoded hc)

/-- The text when every value is written as it is. -/
def formText (gs : List (Bytes × List Bytes)) : Bytes :=
  header ++ List.intercalate [comma] (gs.map fun g => groupText g.1 g.2) ++ trailer

theorem formToJson_of_encoded {enc : Bytes → Option Bytes} {form : FormType}
    (h : ∀ e ∈ form.entries, enc e.2 = some e.2) :
    formToJson enc form.entries = some (formText (groups form.entries)) := by
  have hgroups : (groups form.entries).mapM (groupText? enc) =
      some ((groups form.entries).map fun g => groupText g.1 g.2) := by
    rw [mapM_eq_some_iff, List.forall₂_map_right_iff, List.forall₂_same]
    intro g hg
    have hvalues : g.2.mapM enc = some g.2 := by
      rw [mapM_eq_some_iff, List.forall₂_same]
      intro value hvalue
      exact h (g.1, value) ((mem_groups_iff form _).mpr ⟨g, hg, rfl, hvalue⟩)
    rw [groupText?, hvalues]
    rfl
  rw [formToJson_eq, hgroups]
  rfl

end StrusWebService.Form
