import StrusWebService.Form.Members

/-! # Parameters and the text decoded

`FormType.Decodes` states that the text written for the parameters is accepted by
a JSON parser and gives exactly their members back. It holds of the forms without
values whose keys need no escape, and of no others: the keys are copied as they
are, and what is written for a value that is not empty is never that value.
-/

namespace StrusWebService.Form

open Json (quote comma openBracket closeBracket openBrace closeBrace quoted weight Plain
  weight_intercalate weight_flatten weight_quoted)
open Text (colon)

/-- The key `get` of the object that is written. -/
def getKey : Bytes := [103, 101, 116]

/-- The text written for the form is accepted and decodes to its members. -/
def FormType.Decodes (form : FormType) : Prop :=
  ∃ text members, formToJson jsonValueEncode form.entries = some text ∧
    Json.parse text = some (.object [(getKey, .object members)]) ∧
    members.Perm (membersOf form.entries)

/-- No value is given, and no key needs an escape. -/
def FormType.Bare (form : FormType) : Prop :=
  ∀ e ∈ form.entries, e.2 = [] ∧ Plain e.1

/-! ### From the members to the condition -/

theorem weight_valuesText (values : List Bytes) : weight (valuesText values) = weight values.flatten := by
  match values with
  | [] => rfl
  | [value] => rw [valuesText, weight_quoted, List.flatten_singleton]
  | value :: value' :: values =>
      have hopen : weight [32, openBracket] = 0 := rfl
      have hclose : weight [closeBracket] = 0 := rfl
      rw [valuesText_of_two (by simp), Json.weight_append, Json.weight_append, weight_intercalate,
        hopen, hclose, weight_flatten, weight_flatten, List.map_map]
      simp [Function.comp_def, weight_quoted]

/-- The strings of a member. -/
def stringsOf (m : Bytes × Json) : List Bytes := m.1 :: m.2.strings

theorem strings_valueOf (values : List Bytes) : (valueOf values).strings = values := by
  have harray : (Json.array (values.map .string)).strings = values := by
    rw [Json.strings, Json.stringsOfElements_eq, List.flatMap_map]
    exact List.flatMap_singleton' values
  cases values with
  | nil => rfl
  | cons value values =>
      cases values with
      | nil => rfl
      | cons value' values => exact harray

theorem weight_groupText (g : Bytes × List Bytes) :
    weight (groupText g.1 g.2) = weight (stringsOf (g.1, valueOf g.2)).flatten := by
  have hopen : weight [10, 9, quote] = 0 := rfl
  have hcolon : weight [quote, colon] = 0 := rfl
  rw [groupText, Json.weight_append, Json.weight_append, Json.weight_append, weight_valuesText, hopen,
    hcolon, stringsOf, strings_valueOf, List.flatten_cons, Json.weight_append, Nat.zero_add,
    Nat.add_zero]

theorem weight_formText (gs : List (Bytes × List Bytes)) :
    weight (formText gs) =
      weight ((gs.map fun g => (g.1, valueOf g.2)).flatMap stringsOf).flatten := by
  have hheader : weight header = 0 := rfl
  have htrailer : weight trailer = 0 := rfl
  rw [formText, Json.weight_append, Json.weight_append, weight_intercalate, hheader, htrailer,
    Nat.zero_add, Nat.add_zero]
  induction gs with
  | nil => rfl
  | cons g gs ih =>
      rw [List.map_cons, List.flatten_cons, Json.weight_append, weight_groupText, ih, List.map_cons,
        List.flatMap_cons, List.flatten_append, Json.weight_append]

theorem strings_answer (members : List (Bytes × Json)) :
    (Json.object [(getKey, .object members)]).strings = getKey :: members.flatMap stringsOf := by
  rw [Json.strings, Json.stringsOfMembers, Json.stringsOfMembers, Json.strings,
    Json.stringsOfMembers_eq, List.append_nil]
  rfl

theorem bare_of_decodes {form : FormType} (h : form.Decodes) : form.Bare := by
  rcases h with ⟨text, members, htext, hparse, hperm⟩
  have hsound := Json.sound_of_parse hparse
  have hempty : ∀ e ∈ form.entries, e.2 = [] := by
    intro e he
    obtain ⟨encoded, henc, hmem⟩ := exists_encoded htext he
    cases jsonValueEncode_eq_some henc with
    | inl h => exact h.1
    | inr h => exact absurd (hmem 0 (by rw [h]; decide)) hsound.noNul
  -- nothing of the text is lost, so no key was written with an escape
  have hencoded : ∀ e ∈ form.entries, jsonValueEncode e.2 = some e.2 := by
    intro e he
    rw [hempty e he]
    rfl
  rw [formToJson_of_encoded hencoded, Option.some_inj] at htext
  have hstrings := (hperm.flatMap_right stringsOf).map weight
  have hweight : weight (getKey :: members.flatMap stringsOf).flatten = weight text := by
    have hget : weight getKey = 0 := rfl
    rw [← htext, weight_formText, ← membersOf_eq, List.flatten_cons, Json.weight_append, hget,
      weight_flatten, weight_flatten, hstrings.sum_nat, Nat.zero_add]
  rw [strings_answer] at hsound
  have hplain := hsound.plain hweight
  intro e he
  refine ⟨hempty e he, hplain e.1 ?_⟩
  apply List.mem_cons_of_mem
  have hkey : (e.1, valueOf (valuesOf form.entries e.1)) ∈ membersOf form.entries :=
    List.mem_map_of_mem (List.mem_dedup.mpr (List.mem_map_of_mem he))
  exact List.mem_flatMap.mpr ⟨_, hperm.mem_iff.mpr hkey, List.mem_cons_self⟩

/-! ### From the condition to the members -/

theorem written_value (depth : Nat) {value : Bytes} (h : Plain value) :
    Json.Written (Json.value (depth + 1)) quoted Json.string value where
  read := Json.value_quoted h depth
  quoted := rfl

theorem value_valuesText (depth : Nat) {values : List Bytes} (h : ∀ value ∈ values, Plain value)
    (rest : Bytes) :
    Json.value (depth + 2) (Json.skipSpace (valuesText values ++ rest)) =
      some (valueOf values, rest) := by
  have hwritten : ∀ value ∈ values,
      Json.Written (Json.value (depth + 1)) quoted Json.string value :=
    fun value hvalue => written_value depth (h value hvalue)
  have hspace : ∀ c ∈ ([] : Bytes), Json.isSpace c = true := fun _ hc => nomatch hc
  have harray := Json.value_array hwritten hspace hspace rest
  match values with
  | [] => exact harray
  | [value] =>
      have hskip : Json.skipSpace (quoted value ++ rest) = quoted value ++ rest :=
        Json.skipSpace_cons rfl _
      rw [valuesText, hskip]
      exact Json.value_quoted (h value List.mem_cons_self) (depth + 1) rest
  | value :: value' :: values =>
      rw [valuesText_of_two (by simp), List.append_assoc, List.append_assoc]
      exact harray

/-- The text of a group without the space before it. -/
def memberText (g : Bytes × List Bytes) : Bytes := quoted g.1 ++ colon :: valuesText g.2

/-- The text of the member `get`, without the space before it. -/
def getText (gs : List (Bytes × List Bytes)) : Bytes :=
  quoted getKey ++ colon :: openBrace ::
    (Json.listed [10, 9] memberText gs ++ ([10] ++ [closeBrace]))

def getMember (gs : List (Bytes × List Bytes)) : Bytes × Json :=
  (getKey, .object (gs.map fun g => (g.1, valueOf g.2)))

theorem formText_eq (gs : List (Bytes × List Bytes)) :
    formText gs = openBrace :: (Json.listed [10] getText [gs] ++ ([] ++ closeBrace :: [10])) := by
  have hpieces : ∀ g : Bytes × List Bytes, groupText g.1 g.2 = [10, 9] ++ memberText g := by
    intro g
    simp [groupText, memberText, quoted]
  rw [formText, Json.listed_singleton, getText, Json.listed]
  simp only [hpieces]
  simp [header, trailer, getKey, quoted]

theorem written_group (depth : Nat) {g : Bytes × List Bytes} (hkey : Plain g.1)
    (hvalues : ∀ value ∈ g.2, Plain value) :
    Json.Written (Json.member (Json.value (depth + 2))) memberText
      (fun g => (g.1, valueOf g.2)) g where
  read := by
    intro rest
    rw [memberText, List.append_assoc, List.cons_append]
    exact Json.member_written hkey (value_valuesText depth hvalues rest)
  quoted := rfl

theorem written_get (depth : Nat) {gs : List (Bytes × List Bytes)} (hkeys : ∀ g ∈ gs, Plain g.1)
    (hvalues : ∀ g ∈ gs, ∀ value ∈ g.2, Plain value) :
    Json.Written (Json.member (Json.value (depth + 3))) getText getMember gs where
  read := by
    intro rest
    have hspace : ∀ c ∈ ([10, 9] : Bytes), Json.isSpace c = true := by decide
    have htail : ∀ c ∈ ([10] : Bytes), Json.isSpace c = true := by decide
    have hobject := Json.value_object (fun g hg => written_group depth (hkeys g hg) (hvalues g hg))
      hspace htail rest
    rw [getText, List.append_assoc, List.cons_append]
    apply Json.member_written (by decide)
    rw [List.cons_append, Json.skipSpace_cons (by decide), List.append_assoc, List.append_assoc]
    exact hobject
  quoted := rfl

theorem parse_formText {gs : List (Bytes × List Bytes)} (hkeys : ∀ g ∈ gs, Plain g.1)
    (hvalues : ∀ g ∈ gs, ∀ value ∈ g.2, Plain value) :
    Json.parse (formText gs) = some (.object [getMember gs]) := by
  obtain ⟨depth, hdepth⟩ : ∃ depth, (formText gs).length + 1 = depth + 4 := by
    have hlength : 13 ≤ (formText gs).length := by
      simp [formText, header, trailer]
    exact ⟨(formText gs).length - 3, by omega⟩
  have hspace : ∀ c ∈ ([10] : Bytes), Json.isSpace c = true := by decide
  have htail : ∀ c ∈ ([] : Bytes), Json.isSpace c = true := fun _ hc => nomatch hc
  have hget : ∀ gs' ∈ [gs], Json.Written (Json.member (Json.value (depth + 3))) getText getMember gs' := by
    intro gs' hgs'
    rw [List.mem_singleton] at hgs'
    rw [hgs']
    exact written_get depth hkeys hvalues
  have hobject := Json.value_object hget hspace htail [10]
  rw [Json.parse, hdepth, formText_eq, Json.skipSpace_cons (by decide), hobject]
  rfl

theorem decodes_of_bare {form : FormType} (h : form.Bare) : form.Decodes := by
  have hencoded : ∀ e ∈ form.entries, jsonValueEncode e.2 = some e.2 := by
    intro e he
    rw [(h e he).1]
    rfl
  have hgroup : ∀ g ∈ groups form.entries, Plain g.1 := by
    intro g hg
    rw [groups_eq form.ordered] at hg
    obtain ⟨key, hkey, rfl⟩ := List.mem_map.mp hg
    obtain ⟨e, he, rfl⟩ := List.mem_map.mp (List.mem_dedup.mp hkey)
    exact (h e he).2
  have hvalues : ∀ g ∈ groups form.entries, ∀ value ∈ g.2, Plain value := by
    intro g hg value hvalue
    have hempty := (h (g.1, value) ((mem_groups_iff form _).mpr ⟨g, hg, rfl, hvalue⟩)).1
    rw [show value = [] from hempty]
    exact Json.plain_nil
  refine ⟨_, _, formToJson_of_encoded hencoded, parse_formText hgroup hvalues, ?_⟩
  rw [membersOf_eq]

/-- The text decodes to the members of the form if and only if no value is given and
no key needs an escape. -/
theorem decodes_iff_bare (form : FormType) : form.Decodes ↔ form.Bare :=
  ⟨bare_of_decodes, decodes_of_bare⟩

/-! ### A value and a key that are not given back -/

/-- `?a=b`: the NUL behind the value is written in its place. -/
def valued : FormType := ⟨[([97], [98])], by decide⟩

/-- The parameter `a":"","b` without a value. -/
def injecting : FormType := ⟨[([97, 34, 58, 34, 34, 44, 34, 98], [])], by decide⟩

theorem valued_injecting_not_decodes :
    (¬valued.Decodes ∧ (formToJson jsonValueEncode valued.entries).bind Json.parse = none) ∧
      ¬injecting.Decodes ∧
        (formToJson jsonValueEncode injecting.entries).bind Json.parse =
          some (.object [(getKey, .object [([97], .string []), ([98], .string [])])]) := by
  refine ⟨⟨?_, rfl⟩, ?_, rfl⟩
  · intro h
    exact absurd (bare_of_decodes h _ List.mem_cons_self).1 (by decide)
  · intro h
    exact absurd (bare_of_decodes h _ List.mem_cons_self).2 (by decide)

end StrusWebService.Form
