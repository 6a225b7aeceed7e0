import StrusWebService.Form.Members

/-! # The entries visited

`visitForm` is `formToJson` with a record of the entries whose values are encoded. The
record changes nothing: it is the entries up to where the iterator stands.
-/

namespace StrusWebService.Form

open Json (quote comma openBracket closeBracket)
open Text (colon)

def visitValues (enc : Bytes → Option Bytes) (form : List Entry) (fn : Nat) :
    Nat → List Nat → Bytes → Nat → Nat → Option (Bytes × Nat × List Nat)
  | 0, _, _, _, _ => none
  | fuel + 1, visits, content, fi, eidx =>
      if fi = fn then some (content, fi, visits)
      else
        (deref form fi).bind fun e =>
          (enc e.2).bind fun value =>
            (next form fi).bind fun fi' =>
              visitValues enc form fn fuel (visits ++ [fi]) (pushQuoted (pushComma content eidx) value)
                fi' (eidx + 1)

def visitEntries (enc : Bytes → Option Bytes) (form : List Entry) :
    Nat → List Nat → Bytes → Nat → Nat → Option (Bytes × List Nat)
  | 0, _, _, _, _ => none
  | fuel + 1, visits, content, fi, fidx =>
      if fi = form.length then some (content, visits)
      else
        (deref form fi).bind fun e =>
          let content := pushComma content fidx ++ [10, 9, quote] ++ e.1 ++ [quote, colon]
          (next form fi).bind fun fn =>
            (sameKey form fi fn).bind fun same =>
              if same then
                (runEnd form fi (form.length + 1) fn).bind fun fn =>
                  (visitValues enc form fn (form.length + 1) visits (content ++ [32, openBracket]) fi 0).bind
                    fun (content, fi, visits) =>
                      (prev fi).bind fun fi =>
                        (next form fi).bind fun fi =>
                          visitEntries enc form fuel visits (content ++ [closeBracket]) fi (fidx + 1)
              else
                (enc e.2).bind fun value =>
                  (next form fi).bind fun fi' =>
                    visitEntries enc form fuel (visits ++ [fi]) (pushQuoted content value) fi' (fidx + 1)

/-- The text and the positions of the entries in the order their values are encoded. -/
def visitForm (enc : Bytes → Option Bytes) (form : List Entry) : Option (Bytes × List Nat) :=
  (visitEntries enc form (form.length + 1) [] header 0 0).map fun (content, visits) =>
    (content ++ trailer, visits)

/-! ### The record -/

section Record

variable {enc : Bytes → Option Bytes} {form : List Entry}

theorem eq_of_next {i j : Nat} (h : next form i = some j) : j = i + 1 := by
  rw [next] at h
  split at h
  · exact (Option.some.inj h).symm
  · cases h

/-- The step back is made good by the step of the outer loop. -/
theorem eq_of_prev_next {i j k : Nat} (hprev : prev i = some j)
    (hnext : next form j = some k) : k = i := by
  rw [prev] at hprev
  split at hprev
  · have hj := Option.some.inj hprev
    have hk := eq_of_next hnext
    omega
  · cases hprev

/-- A record is carried along behind the same step. -/
theorem bind_eq_map_bind {α β γ : Type} {x : Option α} {f : α → Option γ} {g : α → Option β}
    {r : β → γ} (h : ∀ a, x = some a → f a = (g a).map r) : x.bind f = (x.bind g).map r := by
  rw [Option.map_bind]
  exact Option.bind_congr h

/-- The entries before the iterator are those visited. -/
theorem visitValues_eq (enc : Bytes → Option Bytes) (form : List Entry) (fn fuel : Nat)
    (content : Bytes) (fi eidx : Nat) :
    visitValues enc form fn fuel (List.range fi) content fi eidx =
      (valuesLoop enc form fn fuel content fi eidx).map fun (content, fi) =>
        (content, fi, List.range fi) := by
  induction fuel generalizing content fi eidx with
  | zero => rfl
  | succ fuel ih =>
      rw [visitValues, valuesLoop]
      by_cases heq : fi = fn
      · rw [if_pos heq, if_pos heq]
        rfl
      · rw [if_neg heq, if_neg heq]
        apply bind_eq_map_bind
        intro e _
        apply bind_eq_map_bind
        intro value _
        apply bind_eq_map_bind
        intro fi' hnext
        rw [← ih, eq_of_next hnext, List.range_succ]

theorem visitEntries_eq (enc : Bytes → Option Bytes) (form : List Entry) (fuel : Nat)
    (content : Bytes) (fi fidx : Nat) :
    visitEntries enc form fuel (List.range fi) content fi fidx =
      (entriesLoop enc form fuel content fi fidx).map fun content =>
        (content, List.range form.length) := by
  induction fuel generalizing content fi fidx with
  | zero => rfl
  | succ fuel ih =>
      rw [visitEntries, entriesLoop]
      by_cases hend : fi = form.length
      · rw [if_pos hend, if_pos hend, hend]
        rfl
      · rw [if_neg hend, if_neg hend]
        apply bind_eq_map_bind
        intro e _
        apply bind_eq_map_bind
        intro fn _
        apply bind_eq_map_bind
        intro same _
        split
        · -- a group of several entries
          apply bind_eq_map_bind
          intro fn _
          rw [visitValues_eq, Option.bind_map]
          apply bind_eq_map_bind
          rintro ⟨content, fi'⟩ -
          apply bind_eq_map_bind
          intro last hprev
          apply bind_eq_map_bind
          intro behind hnext
          rw [← ih, eq_of_prev_next hprev hnext]
        · apply bind_eq_map_bind
          intro value _
          apply bind_eq_map_bind
          intro fi' hnext
          rw [← ih, eq_of_next hnext, List.range_succ]

theorem visitForm_eq (enc : Bytes → Option Bytes) (form : List Entry) :
    visitForm enc form = (formToJson enc form).map fun text => (text, List.range form.length) := by
  rw [visitForm, formToJson, ← List.range_zero, visitEntries_eq, Option.map_map, Option.map_map]
  rfl

end Record

/-! ### The text -/

section Text

variable (enc : Bytes → Bytes)

theorem mapM_total {α β : Type} (f : α → β) (as : List α) :
    as.mapM (fun a => some (f a)) = some (as.map f) := by
  rw [mapM_eq_some_iff, List.forall₂_map_right_iff, List.forall₂_same]
  exact fun a _ => rfl

theorem groupText?_total :
    groupText? (fun value => some (enc value)) = fun g => some (groupText g.1 (g.2.map enc)) := by
  funext g
  rw [groupText?, mapM_total]
  rfl

/-- For every multimap the loop ends without access to the end, encodes the value of each
entry once and writes the groups of the distinct keys in order. -/
theorem formToJson_exact (form : FormType) :
    ∃ text, formToJson (fun value => some (enc value)) form.entries = some text ∧
      visitForm (fun value => some (enc value)) form.entries =
        some (text, List.range form.entries.length) ∧
      text = header ++
        List.intercalate [comma] ((form.entries.map Prod.fst).dedup.map fun key =>
          groupText key ((valuesOf form.entries key).map enc)) ++ trailer := by
  have hgroups : (groups form.entries).mapM (groupText? fun value => some (enc value)) =
      some ((form.entries.map Prod.fst).dedup.map fun key =>
        groupText key ((valuesOf form.entries key).map enc)) := by
    rw [groupText?_total, mapM_total, groups_eq form.ordered, List.map_map]
    rfl
  have htext := formToJson_eq (fun value => some (enc value)) form.entries
  rw [hgroups] at htext
  exact ⟨_, htext, by rw [visitForm_eq, htext]; rfl, rfl⟩

end Text

end StrusWebService.Form
