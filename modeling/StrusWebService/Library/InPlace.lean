import Mathlib.Data.Set.Finite.Basic
import Mathlib.Order.WellFounded
import Mathlib.Data.Fintype.Order
import Mathlib.Logic.Relation

/-! # Equations and one pass in place

A finite system of equations determines the value of every unknown by a rule over
the values of others. When no unknown depends on itself, the system has exactly
one solution. `pass` is what a loop does that overwrites a list from left to
right, where the rule for an element reads the list as it stands: new values
before the element, old ones from it on.
-/

namespace InPlace

section Pass

variable {τ : Type*}

/-- Rewrite the elements of the second list behind those of the first, which are
done; `rewrite` sees the whole list as it stands. -/
def pass (rewrite : List τ → τ → Option τ) : List τ → List τ → Option (List τ)
  | done, [] => some done
  | done, t :: todo =>
      (rewrite (done ++ t :: todo) t).bind fun t' => pass rewrite (done ++ [t']) todo

variable {rewrite : List τ → τ → Option τ}

@[simp] theorem pass_nil (done : List τ) : pass rewrite done [] = some done := rfl

/-- A pass over two parts: while the first is rewritten, the second stands behind it. -/
theorem pass_append (done first second : List τ) :
    pass rewrite done (first ++ second) =
      (pass (fun all => rewrite (all ++ second)) done first).bind fun done' =>
        pass rewrite done' second := by
  induction first generalizing done with
  | nil => rfl
  | cons t first ih =>
      simp only [List.cons_append, pass, List.append_assoc, Option.bind_assoc]
      apply Option.bind_congr
      intro t' _
      exact ih (done ++ [t'])

/-- Each element has been rewritten in the list that has the new elements before
it and the old ones from it on. -/
theorem pass_eq_some_iff {done todo result : List τ} :
    pass rewrite done todo = some result ↔
      ∃ written, result = done ++ written ∧ written.length = todo.length ∧
        ∀ i (hi : i < todo.length),
          rewrite (done ++ written.take i ++ todo.drop i) todo[i] = written[i]? := by
  induction todo generalizing done with
  | nil =>
      constructor
      · intro h
        cases h
        exact ⟨[], by simp⟩
      · intro h
        rcases h with ⟨written, rfl, hlength, -⟩
        simp [List.length_eq_zero_iff.mp hlength]
  | cons t todo ih =>
      rw [pass, Option.bind_eq_some_iff]
      constructor
      · intro h
        rcases h with ⟨t', ht, hrest⟩
        obtain ⟨written, rfl, hlength, heach⟩ := ih.mp hrest
        refine ⟨t' :: written, by simp, by simp [hlength], ?_⟩
        intro i hi
        cases i with
        | zero => simpa using ht
        | succ i => simpa using heach i (Nat.lt_of_succ_lt_succ hi)
      · intro h
        rcases h with ⟨written, rfl, hlength, heach⟩
        cases written with
        | nil => contradiction
        | cons t' written =>
            refine ⟨t', by simpa using heach 0 (Nat.succ_pos _), ?_⟩
            apply ih.mpr
            refine ⟨written, by simp, Nat.succ.inj hlength, ?_⟩
            intro i hi
            simpa using heach (i + 1) (Nat.succ_lt_succ hi)

/-- A rule that has a value for every element gets through. -/
theorem exists_pass_eq_some {todo : List τ} (total : ∀ t ∈ todo, ∀ all, (rewrite all t).isSome)
    (done : List τ) : ∃ result, pass rewrite done todo = some result := by
  induction todo generalizing done with
  | nil => exact ⟨done, rfl⟩
  | cons t todo ih =>
      obtain ⟨t', ht⟩ := Option.isSome_iff_exists.mp (total t List.mem_cons_self (done ++ t :: todo))
      rw [pass, ht]
      exact ih (fun u hu => total u (List.mem_cons_of_mem t hu)) (done ++ [t'])

end Pass

section Equations

variable {ι τ : Type*}

def Solves (rule : ι → (ι → τ) → τ) (value : ι → τ) : Prop := ∀ i, value i = rule i value

/-- The rule of an unknown reads the unknowns it uses and no others. -/
def Local (uses : ι → ι → Prop) (rule : ι → (ι → τ) → τ) : Prop :=
  ∀ i value value', (∀ j, uses i j → value j = value' j) → rule i value = rule i value'

variable {uses : ι → ι → Prop} {rule : ι → (ι → τ) → τ}

theorem Solves.unique (wf : WellFounded fun j i => uses i j) (reads : Local uses rule)
    {value value' : ι → τ} (h : Solves rule value) (h' : Solves rule value') : value = value' := by
  funext i
  induction i using wf.induction with
  | h i ih => rw [h i, h' i, reads i value value' ih]

open Classical in
theorem exists_solves [Nonempty τ] (wf : WellFounded fun j i => uses i j)
    (reads : Local uses rule) : ∃ value, Solves rule value := by
  let body : (i : ι) → ((j : ι) → uses i j → τ) → τ := fun i earlier =>
    rule i fun j => if h : uses i j then earlier j h else Classical.arbitrary τ
  refine ⟨wf.fix body, fun i => ?_⟩
  rw [wf.fix_eq]
  apply reads i
  intro j hj
  rw [dif_pos hj]

/-- Without a cycle, and with finitely many elements that have others below them, the
relation is well founded. -/
theorem wellFounded_of_acyclic {r : ι → ι → Prop} {s : Set ι} (hs : s.Finite)
    (field : ∀ j i, r j i → i ∈ s) (acyclic : ∀ i, ¬Relation.TransGen r i i) : WellFounded r := by
  have : Finite s := hs
  let before : s → s → Prop := fun j i => Relation.TransGen r j i
  have : IsTrans s before := ⟨fun _ _ _ h h' => h.trans h'⟩
  have : Std.Irrefl before := ⟨fun i => acyclic i⟩
  have hwf : WellFounded before := Finite.wellFounded_of_trans_of_irrefl before
  have houtside : ∀ i ∉ s, Acc r i := fun i hi =>
    Acc.intro i fun j hj => absurd (field j i hj) hi
  have hinside : ∀ i : s, Acc r i := by
    intro i
    induction i using hwf.induction with
    | h i ih =>
        apply Acc.intro
        intro j hj
        by_cases hjs : j ∈ s
        · exact ih ⟨j, hjs⟩ (Relation.TransGen.single hj)
        · exact houtside j hjs
  constructor
  intro i
  by_cases hi : i ∈ s
  · exact hinside ⟨i, hi⟩
  · exact houtside i hi

end Equations

end InPlace
