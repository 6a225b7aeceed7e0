import Mathlib.Data.List.Basic

/-! # Runs of a partial step function

A system is a state type, an action type and a partial function `step`. The
environment chooses the actions, so a run is a list of actions and the state it
ends in; an action that is not enabled has no successor. `Along` states that
every step taken by a run meets a condition on its prestate and its action.
Results about all runs are obtained from one statement about one step.
-/

namespace StepSystem

variable {σ α : Type*}

/-- Execute the actions in order; `none` when one of them is not enabled. -/
def run (step : σ → α → Option σ) : σ → List α → Option σ
  | s, [] => some s
  | s, a :: acts => (step s a).bind fun t => run step t acts

/-- Every step of the run meets `ok` in the state it is taken from. -/
def Along (step : σ → α → Option σ) (ok : σ → α → Prop) : σ → List α → Prop
  | _, [] => True
  | s, a :: acts =>
      ok s a ∧
        match step s a with
        | none => True
        | some t => Along step ok t acts

instance Along.decide (step : σ → α → Option σ) (ok : σ → α → Prop)
    [∀ s a, Decidable (ok s a)] (acts : List α) (s : σ) :
    Decidable (Along step ok s acts) :=
  match acts with
  | [] => isTrue trivial
  | a :: acts =>
      have : Decidable
          (match step s a with
            | none => True
            | some t => Along step ok t acts) :=
        match step s a with
        | none => isTrue trivial
        | some t => Along.decide step ok acts t
      inferInstanceAs (Decidable (ok s a ∧ _))

/-- How many steps of the run are counted, in the states they are taken from. -/
def tally (step : σ → α → Option σ) (counted : σ → α → Bool) : σ → List α → Nat
  | _, [] => 0
  | s, a :: acts =>
      (counted s a).toNat +
        match step s a with
        | none => 0
        | some t => tally step counted t acts

section Runs

variable {step : σ → α → Option σ} {ok : σ → α → Prop}

@[simp] theorem run_nil (s : σ) : run step s [] = some s := rfl

theorem run_cons {s u : σ} {a : α} {acts : List α} :
    run step s (a :: acts) = some u ↔ ∃ t, step s a = some t ∧ run step t acts = some u :=
  Option.bind_eq_some_iff

theorem run_append {s t u : σ} {acts acts' : List α} (h : run step s acts = some t)
    (h' : run step t acts' = some u) : run step s (acts ++ acts') = some u := by
  induction acts generalizing s with
  | nil =>
      cases h
      exact h'
  | cons a acts ih =>
      obtain ⟨v, hv, ht⟩ := run_cons.mp h
      exact run_cons.mpr ⟨v, hv, ih ht⟩

@[simp] theorem along_nil (s : σ) : Along step ok s [] := trivial

theorem along_cons_of_step {s t : σ} {a : α} {acts : List α} (h : step s a = some t) :
    Along step ok s (a :: acts) ↔ ok s a ∧ Along step ok t acts := by
  simp [Along, h]

theorem Along.mono {ok' : σ → α → Prop} (weaken : ∀ s a, ok s a → ok' s a) {s : σ}
    {acts : List α} (h : Along step ok s acts) : Along step ok' s acts := by
  induction acts generalizing s with
  | nil => trivial
  | cons a acts ih =>
      refine ⟨weaken s a h.1, ?_⟩
      cases ht : step s a with
      | none => trivial
      | some t => exact ih ((along_cons_of_step ht).mp h).2

theorem Along.and {ok' : σ → α → Prop} {s : σ} {acts : List α} (h : Along step ok s acts)
    (h' : Along step ok' s acts) : Along step (fun s a => ok s a ∧ ok' s a) s acts := by
  induction acts generalizing s with
  | nil => trivial
  | cons a acts ih =>
      refine ⟨⟨h.1, h'.1⟩, ?_⟩
      cases ht : step s a with
      | none => trivial
      | some t => exact ih ((along_cons_of_step ht).mp h).2 ((along_cons_of_step ht).mp h').2

/-- A condition on the actions alone is met at every step. -/
theorem along_of_forall {p : α → Prop} {acts : List α} (hp : ∀ a ∈ acts, p a) (s : σ) :
    Along step (fun _ a => p a) s acts := by
  induction acts generalizing s with
  | nil => trivial
  | cons a acts ih =>
      refine ⟨hp a List.mem_cons_self, ?_⟩
      cases ht : step s a with
      | none => trivial
      | some t => exact ih (fun b hb => hp b (List.mem_cons_of_mem a hb)) t

/-- Induction on a run that also refers to the actions taken so far. -/
theorem run_induction (motive : List α → σ → Prop)
    (keep : ∀ acts s a t, motive acts s → ok s a → step s a = some t → motive (acts ++ [a]) t)
    {s t : σ} {acts : List α} (before : List α) (start : motive before s)
    (guarded : Along step ok s acts) (h : run step s acts = some t) : motive (before ++ acts) t := by
  induction acts generalizing s before with
  | nil =>
      cases h
      rwa [List.append_nil]
  | cons a acts ih =>
      obtain ⟨v, hv, ht⟩ := run_cons.mp h
      obtain ⟨hok, hrest⟩ := (along_cons_of_step hv).mp guarded
      have hnext := ih (before ++ [a]) (keep before s a v start hok hv) hrest ht
      rwa [List.append_assoc, List.singleton_append] at hnext

/-- What one step keeps under the condition, a whole run keeps. -/
theorem invariant_run (inv : σ → Prop)
    (keep : ∀ s a t, inv s → ok s a → step s a = some t → inv t)
    {s t : σ} {acts : List α} (start : inv s) (guarded : Along step ok s acts)
    (h : run step s acts = some t) : inv t :=
  run_induction (fun _ => inv) (fun _ => keep) [] start guarded h

/-- What every step keeps, every run keeps. -/
theorem invariant_of_step (inv : σ → Prop) (keep : ∀ s a t, inv s → step s a = some t → inv t)
    {s t : σ} {acts : List α} (start : inv s) (h : run step s acts = some t) : inv t := by
  have anywhere : Along step (fun _ _ => True) s acts := along_of_forall (fun _ _ => trivial) s
  exact invariant_run inv (fun s a t hinv _ hstep => keep s a t hinv hstep) start anywhere h

/-- If every step is matched by a run of another system, then every run is. -/
theorem simulates_run {τ β : Type*} {step' : τ → β → Option τ} (rel : σ → τ → Prop)
    (sim : ∀ s a t p, rel s p → step s a = some t → ∃ moves q, run step' p moves = some q ∧ rel t q)
    {s t : σ} {p : τ} {acts : List α} (start : rel s p) (h : run step s acts = some t) :
    ∃ moves q, run step' p moves = some q ∧ rel t q := by
  induction acts generalizing s p with
  | nil =>
      cases h
      exact ⟨[], p, rfl, start⟩
  | cons a acts ih =>
      obtain ⟨v, hv, ht⟩ := run_cons.mp h
      obtain ⟨moves, q, hmoves, hq⟩ := sim s a v p start hv
      obtain ⟨moves', q', hmoves', hq'⟩ := ih hq ht
      exact ⟨moves ++ moves', q', run_append hmoves hmoves', hq'⟩

/-- A measure that every counted step takes down bounds how many of them a run can take. -/
theorem countP_add_measure_le (counted : α → Bool) (measure : σ → Nat)
    (drop : ∀ s a t, ok s a → step s a = some t → (counted a).toNat + measure t ≤ measure s)
    {s t : σ} {acts : List α} (guarded : Along step ok s acts) (h : run step s acts = some t) :
    acts.countP counted + measure t ≤ measure s := by
  induction acts generalizing s with
  | nil =>
      cases h
      simp
  | cons a acts ih =>
      obtain ⟨v, hv, ht⟩ := run_cons.mp h
      obtain ⟨hok, hrest⟩ := (along_cons_of_step hv).mp guarded
      have hfirst := drop s a v hok hv
      have hnext := ih hrest ht
      rw [List.countP_cons]
      cases hc : counted a with
      | false =>
          simp only [hc, Bool.toNat_false, Nat.zero_add, Bool.false_eq_true, if_false] at hfirst ⊢
          omega
      | true =>
          simp only [hc, Bool.toNat_true, if_true] at hfirst ⊢
          omega

theorem tally_cons_of_step {counted : σ → α → Bool} {s t : σ} {a : α} {acts : List α}
    (h : step s a = some t) :
    tally step counted s (a :: acts) = tally step counted t acts + (counted s a).toNat := by
  simp only [tally, h]
  omega

/-- A measure that every step takes down, where a counted step may draw on one of the
units provided for it, bounds the length of a run. -/
theorem length_add_measure_le_tally (counted : σ → α → Bool) (measure : Nat → σ → Nat)
    (drop : ∀ n s a t, step s a = some t → measure n t < measure (n + (counted s a).toNat) s)
    {s t : σ} {acts : List α} (h : run step s acts = some t) :
    acts.length + measure 0 t ≤ measure (tally step counted s acts) s := by
  induction acts generalizing s with
  | nil =>
      cases h
      simp [tally]
  | cons a acts ih =>
      obtain ⟨v, hv, ht⟩ := run_cons.mp h
      have hfirst := drop (tally step counted v acts) s a v hv
      have hnext := ih ht
      rw [tally_cons_of_step hv, List.length_cons]
      omega

/-- A consequence of the invariant holds at every step taken by the run. -/
theorem invariant_along (inv : σ → Prop) {post : σ → α → Prop}
    (keep : ∀ s a t, inv s → ok s a → step s a = some t → inv t)
    (use : ∀ s a, inv s → ok s a → post s a)
    {s : σ} {acts : List α} (start : inv s) (guarded : Along step ok s acts) :
    Along step post s acts := by
  induction acts generalizing s with
  | nil => trivial
  | cons a acts ih =>
      refine ⟨use s a start guarded.1, ?_⟩
      cases ht : step s a with
      | none => trivial
      | some t =>
          obtain ⟨hok, hrest⟩ := (along_cons_of_step ht).mp guarded
          exact ih (keep s a t start hok ht) hrest

end Runs

/-! ### Parties of a sample run -/

/-- Samples number their two parties. -/
instance neZero_two : @NeZero Nat Zero.ofOfNat0 2 := ⟨Nat.succ_ne_zero 1⟩

/-- Samples number their three parties. -/
instance neZero_three : @NeZero Nat Zero.ofOfNat0 3 := ⟨Nat.succ_ne_zero 2⟩

end StepSystem
