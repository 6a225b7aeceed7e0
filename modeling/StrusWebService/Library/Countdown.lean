import Mathlib.Logic.Function.Basic

/-! # Counting down to one termination

Several calls work on one task. Each has a counter and a number of parts still
pending, and the task is terminated when a counter is counted down to zero or a
part fails. `Sound` is the invariant under which this happens exactly once: as
long as the task is not terminated, one call has a positive counter equal to its
pending parts and no other counter is positive; after the termination a positive
counter exceeds what is still pending, so it never reaches zero. A call hands the
task over to another one by leaving its own counter at zero.
-/

namespace Countdown

@[ext] structure Ledger (ι : Type*) where
  counter : ι → Int
  pending : ι → Nat
  done : Nat

namespace Ledger

variable {ι : Type*}

/-- The counter is positive and counts the pending parts. -/
def Balanced (l : Ledger ι) (i : ι) : Prop :=
  0 < l.counter i ∧ l.counter i = l.pending i

instance (l : Ledger ι) (i : ι) : Decidable (l.Balanced i) :=
  inferInstanceAs (Decidable (_ ∧ _))

def Live (l : Ledger ι) : Prop :=
  l.done = 0 ∧ ∃ i, l.Balanced i ∧ ∀ j, j ≠ i → l.counter j ≤ 0

def Ended (l : Ledger ι) : Prop :=
  l.done = 1 ∧ ∀ i, l.counter i ≤ 0 ∨ (l.pending i : Int) < l.counter i

def Sound (l : Ledger ι) : Prop := l.Live ∨ l.Ended

def set [DecidableEq ι] (l : Ledger ι) (i : ι) (counter : Int) (pending done : Nat) : Ledger ι where
  counter := Function.update l.counter i counter
  pending := Function.update l.pending i pending
  done := done

variable [DecidableEq ι] {l : Ledger ι} {i j : ι} {c : Int} {p d n : Nat}

@[simp] theorem set_counter_self : (l.set i c p d).counter i = c := by simp [set]

@[simp] theorem set_pending_self : (l.set i c p d).pending i = p := by simp [set]

@[simp] theorem set_done : (l.set i c p d).done = d := rfl

theorem set_counter_of_ne (h : j ≠ i) : (l.set i c p d).counter j = l.counter j := by
  simp [set, h]

theorem set_pending_of_ne (h : j ≠ i) : (l.set i c p d).pending j = l.pending j := by
  simp [set, h]

theorem set_set {c' : Int} {p' d' : Nat} : (l.set i c p d).set i c' p' d' = l.set i c' p' d' := by
  simp [set]

omit [DecidableEq ι] in
theorem done_le_one (h : l.Sound) : l.done ≤ 1 := by
  cases h with
  | inl h => exact h.1 ▸ Nat.zero_le 1
  | inr h => exact Nat.le_of_eq h.1

omit [DecidableEq ι] in
/-- When nothing is pending any more, the task has been terminated. -/
theorem done_of_not_pending (h : l.Sound) (hp : ∀ i, l.pending i = 0) : l.done = 1 := by
  cases h with
  | inl h =>
      rcases h with ⟨-, i, ⟨hpos, heq⟩, -⟩
      rw [hp i] at heq
      omega
  | inr h => exact h.1

omit [DecidableEq ι] in
/-- A call that is not balanced has nothing left to count down to zero. -/
theorem surplus_of_not_balanced (h : l.Sound) (hb : ¬l.Balanced i) :
    l.counter i ≤ 0 ∨ (l.pending i : Int) < l.counter i := by
  cases h with
  | inl h =>
      rcases h with ⟨-, k, hk, hothers⟩
      by_cases hik : i = k
      · subst hik
        exact (hb hk).elim
      · exact .inl (hothers i hik)
  | inr h => exact h.2 i

omit [DecidableEq ι] in
theorem done_of_balanced (h : l.Sound) (hb : l.Balanced i) :
    l.done = 0 ∧ ∀ j, j ≠ i → l.counter j ≤ 0 := by
  cases h with
  | inl h =>
      rcases h with ⟨hd, k, hk, hothers⟩
      have hik : i = k := by
        by_contra hne
        have := hothers i hne
        have := hb.1
        omega
      subst hik
      exact ⟨hd, hothers⟩
  | inr h =>
      have := h.2 i
      have := hb.1
      have := hb.2
      omega

/-- The first call takes the task. -/
theorem sound_begin (hd : l.done = 0) (hc : ∀ j, l.counter j ≤ 0) (hn : 0 < n) :
    (l.set i n n l.done).Sound := by
  refine .inl ⟨hd, i, ⟨by simpa using hn, by simp⟩, fun j hj => ?_⟩
  rw [set_counter_of_ne hj]
  exact hc j

/-- A call that is not balanced goes on without becoming balanced. -/
theorem sound_of_not_balanced (h : l.Sound) (hb : ¬l.Balanced i)
    (hneg : l.counter i ≤ 0 → c ≤ 0)
    (hsurplus : (l.pending i : Int) < l.counter i → c ≤ 0 ∨ (p : Int) < c) :
    (l.set i c p l.done).Sound := by
  cases h with
  | inl h =>
      rcases h with ⟨hd, k, hk, hothers⟩
      have hki : k ≠ i := fun e => hb (e ▸ hk)
      refine .inl ⟨hd, k, ⟨?_, ?_⟩, fun j hj => ?_⟩
      · rw [set_counter_of_ne hki]
        exact hk.1
      · rw [set_counter_of_ne hki, set_pending_of_ne hki]
        exact hk.2
      · by_cases hji : j = i
        · subst hji
          simpa using hneg (hothers j hj)
        · rw [set_counter_of_ne hji]
          exact hothers j hj
  | inr h =>
      refine .inr ⟨h.1, fun j => ?_⟩
      by_cases hji : j = i
      · subst hji
        simp only [set_counter_self, set_pending_self]
        have := h.2 j
        omega
      · rw [set_counter_of_ne hji, set_pending_of_ne hji]
        exact h.2 j

/-- A part is counted, or handed to someone else, without ending anything. -/
theorem sound_count (h : l.Sound) (hdiff : c - p = l.counter i - l.pending i)
    (hpos : 0 < l.counter i → 0 < c) (hneg : l.counter i ≤ 0 → c ≤ 0) :
    (l.set i c p l.done).Sound := by
  by_cases hb : l.Balanced i
  · obtain ⟨hd, hothers⟩ := done_of_balanced h hb
    refine .inl ⟨hd, i, ⟨?_, ?_⟩, fun j hj => ?_⟩
    · simpa using hpos hb.1
    · have := hb.2
      simp only [set_counter_self, set_pending_self]
      omega
    · rw [set_counter_of_ne hj]
      exact hothers j hj
  · apply sound_of_not_balanced h hb hneg
    omega

/-- The balanced call terminates the task; nothing of it can reach zero later. -/
theorem sound_close (h : l.Sound) (hb : l.Balanced i) (hc : c ≤ 0 ∨ (p : Int) < c) :
    (l.set i c p (l.done + 1)).Sound := by
  obtain ⟨hd, hothers⟩ := done_of_balanced h hb
  refine .inr ⟨by simp [hd], fun j => ?_⟩
  by_cases hji : j = i
  · subst hji
    simpa using hc
  · rw [set_counter_of_ne hji, set_pending_of_ne hji]
    exact .inl (hothers j hji)

/-- Parts of a call that is not balanced are lost. -/
theorem sound_lose (h : l.Sound) (hb : ¬l.Balanced i) (hp : p ≤ l.pending i) :
    (l.set i (l.counter i) p l.done).Sound := by
  apply sound_of_not_balanced h hb id
  omega

/-- The balanced call counted its last part and another call takes over. -/
theorem sound_handOver (h : l.Sound) (hb : l.Balanced i) (hn : 0 < n) :
    ((l.set i 0 p l.done).set j n n l.done).Sound := by
  obtain ⟨hd, hothers⟩ := done_of_balanced h hb
  refine .inl ⟨hd, j, ⟨by simpa using hn, by simp⟩, fun k hk => ?_⟩
  rw [set_counter_of_ne hk]
  by_cases hki : k = i
  · subst hki
    simp
  · rw [set_counter_of_ne hki]
    exact hothers k hki

/-! ## Nothing is lost -/

/-- Every counter counts what its call has pending. -/
def Exact (l : Ledger ι) : Prop := ∀ i, l.counter i = l.pending i

omit [DecidableEq ι] in
theorem Exact.balanced (h : l.Exact) (hpos : 0 < l.counter i) : l.Balanced i := ⟨hpos, h i⟩

theorem Exact.set (h : l.Exact) (hc : c = p) : (l.set i c p d).Exact := by
  intro j
  by_cases hji : j = i
  · subst hji
    simpa using hc
  · rw [set_counter_of_ne hji, set_pending_of_ne hji]
    exact h j

/-! ## At most one termination

Without knowing what is pending: as long as a counter is positive nothing was
terminated and no other counter is positive. -/

def AtMostOnce (l : Ledger ι) : Prop :=
  l.done ≤ 1 ∧ ∀ i, 0 < l.counter i → l.done = 0 ∧ ∀ j, j ≠ i → l.counter j ≤ 0

variable {l' : Ledger ι}

omit [DecidableEq ι] in
/-- No counter becomes positive. -/
theorem once_keep (h : l.AtMostOnce) (hd : l'.done = l.done)
    (hneg : ∀ j, l.counter j ≤ 0 → l'.counter j ≤ 0) : l'.AtMostOnce := by
  refine ⟨hd ▸ h.1, fun i hi => ?_⟩
  have hpos : 0 < l.counter i := by
    by_contra hnot
    have := hneg i (by omega)
    omega
  obtain ⟨hdone, hothers⟩ := h.2 i hpos
  exact ⟨hd.trans hdone, fun j hj => hneg j (hothers j hj)⟩

omit [DecidableEq ι] in
/-- The call with the positive counter terminates the task. -/
theorem once_close (h : l.AtMostOnce) (hpos : 0 < l.counter i) (hd : l'.done = l.done + 1)
    (hi : l'.counter i ≤ 0) (hothers : ∀ j, j ≠ i → l'.counter j = l.counter j) :
    l'.AtMostOnce := by
  obtain ⟨hdone, hneg⟩ := h.2 i hpos
  refine ⟨by omega, fun j hj => ?_⟩
  by_cases hji : j = i
  · subst hji
    omega
  · have := hneg j hji
    rw [← hothers j hji] at this
    omega

omit [DecidableEq ι] in
/-- The call with the positive counter hands the task over. -/
theorem once_handOver (h : l.AtMostOnce) (hpos : 0 < l.counter i) (hd : l'.done = l.done)
    (hi : i ≠ j → l'.counter i ≤ 0)
    (hothers : ∀ k, k ≠ i → k ≠ j → l'.counter k = l.counter k) : l'.AtMostOnce := by
  obtain ⟨hdone, hneg⟩ := h.2 i hpos
  have hj : ∀ k, k ≠ j → l'.counter k ≤ 0 := by
    intro k hkj
    by_cases hki : k = i
    · subst hki
      exact hi hkj
    · rw [hothers k hki hkj]
      exact hneg k hki
  refine ⟨hd ▸ h.1, fun k hk => ⟨hd.trans hdone, fun m hm => ?_⟩⟩
  apply hj
  intro hmj
  have hkj : k ≠ j := fun e => hm (hmj.trans e.symm)
  have := hj k hkj
  omega

end Ledger

end Countdown
