import StrusWebService.Service.Ownership

/-! # The mutex of the waiting list

The thread whose position is inside the scope of the lock is the holder of the
mutex, so the waiting list and the flag have one writer at a time. From this
follow the two facts about list and flag that hold in every run: a non-empty
list has the flag set, and the flag is reset only after the list was cleared.
-/

namespace StrusWebService.Service

/-! ## Acquiring and releasing -/

def Event.acquires : Event → Bool
  | .lock | .lockList _ => true
  | _ => false

def Event.releases : Event → Bool
  | .pushBack _ | .setWaitForExclusiveAccess false => true
  | _ => false

theorem Frame.resume_holdsMutex (f : Frame) : f.resume.holdsMutex = false := by
  cases f <;> rfl

theorem Frame.unwind_holdsMutex (f : Frame) : f.unwind.holdsMutex = false := by
  cases f <;> rfl

theorem control_holdsMutex {p p' : Position} {e : Event} (h : control p e = some p') :
    (e.acquires = true ∧ p'.holdsMutex = true) ∨
    (e.releases = true ∧ p.holdsMutex = true ∧ p'.holdsMutex = false) ∨
    (e = .throws ∧ p'.holdsMutex = false) ∨
    (e.acquires = false ∧ e.releases = false ∧ e ≠ .throws ∧ p'.holdsMutex = p.holdsMutex) := by
  unfold control at h
  split at h
  all_goals simp only [Option.ite_none_right_eq_some, Option.some.injEq, reduceCtorEq] at h
  all_goals rcases h with ⟨rfl, rfl⟩
  all_goals try split
  all_goals simp only [Event.acquires, Event.releases, Frame.resume_holdsMutex,
    Frame.unwind_holdsMutex]
  all_goals simp [Position.holdsMutex]

section Steps

variable {Tid : Type*} [DecidableEq Tid] {s s₁ s' : System Tid} {t : Tid} {e : Event}

theorem effect_mutex (h : effect s t e = some s₁) :
    (e.acquires = true ∧ s.closure.mutexWaitingContextList = none ∧
      s₁.closure.mutexWaitingContextList = some t) ∨
    (e.releases = true ∧ s₁.closure.mutexWaitingContextList = none) ∨
    (e = .throws ∧ s₁.closure.mutexWaitingContextList =
      if s.closure.mutexWaitingContextList = some t then none
      else s.closure.mutexWaitingContextList) ∨
    (e.acquires = false ∧ e.releases = false ∧ e ≠ .throws ∧
      s₁.closure.mutexWaitingContextList = s.closure.mutexWaitingContextList) := by
  obtain ⟨hallows, rfl⟩ := effect_after h
  cases e
  case lock => exact .inl ⟨rfl, hallows, rfl⟩
  case lockList waiting => exact .inl ⟨rfl, hallows.2, rfl⟩
  case throws =>
    refine .inr (.inr (.inl ⟨rfl, ?_⟩))
    rw [System.after]
    split <;> rfl
  case setWaitForExclusiveAccess value =>
    cases value with
    | true => exact .inr (.inr (.inr ⟨rfl, rfl, by simp, rfl⟩))
    | false => exact .inr (.inl ⟨rfl, rfl⟩)
  case pushBack r => exact .inr (.inl ⟨rfl, rfl⟩)
  all_goals exact .inr (.inr (.inr ⟨rfl, rfl, by simp, rfl⟩))

/-- The holder of the mutex is the thread inside the scope of the lock. -/
def MutexHeld (s : System Tid) : Prop :=
  ∀ t, s.closure.mutexWaitingContextList = some t ↔ (s.position t).holdsMutex = true

omit [DecidableEq Tid] in
theorem mutexHeld_initial : MutexHeld (initial Tid) := by
  intro t
  simp [initial, Position.holdsMutex]

omit [DecidableEq Tid] in
theorem MutexHeld.unique {u u' : Tid} (inv : MutexHeld s)
    (hu : (s.position u).holdsMutex = true) (hu' : (s.position u').holdsMutex = true) : u = u' :=
  Option.some.inj (((inv u).mpr hu).symm.trans ((inv u').mpr hu'))

theorem mutexHeld_step (inv : MutexHeld s) (h : step s (t, e) = some s') : MutexHeld s' := by
  obtain ⟨p, s₁, hp, hs, rfl⟩ := step_eq_some.mp h
  have hpos : s₁.position = s.position := effect_position hs
  intro u
  rw [goto_closure]
  have hother : u ≠ t → ((s₁.goto t p).position u).holdsMutex = (s.position u).holdsMutex := by
    intro hut
    rw [goto_position_of_ne s₁ p hut, hpos]
  rcases control_holdsMutex hp with ⟨ha, hp'⟩ | ⟨hr, hheld, hp'⟩ | ⟨rfl, hp'⟩ | ⟨ha, hr, ht, hp'⟩
  · rcases effect_mutex hs with ⟨-, hfree, hnew⟩ | ⟨hr, -⟩ | ⟨rfl, -⟩ | ⟨hna, -⟩
    · rw [hnew]
      by_cases hut : u = t
      · subst hut
        simp [hp']
      · have hu := inv u
        rw [hfree] at hu
        rw [hother hut, ← hu]
        simp [Ne.symm hut]
    · cases e <;> simp_all [Event.acquires, Event.releases]
    · simp [Event.acquires] at ha
    · simp [ha] at hna
  · rcases effect_mutex hs with ⟨ha, -⟩ | ⟨-, hnew⟩ | ⟨rfl, -⟩ | ⟨-, hnr, -⟩
    · cases e <;> simp_all [Event.acquires, Event.releases]
    · rw [hnew]
      by_cases hut : u = t
      · subst hut
        simp [hp']
      · have hu : ¬(s.position u).holdsMutex = true := fun hu => hut (inv.unique hu hheld)
        simpa [hother hut] using hu
    · simp [Event.releases] at hr
    · simp [hr] at hnr
  · rcases effect_mutex hs with ⟨ha, -⟩ | ⟨hr, -⟩ | ⟨-, hnew⟩ | ⟨-, -, hne, -⟩
    · simp [Event.acquires] at ha
    · simp [Event.releases] at hr
    · rw [hnew]
      by_cases hut : u = t
      · subst hut
        rw [goto_position_self, hp']
        split <;> simp_all
      · rw [hother hut, ← inv u]
        split
        case isTrue hown => simp [hown, Ne.symm hut]
        case isFalse => exact Iff.rfl
    · exact (hne rfl).elim
  · rcases effect_mutex hs with ⟨hna, -⟩ | ⟨hnr, -⟩ | ⟨rfl, -⟩ | ⟨-, -, -, hsame⟩
    · simp [ha] at hna
    · simp [hr] at hnr
    · exact (ht rfl).elim
    · rw [hsame, inv u]
      by_cases hut : u = t
      · subst hut
        rw [goto_position_self, hp']
      · rw [hother hut]

end Steps

end StrusWebService.Service
