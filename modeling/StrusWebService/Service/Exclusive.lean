import StrusWebService.Service.Waiting
import Mathlib.Data.Fintype.Basic

/-! # Exclusive access of maintenance requests

The admission test of `exec_request`, the increment of the counter and the
execution of the waiting list are separate atomic steps. A request that passed
the admission test can be started while the list is processed, and the zero that
`doneRunRequest` saw can be outdated when the list is locked. Both orders let a
maintenance request run beside another request; without them it runs alone.
-/

namespace StrusWebService.Service

variable {Tid : Type*}

/-- The queued request this action executes in `processWaitingRequests`. -/
def executes (s : System Tid) (a : Tid × Event) : Option Request :=
  match s.position a.1, a.2 with
  | .processing _ (r :: _), .executeWaiting _ _ => some r
  | _, _ => none

/-- A queued request is executed while no other request is running. -/
def ExclusiveAccess (s : System Tid) (a : Tid × Event) : Prop :=
  ∀ r ∈ executes s a, ∀ other ∈ s.running, other = r

instance (s : System Tid) (a : Tid × Event) : Decidable (ExclusiveAccess s a) :=
  inferInstanceAs (Decidable (∀ r ∈ executes s a, ∀ other ∈ s.running, other = r))

/-- Inside `processWaitingRequests`, with waiting requests left to execute. -/
def Position.draining : Position → Bool
  | .processing _ (_ :: _) | .reporting _ (_ :: _) => true
  | _ => false

/-- The request started by this action. -/
def starts (a : Tid × Event) : Option Request :=
  match a.2 with
  | .startRunRequest r => some r
  | _ => none

/-- The list locked by this action in `processWaitingRequests`. -/
def locks (a : Tid × Event) : Option (List Request) :=
  match a.2 with
  | .lockList waiting => some waiting
  | _ => none

/-- No request is started while waiting requests are executed. -/
def NoLateStart (s : System Tid) (a : Tid × Event) : Prop :=
  ∀ _ ∈ starts a, ∀ t, (s.position t).draining = false

/-- A non-empty list is locked while the counter still is the zero that
`doneRunRequest` returned true for. -/
def ZeroIsCurrent (s : System Tid) (a : Tid × Event) : Prop :=
  ∀ waiting ∈ locks a, waiting = [] ∨ s.closure.runningRequestCounter = 0

/-- The condition for exclusive access on the state before each step. -/
def Undisturbed (s : System Tid) (a : Tid × Event) : Prop :=
  DoneOnce s a ∧ NoLateStart s a ∧ ZeroIsCurrent s a

instance [Fintype Tid] (s : System Tid) (a : Tid × Event) : Decidable (Undisturbed s a) :=
  inferInstanceAs (Decidable (_ ∧
    (∀ _ ∈ starts a, ∀ t, (s.position t).draining = false) ∧
    ∀ waiting ∈ locks a, waiting = [] ∨ s.closure.runningRequestCounter = 0))

/-- Two requests pass the admission test. The first needs exclusive access, is
queued and executed from the list while the second is started. -/
def lateStart : List (Fin 2 × Event) :=
  [(0, .haltedForMaintenance false), (1, .haltedForMaintenance false),
   (0, .startRunRequest 0), (0, .execute 0 false), (0, .lock),
   (0, .setWaitForExclusiveAccess true), (0, .pushBack 0), (0, .doneRunRequest 0 true),
   (0, .haltedForMaintenance true), (0, .lockList [0]),
   (1, .startRunRequest 1),
   (0, .executeWaiting 0 true)]

/-- The first request brings the counter to zero. Before its thread tests the
flag, two requests are started and one of them is queued; it is executed from the
list while the other one is running. -/
def staleZero : List (Fin 3 × Event) :=
  [(0, .haltedForMaintenance false), (1, .haltedForMaintenance false),
   (2, .haltedForMaintenance false), (0, .startRunRequest 0), (0, .execute 0 true),
   (0, .getDelegateRequests 0 false), (0, .reply), (0, .doneRunRequest 0 true),
   (1, .startRunRequest 1), (2, .startRunRequest 2), (1, .execute 1 false), (1, .lock),
   (1, .setWaitForExclusiveAccess true), (1, .pushBack 1), (0, .haltedForMaintenance true),
   (0, .lockList [1]), (0, .executeWaiting 1 true)]

theorem exclusiveAccess_fails :
    ((StepSystem.run step (initial (Fin 2)) lateStart).isSome = true ∧
      ¬StepSystem.Along step ExclusiveAccess (initial (Fin 2)) lateStart) ∧
    ((StepSystem.run step (initial (Fin 3)) staleZero).isSome = true ∧
      ¬StepSystem.Along step ExclusiveAccess (initial (Fin 3)) staleZero) := by
  decide

/-! ## Runs without late starts -/

variable [DecidableEq Tid] {s s₁ s' : System Tid} {t : Tid} {e : Event}

/-- While waiting requests are executed no request is running. -/
def Alone (s : System Tid) : Prop :=
  ∀ t, (s.position t).draining = true → s.running = []

theorem Frame.resume_draining (f : Frame) : f.resume.draining = false := by
  cases f <;> rfl

theorem Frame.unwind_draining (f : Frame) : f.unwind.draining = false := by
  cases f <;> rfl

theorem control_draining {p p' : Position} (h : control p e = some p')
    (hd : p'.draining = true) :
    p.draining = true ∨ ∃ waiting, e = .lockList waiting ∧ waiting ≠ [] := by
  unfold control at h
  split at h
  all_goals simp only [Option.ite_none_right_eq_some, Option.some.injEq, reduceCtorEq] at h
  all_goals rcases h with ⟨rfl, rfl⟩
  all_goals try split at hd
  all_goals try simp only [Frame.resume_draining, Frame.unwind_draining, reduceCtorEq] at hd
  all_goals first
    | cases hd
    | exact .inl rfl
    | (rename_i waiting; cases waiting <;> simp_all [Position.draining])

theorem alone_step (inv : Alone s) (acc : Accounted s) (ok : Undisturbed s (t, e))
    (h : step s (t, e) = some s') : Alone s' := by
  obtain ⟨p, s₁, hp, hs, rfl⟩ := step_eq_some.mp h
  have hpos : s₁.position = s.position := effect_position hs
  intro u hu
  rw [goto_running]
  -- a thread that drains afterwards drained before, or locks a non-empty list now
  have drained : s.running = [] ∧ (∃ u, (s.position u).draining = true) ∨
      ∃ waiting, e = .lockList waiting ∧ waiting ≠ [] := by
    by_cases hut : u = t
    · subst hut
      rw [goto_position_self] at hu
      rcases control_draining hp hu with hold | hnew
      · exact .inl ⟨inv u hold, u, hold⟩
      · exact .inr hnew
    · rw [goto_position_of_ne s₁ p hut, hpos] at hu
      exact .inl ⟨inv u hu, u, hu⟩
  rcases drained with ⟨hempty, v, hv⟩ | ⟨waiting, rfl, hne⟩
  · rcases effect_running hs with ⟨r, rfl, -, -, -⟩ | ⟨r, zero, rfl, -, hrun⟩ | ⟨-, -, -, hrun⟩
    · have := ok.2.1 r rfl v
      simp [hv] at this
    · simp [hrun, hempty]
    · exact hrun.trans hempty
  · rcases effect_running hs with ⟨r, he, -, -, -⟩ | ⟨r, zero, he, -, -⟩ | ⟨-, -, -, hrun⟩
    · cases he
    · cases he
    · rcases ok.2.2 waiting rfl with hnil | hzero
      · exact (hne hnil).elim
      · have hlen : (s.running.length : Int) = 0 := acc.symm.trans hzero
        rw [hrun]
        exact List.length_eq_zero_iff.mp (by exact_mod_cast hlen)

omit [DecidableEq Tid] in
theorem exclusiveAccess_of_alone (inv : Alone s) (a : Tid × Event) : ExclusiveAccess s a := by
  intro r hr other hother
  have hdrain : (s.position a.1).draining = true := by
    unfold executes at hr
    split at hr
    · rename_i hpos _
      simp [hpos, Position.draining]
    · cases hr
  simp [inv a.1 hdrain] at hother

/-- Whatever the number of threads and the order of their steps, a queued request
is executed alone, as long as no step starts a request beside it. -/
theorem exclusiveAccess_of_undisturbed (acts : List (Tid × Event))
    (ok : StepSystem.Along step Undisturbed (initial Tid) acts) :
    StepSystem.Along step ExclusiveAccess (initial Tid) acts := by
  refine StepSystem.invariant_along (fun s => Accounted s ∧ Alone s) ?_ ?_ ?_ ok
  · rintro s ⟨t, e⟩ s' ⟨acc, alone⟩ hok hstep
    exact ⟨accounted_step acc hok.1 hstep, alone_step alone acc hok hstep⟩
  · rintro s a ⟨-, alone⟩ -
    exact exclusiveAccess_of_alone alone a
  · exact ⟨accounted_initial, by simp [Alone, initial, Position.draining]⟩

/-- A request that needs exclusive access, queued while another one is running. -/
def queuedBehindOther : List (Fin 2 × Event) :=
  [(1, .haltedForMaintenance false), (0, .haltedForMaintenance false),
   (1, .startRunRequest 0), (0, .startRunRequest 1), (0, .execute 1 false), (0, .lock),
   (0, .setWaitForExclusiveAccess true), (0, .pushBack 1), (0, .doneRunRequest 1 false),
   (1, .execute 0 true), (1, .getDelegateRequests 0 false), (1, .reply),
   (1, .doneRunRequest 0 true), (1, .haltedForMaintenance true), (1, .lockList [1]),
   (1, .executeWaiting 1 true), (1, .reply), (1, .clear),
   (1, .setWaitForExclusiveAccess false)]

theorem exclusiveAccess_queuedBehindOther :
    (StepSystem.run step (initial (Fin 2)) queuedBehindOther).isSome = true ∧
      StepSystem.Along step ExclusiveAccess (initial (Fin 2)) queuedBehindOther :=
  ⟨by decide, exclusiveAccess_of_undisturbed queuedBehindOther (by decide)⟩

end StrusWebService.Service
