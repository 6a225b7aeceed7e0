import StrusWebService.Service.Queue
import Mathlib.Algebra.BigOperators.Group.Finset.Basic
import Mathlib.Algebra.Order.BigOperators.Group.Finset
import Mathlib.Algebra.Group.Nat.Defs

/-! # Progress of the worker threads

The only statements a thread can block at are the two locks of the waiting list.
The holder of the mutex has a bounded number of statements left until it releases
it, and they block nowhere, so nobody waits forever. A thread has a bounded number
of statements left until something comes from outside, a request, an answer or the
termination of a delegate: the number of steps of a run is bounded by how much comes.
-/

namespace StrusWebService.Service

/-! ## The statements of a thread -/

/-- A statement that the outside triggers: a request or an answer arrives at an
idle thread, a delegate context signals its termination. -/
def Position.triggers : Position → Event → Bool
  | .idle, _ => true
  | .issuing _, .doneRunRequest _ _ | .answering _, .doneRunRequest _ _ => true
  | _, _ => false

/-- The step is taken on the thread's own account. -/
def Pursues {Tid : Type*} (s : System Tid) (a : Tid × Event) : Prop :=
  (s.position a.1).triggers a.2 = false

instance {Tid : Type*} (s : System Tid) (a : Tid × Event) : Decidable (Pursues s a) :=
  inferInstanceAs (Decidable (_ = _))

/-- Statements left after `processWaitingRequests`. -/
def Frame.rest : Frame → Nat
  | .tail => 0
  | .issuing _ => 2
  | .answering _ => 1

/-- Statements left in the scope of the lock. -/
def Position.scope : Position → Nat
  | .flagging _ => 2
  | .pushing _ => 1
  | .processing _ waiting => 2 * waiting.length + 2
  | .reporting _ waiting => 2 * waiting.length + 3
  | .releasing _ => 1
  | _ => 0

/-- A bound on the statements left until the thread is idle, when no more than
`bound` requests can wait. -/
def Position.rest (bound : Nat) : Position → Nat
  | .idle => 0
  | .admitted => 2 * bound + 10
  | .executing _ => 2 * bound + 9
  | .executed _ => 2 * bound + 7
  | .replying _ => 2 * bound + 6
  | .failed _ => 2 * bound + 8
  | .flagging _ => 2 * bound + 7
  | .pushing _ => 2 * bound + 6
  | .closing _ => 2 * bound + 5
  | .catching _ => 1
  | .issuing _ => 2
  | .answering _ => 1
  | .testing f => 2 * bound + 4 + f.rest
  | .locking f => 2 * bound + 3 + f.rest
  | .processing f waiting => 2 * waiting.length + 2 + f.rest
  | .reporting f waiting => 2 * waiting.length + 3 + f.rest
  | .releasing f => 1 + f.rest

/-- The thread may still put a request on the waiting list. -/
def Position.mayPush : Position → Bool
  | .admitted | .executing _ | .failed _ | .flagging _ | .pushing _ => true
  | _ => false

theorem Frame.resume_rest (f : Frame) (bound : Nat) : f.resume.rest bound = f.rest := by
  cases f <;> rfl

theorem Frame.unwind_rest (f : Frame) (bound : Nat) : f.unwind.rest bound ≤ f.rest := by
  cases f <;> simp [Frame.unwind, Frame.rest, Position.rest]

theorem Frame.resume_mayPush (f : Frame) : f.resume.mayPush = false := by
  cases f <;> rfl

theorem Frame.unwind_mayPush (f : Frame) : f.unwind.mayPush = false := by
  cases f <;> rfl

theorem rest_mono {bound bound' : Nat} (h : bound ≤ bound') (p : Position) :
    p.rest bound ≤ p.rest bound' := by
  cases p <;> simp only [Position.rest] <;> omega

/-- What a statement leaves of the thread's own account. -/
theorem control_rest {p p' : Position} {e : Event} {bound : Nat} (h : control p e = some p')
    (own : p.triggers e = false) (list : ∀ waiting, e = .lockList waiting → waiting.length ≤ bound) :
    p'.rest bound < p.rest bound := by
  unfold control at h
  split at h
  all_goals simp only [Option.ite_none_right_eq_some, Option.some.injEq, reduceCtorEq] at h
  all_goals rcases h with ⟨rfl, rfl⟩
  all_goals try split
  all_goals simp only [Position.triggers, reduceCtorEq] at own
  all_goals first
    | (simp only [Position.rest, List.length_cons]; omega)
    | (simp only [Position.rest, Frame.rest]; omega)
    | (rw [Frame.resume_rest]; simp only [Position.rest]; omega)
    | (refine Nat.lt_of_le_of_lt (Frame.unwind_rest _ bound) ?_
       simp only [Position.rest, List.length_cons]; omega)
    | (have hlist := list _ rfl; simp only [Position.rest]; omega)

/-- No statement makes a thread push a second time. -/
theorem control_mayPush {p p' : Position} {e : Event} (h : control p e = some p')
    (own : p.triggers e = false) (hp' : p'.mayPush = true) :
    p.mayPush = true ∧ ∀ r, e ≠ .pushBack r := by
  unfold control at h
  split at h
  all_goals simp only [Option.ite_none_right_eq_some, Option.some.injEq, reduceCtorEq] at h
  all_goals rcases h with ⟨rfl, rfl⟩
  all_goals try split at hp'
  all_goals try simp only [Frame.resume_mayPush, Frame.unwind_mayPush, reduceCtorEq] at hp'
  all_goals simp_all [Position.triggers, Position.mayPush]

theorem Frame.resume_scope (f : Frame) : f.resume.scope = 0 := by
  cases f <;> rfl

theorem Frame.unwind_scope (f : Frame) : f.unwind.scope = 0 := by
  cases f <;> rfl

/-- A statement in the scope of the lock leaves fewer of them, or none when it is left. -/
theorem control_scope {p p' : Position} {e : Event} (h : control p e = some p')
    (hp : p.holdsMutex = true) : p'.scope < p.scope := by
  unfold control at h
  split at h
  all_goals simp only [Option.ite_none_right_eq_some, Option.some.injEq, reduceCtorEq] at h
  all_goals rcases h with ⟨rfl, rfl⟩
  all_goals try cases hp
  all_goals try rw [Frame.resume_scope]
  all_goals try rw [Frame.unwind_scope]
  all_goals simp only [Position.scope, List.length_cons]
  all_goals omega

/-! ## No thread is stuck -/

section Steps

variable {Tid : Type*} [DecidableEq Tid] {s s₁ s' : System Tid} {t : Tid} {e : Event}

/-- A statement with which the thread goes on when nothing throws. -/
def System.next (s : System Tid) : Position → Event
  | .idle => .haltedForMaintenance s.closure.haltedForMaintenance
  | .admitted => .leave
  | .executing r => .execute r true
  | .executed r => .getDelegateRequests r false
  | .replying _ | .failed _ | .reporting _ _ => .reply
  | .flagging _ => .setWaitForExclusiveAccess true
  | .pushing r => .pushBack r
  | .closing r | .catching r => .doneRunRequest r s.closure.doneRunRequest.2
  | .issuing _ | .answering _ => .returns
  | .testing _ => .haltedForMaintenance s.closure.haltedForMaintenance
  | .locking _ => .lockList s.closure.waitingContextList
  | .processing _ (r :: _) => .executeWaiting r true
  | .processing _ [] => .clear
  | .releasing _ => .setWaitForExclusiveAccess false

omit [DecidableEq Tid] in
theorem next_control (s : System Tid) (p : Position) : (control p (s.next p)).isSome := by
  cases p
  case processing f waiting => cases waiting <;> simp [System.next, control]
  all_goals simp [System.next, control]

omit [DecidableEq Tid] in
theorem next_triggers (s : System Tid) {p : Position} (h : p ≠ .idle) :
    p.triggers (s.next p) = false := by
  cases p
  case idle => exact (h rfl).elim
  all_goals rfl

omit [DecidableEq Tid] in
theorem next_ne_throws (s : System Tid) (p : Position) : s.next p ≠ .throws := by
  cases p
  case processing f waiting => cases waiting <;> simp [System.next]
  all_goals simp [System.next]

/-- The two statements that wait for the mutex. -/
def Event.locks : Event → Bool
  | .lock | .lockList _ => true
  | _ => false

/-- What comes next is one of them, or may be after a failed execution. -/
def Position.atLock : Position → Bool
  | .failed _ | .locking _ => true
  | _ => false

/-- The results of the statement are those it would observe now. -/
def System.Observes (s : System Tid) : Event → Prop
  | .haltedForMaintenance halted => s.closure.haltedForMaintenance = halted
  | .startRunRequest r => r = s.started
  | .doneRunRequest _ zero => s.closure.doneRunRequest.2 = zero
  | .lockList waiting => s.closure.waitingContextList = waiting
  | .putAnswer r => r ∈ s.delegated
  | _ => True

/-- The thread has come to this statement, which does not throw. -/
structure System.StandsBefore (s : System Tid) (t : Tid) (e : Event) : Prop where
  own : Pursues s (t, e)
  reached : (control (s.position t) e).isSome
  ends : e ≠ .throws
  observed : s.Observes e

/-- The thread has come to a statement, and can execute whichever it is. -/
structure System.GoesOn (s : System Tid) (t : Tid) : Prop where
  stands : ∃ e, s.StandsBefore t e
  steps : ∀ e, s.StandsBefore t e → (step s (t, e)).isSome

omit [DecidableEq Tid] in
theorem next_observed (s : System Tid) {p : Position} (h : p ≠ .idle) : s.Observes (s.next p) := by
  cases p
  case idle => exact (h rfl).elim
  case processing f waiting => cases waiting <;> trivial
  all_goals trivial

omit [DecidableEq Tid] in
theorem next_stands (busy : s.position t ≠ .idle) : s.StandsBefore t (s.next (s.position t)) where
  own := next_triggers s busy
  reached := next_control s _
  ends := next_ne_throws s _
  observed := next_observed s busy

theorem atLock_of_locks {p p' : Position} (h : control p e = some p') (locks : e.locks = true) :
    p.atLock = true := by
  unfold control at h
  split at h
  all_goals simp_all [Event.locks, Position.atLock]

theorem effect_isSome (t : Tid) (free : e.locks = true → s.closure.mutexWaitingContextList = none)
    (observed : s.Observes e) : (effect s t e).isSome := by
  cases e
  case lock => simp [effect, ServiceClosure.lock, free rfl]
  case lockList waiting =>
    simp only [System.Observes] at observed
    simp [effect, ServiceClosure.lock, free rfl, observed]
  case setWaitForExclusiveAccess value => cases value <;> rfl
  all_goals simp_all [effect, System.Observes]

/-- Only at a lock, and only if the mutex is taken, a thread cannot go on. -/
theorem goesOn_of_free (busy : s.position t ≠ .idle)
    (free : (s.position t).atLock = true → s.closure.mutexWaitingContextList = none) :
    s.GoesOn t where
  stands := ⟨_, next_stands busy⟩
  steps := by
    intro e h
    obtain ⟨p, hp⟩ := Option.isSome_iff_exists.mp h.reached
    have heffect : (effect s t e).isSome := by
      apply effect_isSome t _ h.observed
      intro locks
      exact free (atLock_of_locks hp locks)
    obtain ⟨s₁, hs⟩ := Option.isSome_iff_exists.mp heffect
    exact Option.isSome_iff_exists.mpr ⟨s₁.goto t p, step_eq_some.mpr ⟨p, s₁, hp, hs, rfl⟩⟩

theorem Position.not_atLock {p : Position} (held : p.holdsMutex = true) : p.atLock = false := by
  cases p <;> first
    | rfl
    | cases held

/-- A busy thread can go on, or it waits for the mutex and the thread that holds it can. -/
theorem goesOn_of_busy (mutex : MutexHeld s) (busy : s.position t ≠ .idle) :
    s.GoesOn t ∨ (s.position t).atLock = true ∧
      ∃ u, u ≠ t ∧ s.closure.mutexWaitingContextList = some u ∧ s.GoesOn u := by
  cases hm : s.closure.mutexWaitingContextList with
  | none => exact .inl (goesOn_of_free busy fun _ => hm)
  | some u =>
      have held : (s.position u).holdsMutex = true := (mutex u).mp hm
      have hfree := Position.not_atLock held
      cases hlock : (s.position t).atLock with
      | false =>
          refine .inl (goesOn_of_free busy fun h => ?_)
          rw [hlock] at h
          cases h
      | true =>
          refine .inr ⟨rfl, u, ?_, rfl, goesOn_of_free ?_ fun h => ?_⟩
          · rintro rfl
            rw [hfree] at hlock
            cases hlock
          · intro hidle
            simp [hidle, Position.holdsMutex] at held
          · rw [hfree] at h
            cases h

/-! ## The scope of the lock -/

/-- While a thread is in the scope of the lock, it takes no more steps than the
scope has statements left, whatever the other threads do in between. -/
theorem scope_bounded {acts : List (Tid × Event)}
    (inside : StepSystem.Along step (fun s _ => (s.position t).holdsMutex = true) s acts)
    (h : StepSystem.run step s acts = some s') :
    acts.countP (fun a => decide (a.1 = t)) + (s'.position t).scope ≤ (s.position t).scope := by
  refine StepSystem.countP_add_measure_le _ (fun s => (s.position t).scope) ?_ inside h
  rintro s ⟨u, e⟩ s' hheld hstep
  obtain ⟨p, s₁, hp, hs, rfl⟩ := step_eq_some.mp hstep
  by_cases hut : u = t
  · subst hut
    have hless := control_scope hp hheld
    rw [goto_position_self]
    simp only [decide_true, Bool.toNat_true]
    omega
  · rw [goto_position_of_ne s₁ p (Ne.symm hut), effect_position hs]
    simp [hut]

/-- What a thread in the loop has still to execute is the end of the list. -/
def EndOfList (s : System Tid) : Prop :=
  ∀ t waiting, (s.position t).remaining = some waiting →
    waiting <:+ s.closure.waitingContextList

omit [DecidableEq Tid] in
theorem endOfList_initial : EndOfList (initial Tid) := by
  simp [EndOfList, initial, Position.remaining]

theorem Frame.unwind_remaining (f : Frame) : f.unwind.remaining = none := by
  cases f <;> rfl

theorem control_throws_remaining {p p' : Position} (h : control p .throws = some p') :
    p'.remaining = none := by
  cases p <;> try cases h <;> rfl
  case processing f waiting =>
    cases waiting <;> cases h
    exact Frame.unwind_remaining f
  case reporting f waiting =>
    cases h
    exact Frame.unwind_remaining f

/-- Nobody changes the list while a thread is in the loop. -/
theorem list_same {p : Position} (mutex : MutexHeld s) (hp : control (s.position t) e = some p)
    (hs : effect s t e = some s₁) {u : Tid} (hu : (s.position u).remaining ≠ none)
    (hclear : u = t → e ≠ .clear) :
    s₁.closure.waitingContextList = s.closure.waitingContextList := by
  obtain ⟨waiting, hw⟩ := Option.ne_none_iff_exists'.mp hu
  have held := holdsMutex_of_remaining hw
  rcases effect_list hs with ⟨r, rfl, -⟩ | ⟨rfl, -⟩ | ⟨-, -, hsame⟩
  · have hq := (control_pushBack hp).1
    obtain rfl : u = t := mutex.unique held (by rw [hq]; rfl)
    simp [hq, Position.remaining] at hw
  · obtain ⟨f, hq, -⟩ := control_clear hp
    exact (hclear (mutex.unique held (by rw [hq]; rfl)) rfl).elim
  · exact hsame

theorem endOfList_step (inv : EndOfList s) (mutex : MutexHeld s)
    (h : step s (t, e) = some s') : EndOfList s' := by
  obtain ⟨p, s₁, hp, hs, rfl⟩ := step_eq_some.mp h
  intro u waiting hw
  rw [goto_closure]
  by_cases hut : u = t
  · subst hut
    rw [goto_position_self] at hw
    by_cases ht : e = .throws
    · subst ht
      simp [control_throws_remaining hp] at hw
    · rcases control_remaining hp ht with ⟨hsame, -, -, hne⟩ | ⟨w, rfl, hw'⟩ |
        ⟨r, b, w, rfl, hq, hw'⟩ | ⟨-, -, hw'⟩
      · rw [hsame] at hw
        rw [list_same mutex hp hs (u := u) (by simp [hw]) fun _ => hne]
        exact inv u waiting hw
      · rw [hw', Option.some.injEq] at hw
        rcases effect_list hs with ⟨_, he, -⟩ | ⟨he, -⟩ | ⟨-, -, hlist⟩
        · cases he
        · cases he
        · rw [← hw, hlist, (effect_lockList hs).1]
      · rw [hw', Option.some.injEq] at hw
        rw [list_same mutex hp hs (u := u) (by simp [hq]) fun _ => by simp, ← hw]
        exact (List.suffix_cons r w).trans (inv u (r :: w) hq)
      · simp [hw'] at hw
  · rw [others_remaining hs hut] at hw
    rw [list_same mutex hp hs (u := u) (by simp [hw]) fun h => (hut h).elim]
    exact inv u waiting hw

theorem locked_run {acts : List (Tid × Event)}
    (h : StepSystem.run step (initial Tid) acts = some s) : MutexHeld s ∧ EndOfList s :=
  StepSystem.invariant_of_step (fun s => MutexHeld s ∧ EndOfList s)
    (fun _ _ _ inv hstep => ⟨mutexHeld_step inv.1 hstep, endOfList_step inv.2 inv.1 hstep⟩)
    ⟨mutexHeld_initial, endOfList_initial⟩ h

/-- In every run: a busy thread can execute whatever statement it has come to, or it waits
at a lock for the mutex and another thread, which holds the mutex, can go on. -/
theorem no_deadlock (acts : List (Tid × Event))
    (h : StepSystem.run step (initial Tid) acts = some s) (busy : s.position t ≠ .idle) :
    s.GoesOn t ∨ (s.position t).atLock = true ∧
      ∃ u, u ≠ t ∧ s.closure.mutexWaitingContextList = some u ∧ s.GoesOn u :=
  goesOn_of_busy (locked_run h).1 busy

/-- A thread waits while another one queues its request. -/
def contended : List (Fin 2 × Event) :=
  [(0, .haltedForMaintenance false), (1, .haltedForMaintenance false), (1, .startRunRequest 0),
   (1, .execute 0 true), (1, .getDelegateRequests 0 false), (1, .reply),
   (1, .doneRunRequest 0 true), (0, .startRunRequest 1), (0, .execute 1 false), (0, .lock),
   (0, .setWaitForExclusiveAccess true), (1, .haltedForMaintenance true)]

theorem no_deadlock_contended :
    ∃ s, StepSystem.run step (initial (Fin 2)) contended = some s ∧
      s.position 1 = .locking .tail ∧ s.closure.mutexWaitingContextList = some 0 ∧
      (s.GoesOn 1 ∨ (s.position 1).atLock = true ∧
        ∃ u, u ≠ 1 ∧ s.closure.mutexWaitingContextList = some u ∧ s.GoesOn u) :=
  ⟨_, rfl, rfl, rfl, no_deadlock contended rfl (by decide)⟩

omit [DecidableEq Tid] in
theorem scope_le (fits : EndOfList s) (t : Tid) :
    (s.position t).scope ≤ 2 * s.closure.waitingContextList.length + 3 := by
  have hlist := fits t
  cases hp : s.position t
  case processing f waiting | reporting f waiting =>
    have hle := (hlist waiting (by rw [hp]; rfl)).length_le
    simp only [Position.scope]
    omega
  all_goals simp only [Position.scope]; omega

/-- In every run: a thread in the scope of the lock leaves it after a bounded number of
its own steps, whatever the other threads do in between. -/
theorem lock_released (before acts : List (Tid × Event))
    (hbefore : StepSystem.run step (initial Tid) before = some s)
    (inside : StepSystem.Along step (fun s _ => (s.position t).holdsMutex = true) s acts)
    (h : StepSystem.run step s acts = some s') :
    acts.countP (fun a => decide (a.1 = t)) ≤ 2 * s.closure.waitingContextList.length + 3 := by
  have hcount := scope_bounded inside h
  have hscope := scope_le (locked_run hbefore).2 t
  omega

theorem lock_released_contended :
    ∃ s s', StepSystem.run step (initial (Fin 2)) contended = some s ∧
      StepSystem.run step s [(0, .pushBack 1)] = some s' ∧
      [((0 : Fin 2), Event.pushBack 1)].countP (fun a => decide (a.1 = 0)) ≤
        2 * s.closure.waitingContextList.length + 3 :=
  ⟨_, _, rfl, rfl, lock_released contended [(0, .pushBack 1)] rfl ⟨by decide, trivial⟩ rfl⟩

/-! ## The service runs empty -/

section Drain

variable [Fintype Tid]

/-- Requests waiting now or put on the list later by the threads already admitted. -/
def pending (s : System Tid) : Nat :=
  s.closure.waitingContextList.length + ∑ t, (s.position t).mayPush.toNat

/-- A bound on the steps left when this many requests, answers and terminations come. -/
def work (arriving : Nat) (s : System Tid) : Nat :=
  ∑ t, (s.position t).rest (pending s + arriving) + arriving * (2 * (pending s + arriving) + 11)

/-- Two sums over the threads that differ in one of them. -/
theorem sum_add_of_eq_of_ne {f g : Tid → Nat} (h : ∀ u, u ≠ t → g u = f u) :
    ∑ u, g u + f t = ∑ u, f u + g t := by
  have hg := Finset.add_sum_erase Finset.univ g (Finset.mem_univ t)
  have hf := Finset.add_sum_erase Finset.univ f (Finset.mem_univ t)
  have hothers : ∑ u ∈ Finset.univ.erase t, g u = ∑ u ∈ Finset.univ.erase t, f u :=
    Finset.sum_congr rfl fun u hu => h u (Finset.ne_of_mem_erase hu)
  omega

theorem pending_step (h : step s (t, e) = some s') :
    pending s' ≤ pending s + ((s.position t).triggers e).toNat := by
  obtain ⟨p, s₁, hp, hs, rfl⟩ := step_eq_some.mp h
  have hsum := sum_add_of_eq_of_ne (t := t)
    (f := fun u => (s.position u).mayPush.toNat)
    (g := fun u => ((s₁.goto t p).position u).mayPush.toNat)
    (fun u hut => by rw [goto_position_of_ne s₁ p hut, effect_position hs])
  simp only [goto_position_self] at hsum
  have hle : p.mayPush.toNat ≤ (s.position t).mayPush.toNat + ((s.position t).triggers e).toNat := by
    cases hown : (s.position t).triggers e with
    | true => exact (Bool.toNat_le _).trans (Nat.le_add_left _ _)
    | false =>
        cases hm : p.mayPush with
        | false => exact Nat.zero_le _
        | true => rw [(control_mayPush hp hown hm).1]; exact Nat.le_add_right _ _
  unfold pending
  rw [goto_closure]
  rcases effect_list hs with ⟨r, rfl, hlist⟩ | ⟨-, hlist⟩ | ⟨-, -, hlist⟩
  · have hq := (control_pushBack hp).1
    have hp' := (control_pushBack hp).2
    have hone : (s.position t).mayPush.toNat = 1 := by rw [hq]; rfl
    have hzero : p.mayPush.toNat = 0 := by rw [hp']; rfl
    rw [hlist, List.length_append, List.length_singleton]
    omega
  · rw [hlist, List.length_nil]
    omega
  · rw [hlist]
    omega

omit [DecidableEq Tid] in
theorem length_le_pending (s : System Tid) :
    s.closure.waitingContextList.length ≤ pending s := Nat.le_add_right ..

/-- What a step from outside adds to the statements left is a request at most. -/
theorem control_rest_le {p p' : Position} (bound : Nat) (h : control p e = some p')
    (triggered : p.triggers e = true) : p'.rest bound ≤ p.rest bound + (2 * bound + 10) := by
  unfold control at h
  split at h
  all_goals simp only [Option.ite_none_right_eq_some, Option.some.injEq, reduceCtorEq] at h
  all_goals simp only [Position.triggers, reduceCtorEq] at triggered
  all_goals rcases h with ⟨rfl, rfl⟩
  all_goals try split
  all_goals simp only [Position.rest, Frame.rest]
  all_goals omega

/-- A step takes the statements left down, or adds those of a request. -/
theorem rest_step (bound : Nat) (hbound : pending s ≤ bound) (h : step s (t, e) = some s') :
    (∑ u, (s'.position u).rest bound) + 1 ≤
      ∑ u, (s.position u).rest bound + ((s.position t).triggers e).toNat * (2 * bound + 11) := by
  obtain ⟨p, s₁, hp, hs, rfl⟩ := step_eq_some.mp h
  have hsum := sum_add_of_eq_of_ne (t := t)
    (f := fun u => (s.position u).rest bound)
    (g := fun u => ((s₁.goto t p).position u).rest bound)
    (fun u hut => by rw [goto_position_of_ne s₁ p hut, effect_position hs])
  simp only [goto_position_self] at hsum
  cases hown : (s.position t).triggers e with
  | true =>
      have hmore := control_rest_le bound hp hown
      simp only [Bool.toNat_true, Nat.one_mul]
      omega
  | false =>
      have hless : p.rest bound < (s.position t).rest bound := by
        refine control_rest hp hown ?_
        rintro waiting rfl
        rw [← (effect_lockList hs).1]
        exact (length_le_pending s).trans hbound
      simp only [Bool.toNat_false, Nat.zero_mul]
      omega

/-- Every step takes the work down, one from outside that of what has been to come. -/
theorem work_step (arriving : Nat) (h : step s (t, e) = some s') :
    work arriving s' < work (arriving + ((s.position t).triggers e).toNat) s := by
  have hpending := pending_step h
  generalize hcount : ((s.position t).triggers e).toNat = count at hpending ⊢
  have hbound : pending s' + arriving ≤ pending s + (arriving + count) := by omega
  have hstep := rest_step (pending s + (arriving + count)) (Nat.le_add_right _ _) h
  rw [hcount] at hstep
  have hrest : ∑ u, (s'.position u).rest (pending s' + arriving) ≤
      ∑ u, (s'.position u).rest (pending s + (arriving + count)) :=
    Finset.sum_le_sum fun u _ => rest_mono hbound _
  have harriving : arriving * (2 * (pending s' + arriving) + 11) ≤
      arriving * (2 * (pending s + (arriving + count)) + 11) :=
    Nat.mul_le_mul_left _ (by omega)
  unfold work
  rw [Nat.add_mul arriving count]
  omega

theorem rest_le {bound : Nat} {p : Position}
    (fits : ∀ waiting, p.remaining = some waiting → waiting.length ≤ bound) :
    p.rest bound ≤ 2 * bound + 10 := by
  have hframe : ∀ f : Frame, f.rest ≤ 2 := fun f => by cases f <;> simp [Frame.rest]
  cases p
  case processing f waiting =>
    have hwaiting := fits waiting rfl
    have := hframe f
    simp only [Position.rest]
    omega
  case reporting f waiting =>
    have hwaiting := fits waiting rfl
    have := hframe f
    simp only [Position.rest]
    omega
  case testing f | locking f | releasing f =>
    have := hframe f
    simp only [Position.rest]
    omega
  all_goals simp only [Position.rest]; omega

omit [DecidableEq Tid] in
theorem work_le (fits : EndOfList s) (arriving : Nat) :
    work arriving s ≤
      Fintype.card Tid *
        (2 * (s.closure.waitingContextList.length + Fintype.card Tid + arriving) + 10) +
      arriving * (2 * (s.closure.waitingContextList.length + Fintype.card Tid + arriving) + 11) := by
  have hpush : ∑ t, (s.position t).mayPush.toNat ≤ Fintype.card Tid := by
    refine (Finset.sum_le_card_nsmul _ _ 1 fun t _ => Bool.toNat_le _).trans ?_
    simp
  have hpending : pending s + arriving ≤
      s.closure.waitingContextList.length + Fintype.card Tid + arriving := by
    unfold pending
    omega
  have hrest : ∑ t, (s.position t).rest (pending s + arriving) ≤
      Fintype.card Tid * (2 * (pending s + arriving) + 10) := by
    refine (Finset.sum_le_card_nsmul _ _ _ fun t _ => rest_le fun waiting hw =>
      ((fits t waiting hw).length_le.trans (length_le_pending s)).trans (Nat.le_add_right _ _)).trans ?_
    rw [Nat.nsmul_eq_mul, Finset.card_univ]
  refine Nat.add_le_add (hrest.trans (Nat.mul_le_mul_left _ ?_)) (Nat.mul_le_mul_left _ ?_)
  · omega
  · omega

/-- The requests and answers that arrive in a run and the terminations that delegate
contexts signal in it. -/
def arrivals (s : System Tid) (acts : List (Tid × Event)) : Nat :=
  StepSystem.tally step (fun (s : System Tid) (a : Tid × Event) => (s.position a.1).triggers a.2) s acts

/-- In every run, from any moment on: the threads together take a number of steps that is
bounded by what arrives, and when none can take a step of its own, every thread is idle. -/
theorem runs_empty (before acts : List (Tid × Event))
    (hbefore : StepSystem.run step (initial Tid) before = some s)
    (h : StepSystem.run step s acts = some s') :
    acts.length ≤
      Fintype.card Tid * (2 * (s.closure.waitingContextList.length + Fintype.card Tid +
        arrivals s acts) + 10) +
      arrivals s acts * (2 * (s.closure.waitingContextList.length + Fintype.card Tid +
        arrivals s acts) + 11) ∧
    ((∀ a, Pursues s' a → step s' a = none) → ∀ t, s'.position t = .idle) := by
  constructor
  · have hdrop : ∀ n (s : System Tid) a s', step s a = some s' →
        work n s' < work (n + ((s.position a.1).triggers a.2).toNat) s :=
      fun n s a s' hstep => work_step n hstep
    have hlength : acts.length + work 0 s' ≤ work (arrivals s acts) s :=
      StepSystem.length_add_measure_le_tally _ work hdrop h
    have hbound := work_le (locked_run hbefore).2 (arrivals s acts)
    omega
  · intro stopped t
    by_contra busy
    have hstuck : ∀ u, ¬ s'.GoesOn u := by
      intro u hu
      obtain ⟨e, he⟩ := hu.stands
      have hstep := hu.steps e he
      rw [stopped _ he.own] at hstep
      cases hstep
    have hrun := (locked_run (StepSystem.run_append hbefore h)).1
    rcases goesOn_of_busy hrun busy with hgo | ⟨-, u, -, -, hgo⟩
    · exact hstuck t hgo
    · exact hstuck u hgo

def drained : List (Fin 2 × Event) :=
  [(0, .pushBack 1), (1, .lockList [1]), (0, .doneRunRequest 1 true), (1, .executeWaiting 1 true),
   (0, .haltedForMaintenance true), (1, .reply), (1, .clear), (1, .setWaitForExclusiveAccess false),
   (0, .lockList []), (0, .clear), (0, .setWaitForExclusiveAccess false)]

theorem runs_empty_contended :
    ∃ s s', StepSystem.run step (initial (Fin 2)) contended = some s ∧
      StepSystem.run step s drained = some s' ∧
      drained.length ≤
        Fintype.card (Fin 2) * (2 * (s.closure.waitingContextList.length + Fintype.card (Fin 2) +
          arrivals s drained) + 10) +
        arrivals s drained * (2 * (s.closure.waitingContextList.length + Fintype.card (Fin 2) +
          arrivals s drained) + 11) ∧
      ((∀ a, Pursues s' a → step s' a = none) → ∀ t, s'.position t = .idle) :=
  ⟨_, _, rfl, rfl, runs_empty contended drained rfl rfl⟩

end Drain

end Steps

end StrusWebService.Service
