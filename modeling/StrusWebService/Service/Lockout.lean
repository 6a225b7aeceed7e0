import StrusWebService.Service.Waiting
import Mathlib.Data.Fintype.Basic

/-! # Who processes the waiting list

A set flag is taken care of as long as a request is running, because the last
one to terminate tests the flag, or a thread is already on its way from such a
termination through `processWaitingRequests`. Every normal path hands over in
this way. The catch blocks of `runRequest` ignore the result of `doneRunRequest`,
and an exception inside `processWaitingRequests` leaves the list and the flag as
they are; the service stays closed if nobody else takes care of the flag then.
-/

namespace StrusWebService.Service

variable {Tid : Type*}

/-- Between a `doneRunRequest` that returned true and the end of `processWaitingRequests`. -/
def Position.attending (p : Position) : Bool := p.frame.isSome

/-- Neither inside `runRequest` nor on the way through `processWaitingRequests`. -/
def Position.outside : Position → Bool
  | .idle | .admitted | .answering _ => true
  | _ => false

/-- No request is running and no thread is inside the protocol. -/
def Quiescent (s : System Tid) : Prop :=
  s.closure.runningRequestCounter = 0 ∧ ∀ t, (s.position t).outside = true

/-- The service accepts requests and none is waiting. -/
def Open (s : System Tid) : Prop :=
  s.closure.waitingContextList = [] ∧ s.closure.waitForExclusiveAccess = false

/-- Someone will test the flag, if it is set. -/
def Attended (s : System Tid) : Prop :=
  s.closure.waitForExclusiveAccess = true →
    s.running ≠ [] ∨ ∃ t, (s.position t).attending = true

/-- The request that stops running when this action ends a path without handing
over: the `doneRunRequest` of a catch block, or nothing (`none`) when an exception
leaves `processWaitingRequests`. -/
def abandons (s : System Tid) (a : Tid × Event) : Option (Option Request) :=
  match s.position a.1, a.2 with
  | .catching _, .doneRunRequest r _ => some (some r)
  | .processing _ _, .throws | .reporting _ _, .throws => some none
  | _, _ => none

/-- Where a path ends without handing over, the flag is clear, another request
is running, or another thread attends to the flag. -/
def HandsOver (s : System Tid) (a : Tid × Event) : Prop :=
  ∀ gone ∈ abandons s a, s.closure.waitForExclusiveAccess = false ∨
    (∃ r ∈ s.running, gone ≠ some r) ∨ ∃ t, t ≠ a.1 ∧ (s.position t).attending = true

/-- The condition under which the service is never locked out. -/
def Relayed (s : System Tid) (a : Tid × Event) : Prop :=
  DoneOnce s a ∧ HandsOver s a

instance [Fintype Tid] [DecidableEq Tid] (s : System Tid) (a : Tid × Event) :
    Decidable (Relayed s a) :=
  inferInstanceAs (Decidable (_ ∧ ∀ gone ∈ abandons s a,
    s.closure.waitForExclusiveAccess = false ∨ (∃ r ∈ s.running, gone ≠ some r) ∨
      ∃ t, t ≠ a.1 ∧ (s.position t).attending = true))

/-- A request is queued for exclusive access; then the last running request
throws, and its catch block takes the counter to zero. -/
def throwingLast : List (Fin 2 × Event) :=
  [(0, .haltedForMaintenance false), (1, .haltedForMaintenance false),
   (0, .startRunRequest 0), (1, .startRunRequest 1), (0, .execute 0 false), (0, .lock),
   (0, .setWaitForExclusiveAccess true), (0, .pushBack 0), (0, .doneRunRequest 0 false),
   (1, .throws), (1, .doneRunRequest 1 true)]

/-- The queued request throws when it is executed from the waiting list. -/
def throwingWaiting : List (Fin 2 × Event) :=
  [(0, .haltedForMaintenance false), (0, .startRunRequest 0), (0, .execute 0 false), (0, .lock),
   (0, .setWaitForExclusiveAccess true), (0, .pushBack 0), (0, .doneRunRequest 0 true),
   (0, .haltedForMaintenance true), (0, .lockList [0]), (0, .throws)]

theorem locked_out :
    (∃ s, StepSystem.run step (initial (Fin 2)) throwingLast = some s ∧
      Quiescent s ∧ ¬Open s) ∧
    (∃ s, StepSystem.run step (initial (Fin 2)) throwingWaiting = some s ∧
      Quiescent s ∧ ¬Open s) := by
  refine ⟨⟨_, rfl, ⟨by decide, by decide⟩, fun h => ?_⟩,
    ⟨_, rfl, ⟨by decide, by decide⟩, fun h => ?_⟩⟩
  · exact absurd h.2 (by decide)
  · exact absurd h.2 (by decide)

/-! ## Runs that hand over -/

theorem not_attending_of_outside {p : Position} (h : p.outside = true) : p.attending = false := by
  cases p <;> simp_all [Position.outside, Position.attending, Position.frame]

/-- How a thread stops attending to the flag. -/
theorem control_attending {p p' : Position} {e : Event} (h : control p e = some p')
    (hp : p.attending = true) :
    p'.attending = true ∨ e = .haltedForMaintenance false ∨
      e = .setWaitForExclusiveAccess false ∨
      (e = .throws ∧ ((∃ f waiting, p = .processing f waiting) ∨
        ∃ f waiting, p = .reporting f waiting)) := by
  unfold control at h
  split at h
  all_goals simp only [Option.ite_none_right_eq_some, Option.some.injEq, reduceCtorEq] at h
  all_goals rcases h with ⟨rfl, rfl⟩
  all_goals simp_all [Position.attending, Position.frame]
  rename_i halted
  cases halted <;> simp

variable [DecidableEq Tid] {s s₁ s' : System Tid} {t : Tid} {e : Event}

theorem effect_haltedForMaintenance {halted : Bool}
    (h : effect s t (.haltedForMaintenance halted) = some s₁) :
    s₁ = s ∧ s.closure.waitForExclusiveAccess = halted := by
  obtain ⟨hallows, heq⟩ := effect_after h
  exact ⟨heq, hallows⟩

theorem effect_doneRunRequest {r : Request} {zero : Bool}
    (h : effect s t (.doneRunRequest r zero) = some s₁) :
    zero = true ↔ s.closure.runningRequestCounter = 1 := by
  have hallows : s.closure.doneRunRequest.2 = zero := (effect_after h).1
  rw [← hallows, ServiceClosure.doneRunRequest_zero]

omit [DecidableEq Tid] in
/-- The counter test of `doneRunRequest` finds the last running request. -/
theorem running_of_not_zero (acc : Accounted s) {r : Request} (hmem : r ∈ s.running)
    (h : s.closure.runningRequestCounter ≠ 1) : s.running.erase r ≠ [] := by
  intro hnil
  have hlen := List.length_erase_of_mem hmem
  have hpos := List.length_pos_of_mem hmem
  rw [hnil, List.length_nil] at hlen
  unfold Accounted at acc
  omega

theorem attended_other {u : Tid} {p : Position} (hpos : s₁.position = s.position) (hut : u ≠ t)
    (hu : (s.position u).attending = true) :
    ∃ v, ((s₁.goto t p).position v).attending = true :=
  ⟨u, by rw [goto_position_of_ne s₁ p hut, hpos]; exact hu⟩

theorem attended_step (inv : Attended s) (own : Owned s) (acc : Accounted s)
    (ok : Relayed s (t, e)) (h : step s (t, e) = some s') : Attended s' := by
  obtain ⟨p, s₁, hp, hs, rfl⟩ := step_eq_some.mp h
  have hpos : s₁.position = s.position := effect_position hs
  intro hflag
  rw [goto_closure] at hflag
  rw [goto_running]
  rcases effect_flag hs with ⟨value, rfl, hvalue⟩ | ⟨hset, hsame⟩
  · -- the flag is raised by a request that is still running
    obtain rfl : value = true := hvalue.symm.trans hflag
    obtain ⟨r, hq, -⟩ := control_raise hp
    have hkeeps : (s.position t).keeps = some r := by rw [hq]; rfl
    have hmem : r ∈ s.running := own.serves_running t r (serves_of_keeps hkeeps)
      (own.keeps_not_delegated t r hkeeps)
    rcases effect_running hs with ⟨_, he, -⟩ | ⟨_, _, he, -⟩ | ⟨-, -, -, hrun⟩
    · cases he
    · cases he
    · exact .inl (hrun ▸ List.ne_nil_of_mem hmem)
  · rw [hsame] at hflag
    rcases effect_running hs with ⟨r, -, -, -, hrun⟩ | ⟨r, zero, rfl, -, hrun⟩ |
      ⟨-, hdone, -, hrun⟩
    · exact .inl (by simp [hrun])
    · -- a request terminates: it was not the last, or its thread attends to the flag
      have hmem : r ∈ s.running := ok.1 r rfl
      by_cases hone : s.closure.runningRequestCounter = 1
      · have hzero : zero = true := (effect_doneRunRequest hs).mpr hone
        subst hzero
        rcases control_doneRunRequest hp with ⟨-, hp'⟩ | ⟨hq, -⟩ | ⟨-, hp'⟩ | ⟨-, hp'⟩
        · exact .inr ⟨t, by rw [goto_position_self, hp']; rfl⟩
        · rcases ok.2 (some r) (by simp [abandons, hq]) with hclear | ⟨r', hr', hne⟩ | ⟨u, hut, hu⟩
          · simp [hclear] at hflag
          · refine .inl (List.ne_nil_of_mem (a := r') ?_)
            rw [hrun]
            exact (List.mem_erase_of_ne fun h => hne (congrArg some h.symm)).mpr hr'
          · exact .inr (attended_other hpos hut hu)
        · exact .inr ⟨t, by rw [goto_position_self, hp']; rfl⟩
        · exact .inr ⟨t, by rw [goto_position_self, hp']; rfl⟩
      · exact .inl (hrun ▸ running_of_not_zero acc hmem hone)
    · rw [hrun]
      rcases inv hflag with hne | ⟨u, hu⟩
      · exact .inl hne
      · by_cases hut : u = t
        · subst hut
          rcases control_attending hp hu with hstay | rfl | rfl | ⟨rfl, hq⟩
          · exact .inr ⟨u, by rw [goto_position_self]; exact hstay⟩
          · simp [(effect_haltedForMaintenance hs).2] at hflag
          · exact (hset false rfl).elim
          · have habandon : none ∈ abandons s (u, Event.throws) := by
              rcases hq with ⟨f, waiting, hq⟩ | ⟨f, waiting, hq⟩ <;> simp [abandons, hq]
            rcases ok.2 none habandon with hclear | ⟨r', hr', -⟩ | ⟨v, hvu, hv⟩
            · simp [hclear] at hflag
            · exact .inl (List.ne_nil_of_mem hr')
            · exact .inr (attended_other hpos hvu hv)
        · exact .inr (attended_other hpos hut hu)

structure LockoutInvariant (s : System Tid) : Prop where
  owned : Owned s
  covers : FlagCovers s
  accounted : Accounted s
  attended : Attended s

omit [DecidableEq Tid] in
theorem lockoutInvariant_initial : LockoutInvariant (initial Tid) where
  owned := owned_initial
  covers := flagCovers_initial
  accounted := accounted_initial
  attended := by simp [Attended, initial]

theorem lockoutInvariant_step (inv : LockoutInvariant s) (ok : Relayed s (t, e))
    (h : step s (t, e) = some s') : LockoutInvariant s' where
  owned := owned_step inv.owned h
  covers := flagCovers_step inv.covers h
  accounted := accounted_step inv.accounted ok.1 h
  attended := attended_step inv.attended inv.owned inv.accounted ok h

omit [DecidableEq Tid] in
theorem open_of_quiescent (inv : LockoutInvariant s) (quiet : Quiescent s) : Open s := by
  have hrunning : s.running = [] := by
    have hlen : (s.running.length : Int) = 0 := inv.accounted.symm.trans quiet.1
    exact List.length_eq_zero_iff.mp (by exact_mod_cast hlen)
  have hflag : s.closure.waitForExclusiveAccess = false := by
    by_contra hset
    rcases inv.attended (by simpa using hset) with hne | ⟨u, hu⟩
    · exact hne hrunning
    · simp [not_attending_of_outside (quiet.2 u)] at hu
  refine ⟨?_, hflag⟩
  by_contra hne
  simp [inv.covers.covers hne] at hflag

/-- In a run in which every path that ends without handing over leaves the flag
to someone else, the service is open again whenever nothing is running. -/
theorem open_of_relayed (acts : List (Tid × Event)) (s : System Tid)
    (ok : StepSystem.Along step Relayed (initial Tid) acts)
    (h : StepSystem.run step (initial Tid) acts = some s) (quiet : Quiescent s) : Open s := by
  refine open_of_quiescent (StepSystem.invariant_run LockoutInvariant ?_
    lockoutInvariant_initial ok h) quiet
  rintro s ⟨t, e⟩ s' inv hok hstep
  exact lockoutInvariant_step inv hok hstep

/-- A request throws while a queued one is still running; the termination of the
queued one processes the list. -/
def throwingFirst : List (Fin 2 × Event) :=
  [(0, .haltedForMaintenance false), (1, .haltedForMaintenance false),
   (0, .startRunRequest 0), (1, .startRunRequest 1), (0, .execute 0 false), (0, .lock),
   (0, .setWaitForExclusiveAccess true), (0, .pushBack 0), (1, .throws),
   (1, .doneRunRequest 1 false), (0, .doneRunRequest 0 true), (0, .haltedForMaintenance true),
   (0, .lockList [0]), (0, .executeWaiting 0 true), (0, .reply), (0, .clear),
   (0, .setWaitForExclusiveAccess false)]

theorem open_throwingFirst :
    ∃ s, StepSystem.run step (initial (Fin 2)) throwingFirst = some s ∧ Open s :=
  ⟨_, rfl, open_of_relayed throwingFirst _ (by decide) rfl ⟨by decide, by decide⟩⟩

end StrusWebService.Service
