import StrusWebService.Service.Mutex

/-! # The flag, the waiting list and the counter

Two facts of every run, from the mutex alone: a non-empty waiting list has the
flag set, and the flag is reset only over an empty list. One fact of the runs in
which no request executes `doneRunRequest` twice: the counter is the number of
requests between `startRunRequest` and `doneRunRequest`.
-/

namespace StrusWebService.Service

variable {Tid : Type*} [DecidableEq Tid] {s s₁ s' : System Tid} {t : Tid} {e : Event}

/-! ## Operations on flag and list -/

theorem effect_flag (h : effect s t e = some s₁) :
    (∃ value, e = .setWaitForExclusiveAccess value ∧
      s₁.closure.waitForExclusiveAccess = value) ∨
    ((∀ value, e ≠ .setWaitForExclusiveAccess value) ∧
      s₁.closure.waitForExclusiveAccess = s.closure.waitForExclusiveAccess) := by
  obtain ⟨-, rfl⟩ := effect_after h
  cases e
  case setWaitForExclusiveAccess value =>
    cases value with
    | true => exact .inl ⟨true, rfl, rfl⟩
    | false => exact .inl ⟨false, rfl, rfl⟩
  case throws =>
    refine .inr ⟨fun _ => by simp, ?_⟩
    rw [System.after]
    split <;> rfl
  all_goals exact .inr ⟨fun _ => by simp, rfl⟩

theorem effect_list (h : effect s t e = some s₁) :
    (∃ r, e = .pushBack r ∧
      s₁.closure.waitingContextList = s.closure.waitingContextList ++ [r]) ∨
    (e = .clear ∧ s₁.closure.waitingContextList = []) ∨
    ((∀ r, e ≠ .pushBack r) ∧ e ≠ .clear ∧
      s₁.closure.waitingContextList = s.closure.waitingContextList) := by
  obtain ⟨-, rfl⟩ := effect_after h
  cases e
  case pushBack r => exact .inl ⟨r, rfl, rfl⟩
  case clear => exact .inr (.inl ⟨rfl, rfl⟩)
  case throws =>
    refine .inr (.inr ⟨fun _ => by simp, by simp, ?_⟩)
    rw [System.after]
    split <;> rfl
  case setWaitForExclusiveAccess value =>
    refine .inr (.inr ⟨fun _ => by simp, by simp, ?_⟩)
    cases value <;> rfl
  all_goals exact .inr (.inr ⟨fun _ => by simp, by simp, rfl⟩)

/-! ## The statements that set the flag and change the list -/

theorem control_raise {p p' : Position}
    (h : control p (.setWaitForExclusiveAccess true) = some p') :
    ∃ r, p = .flagging r ∧ p' = .pushing r := by
  cases p <;> simp_all [control]

theorem control_lower {p p' : Position}
    (h : control p (.setWaitForExclusiveAccess false) = some p') :
    ∃ f, p = .releasing f ∧ p' = f.resume := by
  cases p <;> simp_all [control]

theorem control_pushBack {p p' : Position} {r : Request}
    (h : control p (.pushBack r) = some p') : p = .pushing r ∧ p' = .closing r := by
  cases p <;> simp_all [control]

theorem control_clear {p p' : Position} (h : control p .clear = some p') :
    ∃ f, p = .processing f [] ∧ p' = .releasing f := by
  cases p <;> simp_all [control]
  split at h <;> simp_all

theorem Frame.resume_ne_releasing (f g : Frame) : f.resume ≠ .releasing g := by
  cases f <;> simp [Frame.resume]

theorem Frame.resume_ne_pushing (f : Frame) (r : Request) : f.resume ≠ .pushing r := by
  cases f <;> simp [Frame.resume]

theorem Frame.unwind_ne_releasing (f g : Frame) : f.unwind ≠ .releasing g := by
  cases f <;> simp [Frame.unwind]

theorem Frame.unwind_ne_pushing (f : Frame) (r : Request) : f.unwind ≠ .pushing r := by
  cases f <;> simp [Frame.unwind]

theorem control_to_releasing {p : Position} {f : Frame} (h : control p e = some (.releasing f)) :
    e = .clear := by
  unfold control at h
  split at h
  all_goals simp only [Option.ite_none_right_eq_some, Option.some.injEq, reduceCtorEq] at h
  all_goals try split at h
  all_goals simp_all [Frame.resume_ne_releasing, Frame.unwind_ne_releasing]

theorem control_to_pushing {p : Position} {r : Request} (h : control p e = some (.pushing r)) :
    e = .setWaitForExclusiveAccess true := by
  unfold control at h
  split at h
  all_goals simp only [Option.ite_none_right_eq_some, Option.some.injEq, reduceCtorEq] at h
  all_goals try split at h
  all_goals simp_all [Frame.resume_ne_pushing, Frame.unwind_ne_pushing]

/-! ## A non-empty list has the flag set -/

structure FlagCovers (s : System Tid) : Prop where
  mutex : MutexHeld s
  covers : s.closure.waitingContextList ≠ [] → s.closure.waitForExclusiveAccess = true
  releasing : ∀ t f, s.position t = .releasing f → s.closure.waitingContextList = []
  pushing : ∀ t r, s.position t = .pushing r → s.closure.waitForExclusiveAccess = true

omit [DecidableEq Tid] in
theorem flagCovers_initial : FlagCovers (initial Tid) where
  mutex := mutexHeld_initial
  covers := by simp [initial]
  releasing := by simp [initial]
  pushing := by simp [initial]

theorem flagCovers_step (inv : FlagCovers s) (h : step s (t, e) = some s') : FlagCovers s' := by
  have hmutex := mutexHeld_step inv.mutex h
  obtain ⟨p, s₁, hp, hs, rfl⟩ := step_eq_some.mp h
  have hpos : s₁.position = s.position := effect_position hs
  -- two threads inside the lock are the same thread
  have held : ∀ u, (s.position u).holdsMutex = true → (s.position t).holdsMutex = true → u = t :=
    fun u hu ht => inv.mutex.unique hu ht
  constructor
  case mutex => exact hmutex
  case covers =>
    rw [goto_closure]
    intro hne
    rcases effect_flag hs with ⟨value, rfl, hflag⟩ | ⟨-, hflag⟩
    · rw [hflag]
      cases value with
      | true => rfl
      | false =>
          obtain ⟨f, hrel, -⟩ := control_lower hp
          rcases effect_list hs with ⟨_, he, -⟩ | ⟨he, -⟩ | ⟨-, -, hlist⟩
          · cases he
          · cases he
          · exact (hne (hlist.trans (inv.releasing t f hrel))).elim
    · rw [hflag]
      rcases effect_list hs with ⟨r, rfl, -⟩ | ⟨rfl, hlist⟩ | ⟨-, -, hlist⟩
      · exact inv.pushing t r (control_pushBack hp).1
      · exact (hne hlist).elim
      · exact inv.covers (hlist ▸ hne)
  case releasing =>
    intro u f hu
    rw [goto_closure]
    by_cases hut : u = t
    · subst hut
      rw [goto_position_self] at hu
      subst hu
      obtain rfl := control_to_releasing hp
      rcases effect_list hs with ⟨_, he, -⟩ | ⟨-, hlist⟩ | ⟨-, hne, -⟩
      · cases he
      · exact hlist
      · exact (hne rfl).elim
    · rw [goto_position_of_ne s₁ p hut, hpos] at hu
      rcases effect_list hs with ⟨r, rfl, -⟩ | ⟨rfl, hlist⟩ | ⟨-, -, hlist⟩
      · exact (hut (held u (by rw [hu]; rfl) (by rw [(control_pushBack hp).1]; rfl))).elim
      · exact hlist
      · exact hlist.trans (inv.releasing u f hu)
  case pushing =>
    intro u r hu
    rw [goto_closure]
    by_cases hut : u = t
    · subst hut
      rw [goto_position_self] at hu
      subst hu
      obtain rfl := control_to_pushing hp
      rcases effect_flag hs with ⟨value, he, hflag⟩ | ⟨hne, -⟩
      · cases he
        exact hflag
      · exact (hne _ rfl).elim
    · rw [goto_position_of_ne s₁ p hut, hpos] at hu
      rcases effect_flag hs with ⟨value, rfl, hflag⟩ | ⟨-, hflag⟩
      · cases value with
        | true => exact hflag
        | false =>
            obtain ⟨f, hrel, -⟩ := control_lower hp
            exact (hut (held u (by rw [hu]; rfl) (by rw [hrel]; rfl))).elim
      · exact hflag.trans (inv.pushing u r hu)

/-! ## The counter counts the running requests -/

/-- The request that leaves the running requests by this action. -/
def terminates (a : Tid × Event) : Option Request :=
  match a.2 with
  | .doneRunRequest r _ => some r
  | _ => none

/-- No request executes `doneRunRequest` a second time. -/
def DoneOnce (s : System Tid) (a : Tid × Event) : Prop :=
  ∀ r ∈ terminates a, r ∈ s.running

instance (s : System Tid) (a : Tid × Event) : Decidable (DoneOnce s a) :=
  inferInstanceAs (Decidable (∀ r ∈ terminates a, r ∈ s.running))

/-- What an operation adds to the counter of running requests. -/
def Event.counts : Event → Int
  | .startRunRequest _ => 1
  | .doneRunRequest _ _ => -1
  | _ => 0

theorem effect_counter (h : effect s t e = some s₁) :
    s₁.closure.runningRequestCounter = s.closure.runningRequestCounter + e.counts := by
  obtain ⟨-, rfl⟩ := effect_after h
  cases e
  case throws =>
    rw [System.after]
    split <;> simp [Event.counts, ServiceClosure.unlock]
  case setWaitForExclusiveAccess value =>
    cases value <;> simp [Event.counts, System.after, ServiceClosure.unlock,
      ServiceClosure.setWaitForExclusiveAccess]
  all_goals
    simp [Event.counts, System.after, ServiceClosure.startRunRequest,
      ServiceClosure.doneRunRequest, ServiceClosure.pushBack, ServiceClosure.unlock,
      ServiceClosure.clear, Int.sub_eq_add_neg]

def Accounted (s : System Tid) : Prop :=
  s.closure.runningRequestCounter = s.running.length

omit [DecidableEq Tid] in
theorem accounted_initial : Accounted (initial Tid) := rfl

theorem accounted_step (inv : Accounted s) (once : DoneOnce s (t, e))
    (h : step s (t, e) = some s') : Accounted s' := by
  obtain ⟨p, s₁, hp, hs, rfl⟩ := step_eq_some.mp h
  unfold Accounted at inv ⊢
  rw [goto_closure, goto_running, effect_counter hs]
  rcases effect_running hs with ⟨r, rfl, -, -, hrun⟩ | ⟨r, zero, rfl, -, hrun⟩ |
    ⟨hstart, hdone, -, hrun⟩
  · rw [hrun, List.length_append, List.length_singleton, Event.counts]
    push_cast
    omega
  · have hmem : r ∈ s.running := once r rfl
    have hpos : 0 < s.running.length := List.length_pos_of_mem hmem
    rw [hrun, List.length_erase_of_mem hmem, Event.counts]
    omega
  · have hcounts : e.counts = 0 := by
      cases e
      case startRunRequest r => exact (hstart r rfl).elim
      case doneRunRequest r zero => exact (hdone r zero rfl).elim
      all_goals rfl
    rw [hrun, hcounts]
    omega

end StrusWebService.Service
