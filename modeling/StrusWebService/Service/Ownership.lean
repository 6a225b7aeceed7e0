import StrusWebService.Service.System

/-! # Which thread answers for which request

The facts about positions that every result on the protocol needs: a request is
served by at most one thread, it stands among the running requests until its own
`doneRunRequest` unless it was delegated, and the mutex is held exactly by the
thread whose position is inside its scope.
-/

namespace StrusWebService.Service

/-! ## Positions -/

def Frame.serves : Frame → Option Request
  | .issuing r => some r
  | .tail | .answering _ => none

def Frame.delegate : Frame → Option Request
  | .issuing r | .answering r => some r
  | .tail => none

def Position.frame : Position → Option Frame
  | .testing f | .locking f | .processing f _ | .reporting f _ | .releasing f => some f
  | _ => none

/-- The request whose `runRequest` call the thread is inside, not yet past `doneRunRequest`. -/
def Position.serves : Position → Option Request
  | .executing r | .executed r | .replying r | .failed r | .flagging r | .pushing r
  | .closing r | .catching r | .issuing r => some r
  | .testing f | .locking f | .processing f _ | .reporting f _ | .releasing f => f.serves
  | .idle | .admitted | .answering _ => none

/-- The same, for the part of `runRequest` a delegated request never enters. -/
def Position.keeps : Position → Option Request
  | .executing r | .executed r | .replying r | .failed r | .flagging r | .pushing r
  | .closing r => some r
  | _ => none

/-- The delegated request the thread works for. -/
def Position.delegate : Position → Option Request
  | .issuing r | .answering r => some r
  | .testing f | .locking f | .processing f _ | .reporting f _ | .releasing f => f.delegate
  | _ => none

def Position.holdsMutex : Position → Bool
  | .flagging _ | .pushing _ | .processing _ _ | .reporting _ _ | .releasing _ => true
  | _ => false

theorem serves_of_keeps {p : Position} {r : Request} (h : p.keeps = some r) :
    p.serves = some r := by
  cases p <;> simp_all [Position.keeps, Position.serves]

theorem Frame.resume_delegate (f : Frame) : f.resume.delegate = f.delegate := by
  cases f <;> rfl

theorem Frame.resume_serves (f : Frame) : f.resume.serves = f.serves := by
  cases f <;> rfl

theorem Frame.unwind_serves (f : Frame) : f.unwind.serves = f.serves := by
  cases f <;> rfl

theorem Frame.resume_keeps (f : Frame) : f.resume.keeps = none := by
  cases f <;> rfl

theorem Frame.unwind_keeps (f : Frame) : f.unwind.keeps = none := by
  cases f <;> rfl

theorem Frame.unwind_delegate (f : Frame) : f.unwind.delegate = none := by
  cases f <;> rfl

/-! ## Single steps -/

section Steps

variable {Tid : Type*} [DecidableEq Tid]

@[simp] theorem goto_closure (s : System Tid) (t : Tid) (p : Position) :
    (s.goto t p).closure = s.closure := rfl

@[simp] theorem goto_running (s : System Tid) (t : Tid) (p : Position) :
    (s.goto t p).running = s.running := rfl

@[simp] theorem goto_delegated (s : System Tid) (t : Tid) (p : Position) :
    (s.goto t p).delegated = s.delegated := rfl

@[simp] theorem goto_started (s : System Tid) (t : Tid) (p : Position) :
    (s.goto t p).started = s.started := rfl

@[simp] theorem goto_pushed (s : System Tid) (t : Tid) (p : Position) :
    (s.goto t p).pushed = s.pushed := rfl

@[simp] theorem goto_executed (s : System Tid) (t : Tid) (p : Position) :
    (s.goto t p).executed = s.executed := rfl

@[simp] theorem goto_position_self (s : System Tid) (t : Tid) (p : Position) :
    (s.goto t p).position t = p := Function.update_self ..

theorem goto_position_of_ne (s : System Tid) {t t' : Tid} (p : Position) (h : t' ≠ t) :
    (s.goto t p).position t' = s.position t' := Function.update_of_ne h ..

/-- A step is one move of one thread and one operation on the shared data. -/
theorem step_eq_some {s s' : System Tid} {t : Tid} {e : Event} :
    step s (t, e) = some s' ↔
      ∃ p s₁, control (s.position t) e = some p ∧ effect s t e = some s₁ ∧ s' = s₁.goto t p := by
  simp only [step, Option.bind_eq_some_iff, Option.map_eq_some_iff]
  constructor
  · rintro ⟨p, hp, s₁, hs₁, rfl⟩
    exact ⟨p, s₁, hp, hs₁, rfl⟩
  · rintro ⟨p, s₁, hp, hs₁, rfl⟩
    exact ⟨p, hp, s₁, hs₁, rfl⟩

/-- What has to hold for an event and what its operation returns. -/
def System.allows (s : System Tid) : Event → Prop
  | .haltedForMaintenance halted => s.closure.haltedForMaintenance = halted
  | .startRunRequest r => r = s.started
  | .doneRunRequest _ zero => s.closure.doneRunRequest.2 = zero
  | .lock => s.closure.mutexWaitingContextList = none
  | .lockList waiting =>
      s.closure.waitingContextList = waiting ∧ s.closure.mutexWaitingContextList = none
  | .putAnswer r => r ∈ s.delegated
  | _ => True

/-- The shared data after an event. -/
def System.after (s : System Tid) (t : Tid) : Event → System Tid
  | .startRunRequest r =>
      { s with
        closure := s.closure.startRunRequest
        started := s.started + 1
        running := s.running ++ [r] }
  | .getDelegateRequests r delegates =>
      { s with delegated := if delegates then r :: s.delegated else s.delegated }
  | .lock | .lockList _ => { s with closure := { s.closure with mutexWaitingContextList := some t } }
  | .setWaitForExclusiveAccess value =>
      { s with
        closure := if value then s.closure.setWaitForExclusiveAccess value
          else (s.closure.setWaitForExclusiveAccess value).unlock }
  | .pushBack r =>
      { s with closure := (s.closure.pushBack r).unlock, pushed := s.pushed ++ [r] }
  | .doneRunRequest r _ =>
      { s with closure := s.closure.doneRunRequest.1, running := s.running.erase r }
  | .executeWaiting r _ => { s with executed := s.executed ++ [r] }
  | .clear => { s with closure := s.closure.clear }
  | .throws =>
      { s with
        closure := if s.closure.mutexWaitingContextList = some t then s.closure.unlock
          else s.closure }
  | _ => s

/-- All that an event can do. -/
theorem effect_after {s s₁ : System Tid} {t : Tid} {e : Event} (h : effect s t e = some s₁) :
    s.allows e ∧ s₁ = s.after t e := by
  cases e
  case lock =>
    obtain ⟨c, hc, rfl⟩ := Option.map_eq_some_iff.mp h
    obtain ⟨hfree, rfl⟩ := ServiceClosure.lock_eq_some.mp hc
    exact ⟨hfree, rfl⟩
  case lockList waiting =>
    obtain ⟨hlist, hlock⟩ := Option.ite_none_right_eq_some.mp h
    obtain ⟨c, hc, rfl⟩ := Option.map_eq_some_iff.mp hlock
    obtain ⟨hfree, rfl⟩ := ServiceClosure.lock_eq_some.mp hc
    exact ⟨⟨hlist, hfree⟩, rfl⟩
  case setWaitForExclusiveAccess value =>
    cases value with
    | true => exact ⟨trivial, (Option.some.inj h).symm⟩
    | false => exact ⟨trivial, (Option.some.inj h).symm⟩
  case haltedForMaintenance | startRunRequest | doneRunRequest | putAnswer =>
    obtain ⟨hallows, heq⟩ := Option.ite_none_right_eq_some.mp h
    exact ⟨hallows, (Option.some.inj heq).symm⟩
  all_goals exact ⟨trivial, (Option.some.inj h).symm⟩

theorem effect_position {s s₁ : System Tid} {t : Tid} {e : Event} (h : effect s t e = some s₁) :
    s₁.position = s.position := by
  obtain ⟨-, rfl⟩ := effect_after h
  cases e <;> rfl

end Steps

/-! ## Moves -/

theorem control_serves {p p' : Position} {e : Event} (h : control p e = some p') :
    p'.serves = none ∨ p'.serves = p.serves ∨
      ∃ r, e = .startRunRequest r ∧ p'.serves = some r := by
  unfold control at h
  split at h
  all_goals simp only [Option.ite_none_right_eq_some, Option.some.injEq, reduceCtorEq] at h
  all_goals rcases h with ⟨rfl, rfl⟩
  all_goals try split
  all_goals first
    | exact .inl rfl
    | exact .inr (.inl rfl)
    | exact .inr (.inl (Frame.resume_serves _))
    | exact .inr (.inl (Frame.unwind_serves _))
    | exact .inr (.inr ⟨_, rfl, rfl⟩)

theorem control_keeps {p p' : Position} {e : Event} (h : control p e = some p') :
    p'.keeps = none ∨ p'.keeps = p.keeps ∨
      ∃ r, e = .startRunRequest r ∧ p'.keeps = some r := by
  unfold control at h
  split at h
  all_goals simp only [Option.ite_none_right_eq_some, Option.some.injEq, reduceCtorEq] at h
  all_goals rcases h with ⟨rfl, rfl⟩
  all_goals try split
  all_goals first
    | exact .inl rfl
    | exact .inr (.inl rfl)
    | exact .inl (Frame.resume_keeps _)
    | exact .inl (Frame.unwind_keeps _)
    | exact .inr (.inr ⟨_, rfl, rfl⟩)

theorem control_delegate {p p' : Position} {e : Event} (h : control p e = some p') :
    p'.delegate = none ∨ p'.delegate = p.delegate ∨
      ∃ r, p'.delegate = some r ∧ (e = .getDelegateRequests r true ∨ e = .putAnswer r) := by
  unfold control at h
  split at h
  all_goals simp only [Option.ite_none_right_eq_some, Option.some.injEq, reduceCtorEq] at h
  all_goals rcases h with ⟨rfl, rfl⟩
  all_goals try split
  all_goals first
    | exact .inl rfl
    | exact .inr (.inl rfl)
    | exact .inr (.inl (Frame.resume_delegate _))
    | exact .inl (Frame.unwind_delegate _)
    | exact .inr (.inr ⟨_, rfl, .inr rfl⟩)
    | (subst_vars; exact .inr (.inr ⟨_, rfl, .inl rfl⟩))

/-- Delegation ends the part of `runRequest` that keeps the request. -/
theorem control_getDelegateRequests {p p' : Position} {r : Request}
    (h : control p (.getDelegateRequests r true) = some p') :
    p.serves = some r ∧ p'.keeps = none := by
  cases p <;> simp only [control, Option.ite_none_right_eq_some, Option.some.injEq,
    reduceCtorEq] at h
  rcases h with ⟨rfl, rfl⟩
  exact ⟨rfl, rfl⟩

theorem control_startRunRequest {p p' : Position} {r : Request}
    (h : control p (.startRunRequest r) = some p') : p = .admitted ∧ p' = .executing r := by
  cases p <;> simp_all [control]

/-- The four statements that decrement the counter. -/
theorem control_doneRunRequest {p p' : Position} {r : Request} {zero : Bool}
    (h : control p (.doneRunRequest r zero) = some p') :
    (p = .closing r ∧ p' = if zero then .testing .tail else .idle) ∨
    (p = .catching r ∧ p' = .idle) ∨
    (p = .issuing r ∧ p' = if zero then .testing (.issuing r) else .issuing r) ∨
    (p = .answering r ∧ p' = if zero then .testing (.answering r) else .answering r) := by
  cases p <;> simp only [control, Option.ite_none_right_eq_some, Option.some.injEq,
    reduceCtorEq] at h
  all_goals
    rcases h with ⟨rfl, rfl⟩
    simp

/-! ## Operations on the history -/

section Effects

variable {Tid : Type*} [DecidableEq Tid] {s s₁ : System Tid} {t : Tid} {e : Event}

/-- Only `startRunRequest` and `doneRunRequest` change which requests are running. -/
theorem effect_running (h : effect s t e = some s₁) :
    (∃ r, e = .startRunRequest r ∧ r = s.started ∧ s₁.started = s.started + 1 ∧
      s₁.running = s.running ++ [r]) ∨
    (∃ r zero, e = .doneRunRequest r zero ∧ s₁.started = s.started ∧
      s₁.running = s.running.erase r) ∨
    ((∀ r, e ≠ .startRunRequest r) ∧ (∀ r zero, e ≠ .doneRunRequest r zero) ∧
      s₁.started = s.started ∧ s₁.running = s.running) := by
  obtain ⟨hallows, rfl⟩ := effect_after h
  cases e
  case startRunRequest r => exact .inl ⟨r, rfl, hallows, rfl, rfl⟩
  case doneRunRequest r zero => exact .inr (.inl ⟨r, zero, rfl, rfl, rfl⟩)
  all_goals exact .inr (.inr ⟨fun _ => by simp, fun _ _ => by simp, rfl, rfl⟩)

theorem effect_delegated (h : effect s t e = some s₁) :
    (∃ r, e = .getDelegateRequests r true ∧ s₁.delegated = r :: s.delegated) ∨
    ((∀ r, e ≠ .getDelegateRequests r true) ∧ s₁.delegated = s.delegated) := by
  obtain ⟨-, rfl⟩ := effect_after h
  cases e
  case getDelegateRequests r delegates =>
    cases delegates with
    | true => exact .inl ⟨r, rfl, rfl⟩
    | false => exact .inr ⟨fun _ => by simp, rfl⟩
  all_goals exact .inr ⟨fun _ => by simp, rfl⟩

theorem effect_putAnswer {r : Request} (h : effect s t (.putAnswer r) = some s₁) :
    r ∈ s.delegated :=
  (effect_after h).1

end Effects

/-! ## Ownership holds in every run -/

section Ownership

variable {Tid : Type*} [DecidableEq Tid]

structure Owned (s : System Tid) : Prop where
  unique : ∀ t t' r, (s.position t).serves = some r → (s.position t').serves = some r → t = t'
  serves_lt : ∀ t r, (s.position t).serves = some r → r < s.started
  keeps_not_delegated : ∀ t r, (s.position t).keeps = some r → r ∉ s.delegated
  delegate_mem : ∀ t r, (s.position t).delegate = some r → r ∈ s.delegated
  delegated_lt : ∀ r ∈ s.delegated, r < s.started
  serves_running : ∀ t r, (s.position t).serves = some r → r ∉ s.delegated → r ∈ s.running

omit [DecidableEq Tid] in
theorem owned_initial : Owned (initial Tid) where
  unique := by simp [initial, Position.serves]
  serves_lt := by simp [initial, Position.serves]
  keeps_not_delegated := by simp [initial]
  delegate_mem := by simp [initial, Position.delegate]
  delegated_lt := by simp [initial]
  serves_running := by simp [initial, Position.serves]

/-- What the thread that moves serves afterwards. -/
theorem serves_step {s s₁ : System Tid} {t : Tid} {e : Event} {p : Position}
    (hp : control (s.position t) e = some p) (hs : effect s t e = some s₁) {r : Request}
    (h : p.serves = some r) :
    (s.position t).serves = some r ∨ (e = .startRunRequest r ∧ r = s.started) := by
  rcases control_serves hp with hnone | hold | ⟨r', rfl, hr'⟩
  · simp [hnone] at h
  · exact .inl (hold ▸ h)
  · obtain rfl : r' = r := by simpa [hr'] using h
    rcases effect_running hs with ⟨_, he, hr, -⟩ | ⟨_, _, he, -⟩ | ⟨hne, -⟩
    · cases he
      exact .inr ⟨rfl, hr⟩
    · cases he
    · exact (hne _ rfl).elim

theorem started_le_step {s s₁ : System Tid} {t : Tid} {e : Event}
    (hs : effect s t e = some s₁) : s.started ≤ s₁.started := by
  rcases effect_running hs with ⟨_, _, _, h, _⟩ | ⟨_, _, _, h, _⟩ | ⟨_, _, h, _⟩ <;> omega

section Step

variable {s s₁ : System Tid} {t : Tid} {e : Event} {p : Position}

/-- A thread serves afterwards what it served before, or the request just started. -/
theorem serves_goto (hp : control (s.position t) e = some p) (hs : effect s t e = some s₁)
    {u : Tid} {r : Request} (hu : ((s₁.goto t p).position u).serves = some r) :
    (s.position u).serves = some r ∨ (u = t ∧ e = .startRunRequest r ∧ r = s.started) := by
  by_cases hut : u = t
  · subst hut
    rw [goto_position_self] at hu
    cases serves_step hp hs hu with
    | inl hold => exact .inl hold
    | inr hnew => exact .inr ⟨rfl, hnew⟩
  · rw [goto_position_of_ne s₁ p hut, effect_position hs] at hu
    exact .inl hu

theorem delegated_subset (hs : effect s t e = some s₁) : ∀ r ∈ s.delegated, r ∈ s₁.delegated := by
  intro r hr
  rcases effect_delegated hs with ⟨r', -, hd⟩ | ⟨-, hd⟩
  · rw [hd]
    exact List.mem_cons_of_mem r' hr
  · rwa [hd]

theorem keeps_step (inv : Owned s) (hp : control (s.position t) e = some p)
    (hs : effect s t e = some s₁) {u : Tid} {r : Request}
    (hu : ((s₁.goto t p).position u).keeps = some r) : r ∉ s₁.delegated := by
  have hpos : s₁.position = s.position := effect_position hs
  rcases effect_delegated hs with ⟨r', rfl, hd⟩ | ⟨-, hd⟩
  · obtain ⟨hserves, hkeeps⟩ := control_getDelegateRequests hp
    by_cases hut : u = t
    · subst hut
      simp [hkeeps] at hu
    · rw [goto_position_of_ne s₁ p hut, hpos] at hu
      have hne : r ≠ r' := fun he => hut (inv.unique u t r (serves_of_keeps hu) (he ▸ hserves))
      simpa [hd, hne] using inv.keeps_not_delegated u r hu
  · rw [hd]
    by_cases hut : u = t
    · subst hut
      rw [goto_position_self] at hu
      rcases control_keeps hp with hnone | hold | ⟨r', rfl, hr'⟩
      · simp [hnone] at hu
      · exact inv.keeps_not_delegated u r (hold ▸ hu)
      · obtain rfl : r' = r := by simpa [hr'] using hu
        rcases serves_step hp hs (serves_of_keeps hr') with hold | ⟨-, hr⟩
        · obtain ⟨hadm, -⟩ := control_startRunRequest hp
          simp [hadm, Position.serves] at hold
        · exact fun hmem => Nat.ne_of_lt (inv.delegated_lt r' hmem) hr
    · rw [goto_position_of_ne s₁ p hut, hpos] at hu
      exact inv.keeps_not_delegated u r hu

theorem delegate_step (inv : Owned s) (hp : control (s.position t) e = some p)
    (hs : effect s t e = some s₁) {u : Tid} {r : Request}
    (hu : ((s₁.goto t p).position u).delegate = some r) : r ∈ s₁.delegated := by
  by_cases hut : u = t
  · subst hut
    rw [goto_position_self] at hu
    rcases control_delegate hp with hnone | hold | ⟨r', hr', he⟩
    · simp [hnone] at hu
    · exact delegated_subset hs r (inv.delegate_mem u r (hold ▸ hu))
    · obtain rfl : r' = r := by simpa [hr'] using hu
      rcases he with rfl | rfl
      · rcases effect_delegated hs with ⟨_, he, hd⟩ | ⟨hne, -⟩
        · cases he
          simp [hd]
        · exact (hne _ rfl).elim
      · exact delegated_subset hs _ (effect_putAnswer hs)
  · rw [goto_position_of_ne s₁ p hut, effect_position hs] at hu
    exact delegated_subset hs r (inv.delegate_mem u r hu)

/-- The request that is done is served by this thread, or delegated. -/
theorem ne_of_doneRunRequest (inv : Owned s) {r r' : Request} {zero : Bool}
    (hp : control (s.position t) (.doneRunRequest r' zero) = some p) {u : Tid}
    (hold : (s.position u).serves = some r) (hu : ((s₁.goto t p).position u).serves = some r)
    (hnd : r ∉ s.delegated) : r ≠ r' := by
  rintro rfl
  rcases control_doneRunRequest hp with ⟨hq, hp'⟩ | ⟨hq, hp'⟩ | ⟨hq, -⟩ | ⟨hq, -⟩
  · obtain rfl := inv.unique u t r hold (by rw [hq]; rfl)
    rw [goto_position_self, hp'] at hu
    split at hu <;> cases hu
  · obtain rfl := inv.unique u t r hold (by rw [hq]; rfl)
    rw [goto_position_self, hp'] at hu
    cases hu
  · exact hnd (inv.delegate_mem t r (by rw [hq]; rfl))
  · exact hnd (inv.delegate_mem t r (by rw [hq]; rfl))

theorem serves_running_step (inv : Owned s) (hp : control (s.position t) e = some p)
    (hs : effect s t e = some s₁) {u : Tid} {r : Request}
    (hu : ((s₁.goto t p).position u).serves = some r) (hnd : r ∉ s₁.delegated) :
    r ∈ s₁.running := by
  have hnd' : r ∉ s.delegated := fun hmem => hnd (delegated_subset hs r hmem)
  rcases effect_running hs with ⟨r', hstart, -, -, hrun⟩ | ⟨r', zero, rfl, -, hrun⟩ |
    ⟨hne, -, -, hrun⟩
  · rw [hrun, List.mem_append, List.mem_singleton]
    rcases serves_goto hp hs hu with hold | ⟨-, he, -⟩
    · exact .inl (inv.serves_running u r hold hnd')
    · exact .inr (Event.startRunRequest.inj (he.symm.trans hstart))
  · rcases serves_goto hp hs hu with hold | ⟨-, he, -⟩
    · rw [hrun, List.mem_erase_of_ne (ne_of_doneRunRequest inv hp hold hu hnd')]
      exact inv.serves_running u r hold hnd'
    · cases he
  · rw [hrun]
    rcases serves_goto hp hs hu with hold | ⟨-, he, -⟩
    · exact inv.serves_running u r hold hnd'
    · exact (hne _ he).elim

end Step

theorem owned_step {s s' : System Tid} {t : Tid} {e : Event} (inv : Owned s)
    (h : step s (t, e) = some s') : Owned s' := by
  obtain ⟨p, s₁, hp, hs, rfl⟩ := step_eq_some.mp h
  have hle := started_le_step hs
  exact
    { unique := by
        intro u u' r hu hu'
        rcases serves_goto hp hs hu with hold | ⟨hut, -, hr⟩ <;>
          rcases serves_goto hp hs hu' with hold' | ⟨hut', -, hr'⟩
        · exact inv.unique u u' r hold hold'
        · exact (Nat.ne_of_lt (inv.serves_lt u r hold) hr').elim
        · exact (Nat.ne_of_lt (inv.serves_lt u' r hold') hr).elim
        · rw [hut, hut']
      serves_lt := by
        intro u r hu
        rcases serves_goto hp hs hu with hold | ⟨-, he, hr⟩
        · exact Nat.lt_of_lt_of_le (inv.serves_lt u r hold) hle
        · rw [goto_started]
          rcases effect_running hs with ⟨_, _, _, hstart, _⟩ | ⟨_, _, hdone, _⟩ | ⟨hne, _⟩
          · exact hr ▸ hstart ▸ Nat.lt_succ_self _
          · simp [he] at hdone
          · exact (hne r he).elim
      keeps_not_delegated := fun _ _ hu => keeps_step inv hp hs hu
      delegate_mem := fun _ _ hu => delegate_step inv hp hs hu
      delegated_lt := by
        intro r hr
        rw [goto_delegated] at hr
        rcases effect_delegated hs with ⟨r', rfl, hd⟩ | ⟨-, hd⟩
        · rw [hd, List.mem_cons] at hr
          rcases hr with rfl | hr
          · exact Nat.lt_of_lt_of_le (inv.serves_lt t _ (control_getDelegateRequests hp).1) hle
          · exact Nat.lt_of_lt_of_le (inv.delegated_lt r hr) hle
        · exact Nat.lt_of_lt_of_le (inv.delegated_lt r (hd ▸ hr)) hle
      serves_running := fun _ _ hu hnd => serves_running_step inv hp hs hu hnd }

end Ownership

end StrusWebService.Service
