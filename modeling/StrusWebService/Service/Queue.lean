import StrusWebService.Service.Lockout

/-! # The waiting list is a queue

Runs without exceptions and without delegated requests. The ends of a path that
hand over nothing do not occur there, so a set flag is always attended to. The
requests executed from the list are the pushed requests in the order they were
pushed, each once, and the rest of them is what the list still has to offer: the
list itself, or what the loop of `processWaitingRequests` has not reached yet.
-/

namespace StrusWebService.Service

variable {Tid : Type*}

/-- No call throws and no request is delegated. -/
def Regular (_ : System Tid) (a : Tid × Event) : Prop :=
  match a.2 with
  | .throws | .getDelegateRequests _ true => False
  | _ => True

instance (s : System Tid) (a : Tid × Event) : Decidable (Regular s a) :=
  match a with
  | (_, .throws) | (_, .getDelegateRequests _ true) => isFalse id
  | (_, .haltedForMaintenance _) | (_, .leave) | (_, .startRunRequest _) | (_, .execute _ _)
  | (_, .getDelegateRequests _ false) | (_, .reply) | (_, .lock)
  | (_, .setWaitForExclusiveAccess _) | (_, .pushBack _) | (_, .doneRunRequest _ _)
  | (_, .lockList _) | (_, .executeWaiting _ _) | (_, .clear) | (_, .putAnswer _)
  | (_, .returns) => isTrue trivial

/-- What the loop of `processWaitingRequests` has not executed yet. -/
def Position.remaining : Position → Option (List Request)
  | .processing _ waiting | .reporting _ waiting => some waiting
  | _ => none

/-- The request a thread may still push. -/
def Position.unpushed : Position → Option Request
  | .executing r | .failed r | .flagging r | .pushing r => some r
  | _ => none

theorem Frame.resume_remaining (f : Frame) : f.resume.remaining = none := by
  cases f <;> rfl

theorem Frame.resume_unpushed (f : Frame) : f.resume.unpushed = none := by
  cases f <;> rfl

theorem holdsMutex_of_remaining {p : Position} {waiting : List Request}
    (h : p.remaining = some waiting) : p.holdsMutex = true := by
  cases p <;> simp_all [Position.remaining, Position.holdsMutex]

theorem keeps_of_unpushed {p : Position} {r : Request} (h : p.unpushed = some r) :
    p.keeps = some r := by
  cases p <;> simp_all [Position.unpushed, Position.keeps]

theorem control_remaining {p p' : Position} {e : Event} (h : control p e = some p')
    (ht : e ≠ .throws) :
    (p'.remaining = p.remaining ∧ (∀ waiting, e ≠ .lockList waiting) ∧
      (∀ r b, e ≠ .executeWaiting r b) ∧ e ≠ .clear) ∨
    (∃ waiting, e = .lockList waiting ∧ p'.remaining = some waiting) ∨
    (∃ r b waiting, e = .executeWaiting r b ∧ p.remaining = some (r :: waiting) ∧
      p'.remaining = some waiting) ∨
    (e = .clear ∧ p.remaining = some [] ∧ p'.remaining = none) := by
  unfold control at h
  split at h
  all_goals simp only [Option.ite_none_right_eq_some, Option.some.injEq, reduceCtorEq] at h
  all_goals rcases h with ⟨rfl, rfl⟩
  all_goals try split
  all_goals try simp only [Frame.resume_remaining]
  all_goals simp_all [Position.remaining]

theorem control_unpushed {p p' : Position} {e : Event} (h : control p e = some p')
    (ht : e ≠ .throws) :
    p'.unpushed = none ∨ p'.unpushed = p.unpushed ∨
      ∃ r, e = .startRunRequest r ∧ p'.unpushed = some r := by
  unfold control at h
  split at h
  all_goals simp only [Option.ite_none_right_eq_some, Option.some.injEq, reduceCtorEq] at h
  all_goals rcases h with ⟨rfl, rfl⟩
  all_goals try split
  all_goals first
    | exact .inl rfl
    | exact .inr (.inl rfl)
    | exact .inl (Frame.resume_unpushed _)
    | exact .inr (.inr ⟨_, rfl, rfl⟩)
    | exact (ht rfl).elim

theorem Frame.resume_ne_catching (f : Frame) (r : Request) : f.resume ≠ .catching r := by
  cases f <;> simp [Frame.resume]

theorem control_catching {p : Position} {e : Event} {r : Request}
    (h : control p e = some (.catching r)) : e = .throws := by
  unfold control at h
  split at h
  all_goals simp only [Option.ite_none_right_eq_some, Option.some.injEq, reduceCtorEq] at h
  all_goals try split at h
  all_goals simp_all [Frame.resume_ne_catching]

variable [DecidableEq Tid] {s s₁ s' : System Tid} {t : Tid} {e : Event}

/-! ## Nothing is delegated and nothing is caught -/

structure Plain (s : System Tid) : Prop where
  delegated : s.delegated = []
  catching : ∀ t r, s.position t ≠ .catching r

omit [DecidableEq Tid] in
theorem plain_initial : Plain (initial Tid) where
  delegated := rfl
  catching := by simp [initial]

theorem plain_step (inv : Plain s) (ok : Regular s (t, e)) (h : step s (t, e) = some s') :
    Plain s' := by
  obtain ⟨p, s₁, hp, hs, rfl⟩ := step_eq_some.mp h
  constructor
  · rw [goto_delegated]
    rcases effect_delegated hs with ⟨r, rfl, -⟩ | ⟨-, hd⟩
    · exact ok.elim
    · exact hd.trans inv.delegated
  · intro u r hu
    by_cases hut : u = t
    · subst hut
      rw [goto_position_self] at hu
      subst hu
      obtain rfl := control_catching hp
      exact ok
    · rw [goto_position_of_ne s₁ p hut, effect_position hs] at hu
      exact inv.catching u r hu

/-- In a regular run nothing is abandoned and nothing terminates twice. -/
theorem relayed_of_regular (inv : Plain s) (own : Owned s) (ok : Regular s (t, e))
    (h : step s (t, e) = some s') : Relayed s (t, e) := by
  obtain ⟨p, s₁, hp, hs, rfl⟩ := step_eq_some.mp h
  constructor
  · intro r hr
    cases e <;> simp only [terminates, Option.mem_def, Option.some.injEq, reduceCtorEq] at hr
    subst hr
    rename_i r zero
    have hnot : (s.position t).delegate ≠ some r := fun hd => by
      have hmem := own.delegate_mem t r hd
      simp [inv.delegated] at hmem
    rcases control_doneRunRequest hp with ⟨hq, -⟩ | ⟨hq, -⟩ | ⟨hq, -⟩ | ⟨hq, -⟩
    · exact own.serves_running t r (by rw [hq]; rfl) (by simp [inv.delegated])
    · exact (inv.catching t r hq).elim
    · exact (hnot (by rw [hq]; rfl)).elim
    · exact (hnot (by rw [hq]; rfl)).elim
  · intro gone hgone
    unfold abandons at hgone
    split at hgone
    · rename_i r hq _
      exact (inv.catching t _ hq).elim
    · rename_i he
      cases he
      exact ok.elim
    · rename_i he
      cases he
      exact ok.elim
    · cases hgone

/-! ## Flag, list and history agree -/

theorem effect_history (h : effect s t e = some s₁) :
    (∃ r, e = .pushBack r ∧ s₁.pushed = s.pushed ++ [r] ∧ s₁.executed = s.executed) ∨
    (∃ r b, e = .executeWaiting r b ∧ s₁.pushed = s.pushed ∧ s₁.executed = s.executed ++ [r]) ∨
    ((∀ r, e ≠ .pushBack r) ∧ (∀ r b, e ≠ .executeWaiting r b) ∧
      s₁.pushed = s.pushed ∧ s₁.executed = s.executed) := by
  obtain ⟨-, rfl⟩ := effect_after h
  cases e
  case pushBack r => exact .inl ⟨r, rfl, rfl, rfl⟩
  case executeWaiting r b => exact .inr (.inl ⟨r, b, rfl, rfl, rfl⟩)
  all_goals exact .inr (.inr ⟨fun _ => by simp, fun _ _ => by simp, rfl, rfl⟩)

theorem effect_lockList {waiting : List Request} (h : effect s t (.lockList waiting) = some s₁) :
    s.closure.waitingContextList = waiting ∧ s.closure.mutexWaitingContextList = none :=
  (effect_after h).1

structure Queue (s : System Tid) : Prop where
  /-- A set flag means a non-empty list, outside the two updates under the mutex. -/
  flagged : s.closure.waitForExclusiveAccess = true → s.closure.waitingContextList ≠ [] ∨
    (∃ t r, s.position t = .pushing r) ∨ ∃ t f, s.position t = .releasing f
  remaining : ∀ t waiting, (s.position t).remaining = some waiting →
    s.pushed = s.executed ++ waiting
  waiting : (∀ t, (s.position t).remaining = none) →
    s.pushed = s.executed ++ s.closure.waitingContextList
  nodup : s.pushed.Nodup
  pushed_lt : ∀ r ∈ s.pushed, r < s.started
  unpushed : ∀ t r, (s.position t).unpushed = some r → r ∉ s.pushed

omit [DecidableEq Tid] in
theorem queue_initial : Queue (initial Tid) where
  flagged := by simp [initial]
  remaining := by simp [initial, Position.remaining]
  waiting := by simp [initial]
  nodup := List.nodup_nil
  pushed_lt := by simp [initial]
  unpushed := by simp [initial]

theorem flagged_step (inv : Queue s) (ok : Regular s (t, e)) (h : step s (t, e) = some s')
    (hflag : s'.closure.waitForExclusiveAccess = true) :
    s'.closure.waitingContextList ≠ [] ∨
      (∃ t r, s'.position t = .pushing r) ∨ ∃ t f, s'.position t = .releasing f := by
  obtain ⟨p, s₁, hp, hs, rfl⟩ := step_eq_some.mp h
  have hpos : s₁.position = s.position := effect_position hs
  rw [goto_closure] at hflag ⊢
  rcases effect_flag hs with ⟨value, rfl, hvalue⟩ | ⟨hset, hsame⟩
  · obtain rfl : value = true := hvalue.symm.trans hflag
    obtain ⟨r, -, hp'⟩ := control_raise hp
    exact .inr (.inl ⟨t, r, by rw [goto_position_self, hp']⟩)
  · rcases effect_list hs with ⟨r, -, hlist⟩ | ⟨rfl, -⟩ | ⟨hpush, hclear, hlist⟩
    · exact .inl (by simp [hlist])
    · obtain ⟨f, -, hp'⟩ := control_clear hp
      exact .inr (.inr ⟨t, f, by rw [goto_position_self, hp']⟩)
    · rw [hlist]
      rcases inv.flagged (hsame ▸ hflag) with hne | ⟨u, r, hu⟩ | ⟨u, f, hu⟩
      · exact .inl hne
      · refine .inr (.inl ⟨u, r, ?_⟩)
        by_cases hut : u = t
        · -- the only ways on from here are the push and an exception
          subst hut
          rw [hu] at hp
          cases e <;> simp_all [control, Regular]
        · rw [goto_position_of_ne s₁ p hut, hpos, hu]
      · refine .inr (.inr ⟨u, f, ?_⟩)
        by_cases hut : u = t
        · subst hut
          rw [hu] at hp
          cases e <;> simp_all [control]
        · rw [goto_position_of_ne s₁ p hut, hpos, hu]

omit [DecidableEq Tid] in
/-- While a thread holds the mutex no other thread is in the loop. -/
theorem remaining_alone (mutex : MutexHeld s) (ht : (s.position t).holdsMutex = true) (u : Tid)
    (hut : u ≠ t) : (s.position u).remaining = none := by
  by_contra hne
  obtain ⟨waiting, hw⟩ := Option.ne_none_iff_exists'.mp hne
  exact hut (mutex.unique (holdsMutex_of_remaining hw) ht)

omit [DecidableEq Tid] in
/-- While the mutex is free no thread is. -/
theorem remaining_free (mutex : MutexHeld s) (hfree : s.closure.mutexWaitingContextList = none)
    (u : Tid) : (s.position u).remaining = none := by
  by_contra hne
  obtain ⟨waiting, hw⟩ := Option.ne_none_iff_exists'.mp hne
  have hheld := (mutex u).mpr (holdsMutex_of_remaining hw)
  simp [hfree] at hheld

/-- What was pushed is what was executed and what is still to be: the rest of a loop, or the
list if no thread is in the loop. -/
structure Recorded (s : System Tid) : Prop where
  remaining : ∀ u waiting, (s.position u).remaining = some waiting →
    s.pushed = s.executed ++ waiting
  waiting : (∀ u, (s.position u).remaining = none) →
    s.pushed = s.executed ++ s.closure.waitingContextList

section Recorded

variable {p : Position} {waiting : List Request} {r : Request} {b : Bool}

theorem others_remaining (hs : effect s t e = some s₁) {u : Tid} (hut : u ≠ t) :
    ((s₁.goto t p).position u).remaining = (s.position u).remaining := by
  rw [goto_position_of_ne s₁ p hut, effect_position hs]

/-- A step that stays out of the loop, or where it is in it. -/
theorem recorded_same (inv : Queue s) (mutex : MutexHeld s)
    (hp : control (s.position t) e = some p) (hs : effect s t e = some s₁)
    (hsame : p.remaining = (s.position t).remaining) (hexec : ∀ r b, e ≠ .executeWaiting r b)
    (hclear : e ≠ .clear) : Recorded (s₁.goto t p) := by
  have hrem : ∀ u, ((s₁.goto t p).position u).remaining = (s.position u).remaining := by
    intro u
    by_cases hut : u = t
    · rw [hut, goto_position_self, hsame]
    · exact others_remaining hs hut
  rcases effect_history hs with ⟨r, rfl, hpush, hexe⟩ | ⟨r, b, rfl, -⟩ | ⟨hnp, -, hpush, hexe⟩
  · have ht := (control_pushBack hp).1
    have hnone : ∀ u, (s.position u).remaining = none := by
      intro u
      by_cases hut : u = t
      · rw [hut, ht]
        rfl
      · exact remaining_alone mutex (by rw [ht]; rfl) u hut
    rcases effect_list hs with ⟨r', he, hlist⟩ | ⟨he, -⟩ | ⟨hne, -⟩
    · cases he
      constructor
      · intro u w hw
        rw [hrem, hnone] at hw
        cases hw
      · intro _
        rw [goto_pushed, goto_executed, goto_closure, hpush, hexe, hlist, inv.waiting hnone,
          List.append_assoc]
    · cases he
    · exact (hne r rfl).elim
  · exact (hexec r b rfl).elim
  · rcases effect_list hs with ⟨r, rfl, -⟩ | ⟨rfl, -⟩ | ⟨-, -, hlist⟩
    · exact (hnp r rfl).elim
    · exact (hclear rfl).elim
    · constructor
      · intro u w hw
        rw [hrem] at hw
        rw [goto_pushed, goto_executed, hpush, hexe]
        exact inv.remaining u w hw
      · intro hall
        rw [goto_pushed, goto_executed, goto_closure, hpush, hexe, hlist]
        exact inv.waiting fun u => (hrem u).symm.trans (hall u)

/-- The loop begins with the list. -/
theorem recorded_lockList (inv : Queue s) (mutex : MutexHeld s)
    (hs : effect s t (.lockList waiting) = some s₁) (hp : p.remaining = some waiting) :
    Recorded (s₁.goto t p) := by
  obtain ⟨hlist, hfree⟩ := effect_lockList hs
  have hnone := remaining_free mutex hfree
  rcases effect_history hs with ⟨r, he, -⟩ | ⟨r, b, he, -⟩ | ⟨-, -, hpush, hexe⟩
  · cases he
  · cases he
  · constructor
    · intro u w hw
      rw [goto_pushed, goto_executed, hpush, hexe]
      by_cases hut : u = t
      · rw [hut, goto_position_self, hp, Option.some.injEq] at hw
        rw [← hw, ← hlist]
        exact inv.waiting hnone
      · rw [others_remaining hs hut, hnone u] at hw
        cases hw
    · intro hall
      have hself := hall t
      rw [goto_position_self, hp] at hself
      cases hself

/-- The loop executes the first of the rest. -/
theorem recorded_executeWaiting (inv : Queue s) (mutex : MutexHeld s)
    (hs : effect s t (.executeWaiting r b) = some s₁)
    (hq : (s.position t).remaining = some (r :: waiting)) (hp : p.remaining = some waiting) :
    Recorded (s₁.goto t p) := by
  have ht := holdsMutex_of_remaining hq
  rcases effect_history hs with ⟨r', he, -⟩ | ⟨r', b', he, hpush, hexe⟩ | ⟨-, hne, -⟩
  · cases he
  · cases he
    constructor
    · intro u w hw
      rw [goto_pushed, goto_executed, hpush, hexe]
      by_cases hut : u = t
      · rw [hut, goto_position_self, hp, Option.some.injEq] at hw
        rw [← hw, inv.remaining t _ hq, List.append_assoc, List.singleton_append]
      · rw [others_remaining hs hut, remaining_alone mutex ht u hut] at hw
        cases hw
    · intro hall
      have hself := hall t
      rw [goto_position_self, hp] at hself
      cases hself
  · exact (hne r b rfl).elim

/-- Behind the loop the list is cleared. -/
theorem recorded_clear (inv : Queue s) (mutex : MutexHeld s)
    (hs : effect s t .clear = some s₁) (hq : (s.position t).remaining = some [])
    (hp : p.remaining = none) : Recorded (s₁.goto t p) := by
  have ht := holdsMutex_of_remaining hq
  rcases effect_history hs with ⟨r', he, -⟩ | ⟨r', b', he, -⟩ | ⟨-, -, hpush, hexe⟩
  · cases he
  · cases he
  · constructor
    · intro u w hw
      by_cases hut : u = t
      · rw [hut, goto_position_self, hp] at hw
        cases hw
      · rw [others_remaining hs hut, remaining_alone mutex ht u hut] at hw
        cases hw
    · intro _
      rw [goto_pushed, goto_executed, goto_closure, hpush, hexe]
      rcases effect_list hs with ⟨_, he, -⟩ | ⟨-, hlist⟩ | ⟨-, hne, -⟩
      · cases he
      · rw [hlist]
        exact inv.remaining t _ hq
      · exact (hne rfl).elim

theorem recorded_step (inv : Queue s) (mutex : MutexHeld s) (ok : Regular s (t, e))
    (h : step s (t, e) = some s') : Recorded s' := by
  obtain ⟨p, s₁, hp, hs, rfl⟩ := step_eq_some.mp h
  have hthrows : e ≠ .throws := by
    rintro rfl
    exact ok
  rcases control_remaining hp hthrows with ⟨hsame, hlock, hexec, hclear⟩ |
    ⟨waiting, rfl, hp'⟩ | ⟨r, b, waiting, rfl, hq, hp'⟩ | ⟨rfl, hq, hp'⟩
  · exact recorded_same inv mutex hp hs hsame hexec hclear
  · exact recorded_lockList inv mutex hs hp'
  · exact recorded_executeWaiting inv mutex hs hq hp'
  · exact recorded_clear inv mutex hs hq hp'

end Recorded

theorem pushed_step (inv : Queue s) (own : Owned s) (ok : Regular s (t, e))
    (h : step s (t, e) = some s') :
    s'.pushed.Nodup ∧ (∀ r ∈ s'.pushed, r < s'.started) ∧
      ∀ u r, (s'.position u).unpushed = some r → r ∉ s'.pushed := by
  obtain ⟨p, s₁, hp, hs, rfl⟩ := step_eq_some.mp h
  have hpos : s₁.position = s.position := effect_position hs
  have hle := started_le_step hs
  have hthrows : e ≠ .throws := by
    rintro rfl
    exact ok
  have hfresh : ∀ u r, ((s₁.goto t p).position u).unpushed = some r →
      r ∉ s.pushed ∧ (u ≠ t → (s.position u).unpushed = some r) := by
    intro u r hu
    by_cases hut : u = t
    · subst hut
      rw [goto_position_self] at hu
      refine ⟨?_, fun hne => (hne rfl).elim⟩
      rcases control_unpushed hp hthrows with hnone | hold | ⟨r', rfl, hr'⟩
      · simp [hnone] at hu
      · exact inv.unpushed u r (hold ▸ hu)
      · obtain rfl : r' = r := by simpa [hr'] using hu
        rcases serves_step hp hs (serves_of_keeps (keeps_of_unpushed hr')) with hold | ⟨-, hr⟩
        · obtain ⟨hadm, -⟩ := control_startRunRequest hp
          simp [hadm, Position.serves] at hold
        · exact fun hmem => Nat.ne_of_lt (inv.pushed_lt r' hmem) hr
    · rw [goto_position_of_ne s₁ p hut, hpos] at hu
      exact ⟨inv.unpushed u r hu, fun _ => hu⟩
  simp only [goto_pushed, goto_started]
  rcases effect_history hs with ⟨r, rfl, hpush, -⟩ | ⟨_, _, -, hpush, -⟩ | ⟨-, -, hpush, -⟩
  · obtain ⟨hq, hp'⟩ := control_pushBack hp
    have hr : r ∉ s.pushed := inv.unpushed t r (by rw [hq]; rfl)
    rw [hpush]
    refine ⟨?_, ?_, ?_⟩
    · rw [List.nodup_append_comm]
      exact List.nodup_cons.mpr ⟨hr, inv.nodup⟩
    · intro r' hr'
      rcases List.mem_append.mp hr' with hold | hnew
      · exact Nat.lt_of_lt_of_le (inv.pushed_lt r' hold) hle
      · rw [List.mem_singleton.mp hnew]
        exact Nat.lt_of_lt_of_le (own.serves_lt t r (by rw [hq]; rfl)) hle
    · intro u r' hu
      obtain ⟨hnot, hold⟩ := hfresh u r' hu
      by_cases hut : u = t
      · rw [hut, goto_position_self, hp'] at hu
        cases hu
      · have hne : r' ≠ r := by
          rintro rfl
          exact hut (own.unique u t r' (serves_of_keeps (keeps_of_unpushed (hold hut)))
            (by rw [hq]; rfl))
        simp [hnot, hne]
  all_goals
    rw [hpush]
    exact ⟨inv.nodup, fun r hr => Nat.lt_of_lt_of_le (inv.pushed_lt r hr) hle,
      fun u r hu => (hfresh u r hu).1⟩

structure QueueInvariant (s : System Tid) : Prop where
  lockout : LockoutInvariant s
  plain : Plain s
  queue : Queue s

omit [DecidableEq Tid] in
theorem queueInvariant_initial : QueueInvariant (initial Tid) where
  lockout := lockoutInvariant_initial
  plain := plain_initial
  queue := queue_initial

theorem queueInvariant_step (inv : QueueInvariant s) (ok : Regular s (t, e))
    (h : step s (t, e) = some s') : QueueInvariant s' where
  lockout := lockoutInvariant_step inv.lockout
    (relayed_of_regular inv.plain inv.lockout.owned ok h) h
  plain := plain_step inv.plain ok h
  queue := by
    obtain ⟨hremaining, hwaiting⟩ := recorded_step inv.queue inv.lockout.covers.mutex ok h
    obtain ⟨hnodup, hlt, hunpushed⟩ := pushed_step inv.queue inv.lockout.owned ok h
    exact ⟨flagged_step inv.queue ok h, hremaining, hwaiting, hnodup, hlt, hunpushed⟩

omit [DecidableEq Tid] in
theorem flag_iff_of_mutex_free (inv : QueueInvariant s)
    (free : s.closure.mutexWaitingContextList = none) :
    s.closure.waitForExclusiveAccess = true ↔ s.closure.waitingContextList ≠ [] := by
  constructor
  · intro hflag
    have outside : ∀ u, (s.position u).holdsMutex = true → False := fun u hu => by
      have := (inv.lockout.covers.mutex u).mpr hu
      simp [free] at this
    rcases inv.queue.flagged hflag with hne | ⟨u, r, hu⟩ | ⟨u, f, hu⟩
    · exact hne
    · exact (outside u (by rw [hu]; rfl)).elim
    · exact (outside u (by rw [hu]; rfl)).elim
  · exact inv.lockout.covers.covers

omit [DecidableEq Tid] in
theorem executed_prefix (inv : QueueInvariant s) : s.executed <+: s.pushed := by
  by_cases hall : ∀ u, (s.position u).remaining = none
  · exact ⟨_, (inv.queue.waiting hall).symm⟩
  · obtain ⟨u, hu⟩ := not_forall.mp hall
    obtain ⟨waiting, hw⟩ := Option.ne_none_iff_exists'.mp hu
    exact ⟨waiting, (inv.queue.remaining u waiting hw).symm⟩

omit [DecidableEq Tid] in
theorem executed_eq_of_quiescent (inv : QueueInvariant s) (quiet : Quiescent s) :
    s.executed = s.pushed := by
  have hnone : ∀ u, (s.position u).remaining = none := by
    intro u
    have := quiet.2 u
    cases hu : s.position u <;> simp_all [Position.outside, Position.remaining]
  rw [inv.queue.waiting hnone, (open_of_quiescent inv.lockout quiet).1, List.append_nil]

/-- Flag, counter and queue of a regular run, for any number of threads and any
order of their steps. -/
theorem queue_of_regular (acts : List (Tid × Event)) (s : System Tid)
    (ok : StepSystem.Along step Regular (initial Tid) acts)
    (h : StepSystem.run step (initial Tid) acts = some s) :
    (s.closure.mutexWaitingContextList = none →
      (s.closure.waitForExclusiveAccess = true ↔ s.closure.waitingContextList ≠ [])) ∧
    0 ≤ s.closure.runningRequestCounter ∧
    s.pushed.Nodup ∧ s.executed <+: s.pushed ∧
    (Quiescent s → s.executed = s.pushed) := by
  have inv : QueueInvariant s := by
    refine StepSystem.invariant_run QueueInvariant ?_ queueInvariant_initial ok h
    rintro s ⟨t, e⟩ s' inv hok hstep
    exact queueInvariant_step inv hok hstep
  refine ⟨flag_iff_of_mutex_free inv, ?_, inv.queue.nodup, executed_prefix inv,
    executed_eq_of_quiescent inv⟩
  rw [show s.closure.runningRequestCounter = s.running.length from inv.lockout.accounted]
  exact Int.natCast_nonneg _

/-- Two requests are queued; the second decrement processes both. -/
def twoQueued : List (Fin 2 × Event) :=
  [(0, .haltedForMaintenance false), (1, .haltedForMaintenance false),
   (0, .startRunRequest 0), (1, .startRunRequest 1), (0, .execute 0 false),
   (1, .execute 1 false), (1, .lock), (1, .setWaitForExclusiveAccess true), (1, .pushBack 1),
   (0, .lock), (0, .setWaitForExclusiveAccess true), (0, .pushBack 0),
   (1, .doneRunRequest 1 false), (0, .doneRunRequest 0 true), (0, .haltedForMaintenance true),
   (0, .lockList [1, 0]), (0, .executeWaiting 1 true), (0, .reply),
   (0, .executeWaiting 0 false), (0, .reply), (0, .clear),
   (0, .setWaitForExclusiveAccess false)]

theorem queue_twoQueued :
    ∃ s, StepSystem.run step (initial (Fin 2)) twoQueued = some s ∧
      s.pushed = [1, 0] ∧ s.executed = s.pushed :=
  ⟨_, rfl, rfl, (queue_of_regular twoQueued _ (by decide) rfl).2.2.2.2 ⟨by decide, by decide⟩⟩

end StrusWebService.Service
