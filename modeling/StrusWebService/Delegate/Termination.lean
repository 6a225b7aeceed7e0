import StrusWebService.Delegate.Ledger

/-! # At most one termination

Runs without exceptions. A failing answer zeroes the counter while the loop of its
call may still be sending, so a send refused or an answer rejected later ends the
request a second time. The branch of the requests without URL ends it a second
time when it counts down the counter of a follow-up list of another size.
-/

namespace StrusWebService.Delegate

open Countdown

/-- A delegated request in which no call throws. -/
def Delegating : Action → Prop
  | .run _ env => env.fault = none ∧ env.success = true ∧ env.follow ≠ []
  | .issue _ env => env.fault = none
  | .answer _ _ env => env.fault = none

instance (a : Action) : Decidable (Delegating a) :=
  match a with
  | .run _ env => inferInstanceAs (Decidable (env.fault = none ∧ _ ∧ _))
  | .issue _ env => inferInstanceAs (Decidable (env.fault = none))
  | .answer _ _ env => inferInstanceAs (Decidable (env.fault = none))

/-- A request without URL takes the counter to zero only as the last one of a list
that has the size the code remembers. If no list follows, nothing is left before
the iterators, which may dangle then. -/
def LastFeed (env : Env) (s : State) (i : Nat) : Prop :=
  ∀ di ∈ (s.issues i).rest.head?, di.url = none → env.accepted = true →
    (s.issues i).counter = 1 →
      (s.issues i).didx + 1 = (s.issues i).size ∧ (env.follow = [] → (s.issues i).rest.tail = [])

/-- A send is refused and an answer without receiver rejected only while the
counter of the call is positive. -/
def RefusedOpen (env : Env) (s : State) (i : Nat) : Prop :=
  ∀ di ∈ (s.issues i).rest.head?,
    (if di.url = none then env.accepted else env.sent) = false → 0 < (s.issues i).counter

/-- The condition under which a request is terminated at most once. -/
def OneTermination (s : State) : Action → Prop
  | .issue i env => LastFeed env s i ∧ RefusedOpen env s i
  | .run _ _ | .answer _ _ _ => True

instance (s : State) (a : Action) : Decidable (OneTermination s a) :=
  match a with
  | .run _ _ | .answer _ _ _ => isTrue trivial
  | .issue i env => inferInstanceAs (Decidable (
      (∀ di ∈ (s.issues i).rest.head?, di.url = none → env.accepted = true →
        (s.issues i).counter = 1 →
          (s.issues i).didx + 1 = (s.issues i).size ∧
            (env.follow = [] → (s.issues i).rest.tail = [])) ∧
      ∀ di ∈ (s.issues i).rest.head?,
        (if di.url = none then env.accepted else env.sent) = false → 0 < (s.issues i).counter))

/-! ## Responses and terminations -/

/-- How often `complete_response` was called on the HTTP context. -/
def completions (events : List Event) : Nat := events.count .completeResponse

section Completions

variable {env : Env} {e : Event} {events : List Event}

@[simp] theorem completions_nil : completions [] = 0 := rfl

@[simp] theorem completions_append (events' : List Event) :
    completions (events ++ events') = completions events + completions events' :=
  List.count_append

theorem completions_cons (h : e ≠ .completeResponse) :
    completions (e :: events) = completions events :=
  List.count_cons_of_ne h

@[simp] theorem completions_completeResponse :
    completions (.completeResponse :: events) = completions events + 1 :=
  List.count_cons_self

@[simp] theorem completions_terminationEvents (b : Branch) :
    completions (terminationEvents env b) = 0 := by
  unfold terminationEvents
  split <;> rfl

@[simp] theorem completions_logEvents (state : String) (value : Int) :
    completions (logEvents env state value) = 0 := by
  unfold logEvents
  split <;> rfl

@[simp] theorem completions_completionEvents (requestCount : Int) :
    completions (completionEvents env requestCount) = 1 := by
  simp [completionEvents, completions_cons]

@[simp] theorem completions_refusedEvents (url : String) :
    completions (refusedEvents env url) = 1 := by
  simp [refusedEvents, completions_cons]

@[simp] theorem completions_failureEvents (answer : WebRequestAnswer) :
    completions (failureEvents env answer) = 1 := by
  simp [failureEvents, completions_cons]

@[simp] theorem completions_rejectedEvents : completions (rejectedEvents env) = 1 := by
  simp [rejectedEvents, completions_cons]

@[simp] theorem completions_feedEvent_cons (di : DelegateRequest) (accepted : Bool) :
    completions (feedEvent di accepted :: events) = completions events :=
  completions_cons (by simp [feedEvent])

@[simp] theorem completions_putEvent_cons (r : Receiver) (status : WebRequestAnswer)
    (accepted : Bool) : completions (putEvent r status accepted :: events) = completions events :=
  completions_cons (by simp [putEvent])

end Completions

variable {env : Env} {s t : State} {i : Nat} {di : DelegateRequest} {ds : List DelegateRequest}
  {r : Receiver} {status : WebRequestAnswer}

/-- The events of a step complete the response as often as they terminate. -/
def Paired (s t : State) : Prop :=
  ∃ es, t.trace = s.trace ++ es ∧ completions es = terminations es

theorem paired_issued (h : Issued env s i di t) : Paired s t := by
  cases h <;> exact ⟨_, rfl, by simp [terminations_cons, completions_cons]⟩

theorem paired_answered (h : Answered env s r status t) : Paired s t := by
  cases h
  case late => exact ⟨[], (List.append_nil _).symm, rfl⟩
  all_goals exact ⟨_, rfl, by simp [terminations_cons, completions_cons]⟩

/-! ## The step lemma -/

/-- One call and the trace change, and no counter becomes positive. -/
theorem once_modifyIssue {f : Issue → Issue} {es : List Event} (inv : s.ledger.AtMostOnce)
    (hes : terminations es = 0)
    (hf : (s.issues i).counter ≤ 0 → (f (s.issues i)).counter ≤ 0) :
    ((s.modifyIssue i f).append es).ledger.AtMostOnce := by
  rw [State.ledger_modifyIssue_append, hes]
  refine Ledger.once_keep inv rfl fun j hj => ?_
  by_cases hji : j = i
  · subst hji
    rw [Ledger.set_counter_self]
    exact hf hj
  · rw [Ledger.set_counter_of_ne hji]
    exact hj

/-- A call with a positive counter ends the request. -/
theorem once_closed {f : Issue → Issue} {es : List Event} (inv : s.ledger.AtMostOnce)
    (hpos : 0 < (s.issues i).counter) (hes : terminations es = 1)
    (hf : (f (s.issues i)).counter ≤ 0) :
    ((s.modifyIssue i f).append es).ledger.AtMostOnce := by
  rw [State.ledger_modifyIssue_append, hes]
  apply Ledger.once_close inv hpos rfl
  · rw [Ledger.set_counter_self]
    exact hf
  · exact fun j hj => Ledger.set_counter_of_ne hj

theorem once_issued (inv : s.ledger.AtMostOnce) (hrest : (s.issues i).rest = di :: ds)
    (hopen : RefusedOpen env s i) (h : Issued env s i di t) : t.ledger.AtMostOnce := by
  have hhead : di ∈ (s.issues i).rest.head? := by simp [hrest]
  cases h with
  | sent url hurl hsent =>
      have hawait : (s.await ⟨i, (s.issues i).counter, url, di.receiverSchema⟩).ledger.AtMostOnce :=
        Ledger.once_keep inv rfl fun _ hj => hj
      exact once_modifyIssue hawait (terminations_singleton (by simp)) id
  | refused url hurl hsent =>
      have hpos := hopen di hhead (by simp [hurl, hsent])
      apply once_closed inv hpos
      · simp [terminations_cons]
      · exact Int.le_refl 0
  | fed hurl hacc hc =>
      apply once_modifyIssue inv
      · simp
      · simp only [Issue.advance, Issue.setCounter]
        omega
  | again hurl hacc hc hfollow =>
      have hpos : 0 < s.ledger.counter i := by
        rw [State.ledger_counter]
        omega
      rw [State.ledger_modifyIssue_append]
      apply Ledger.once_handOver (j := i) inv hpos
      · simp [terminations_cons]
      · exact fun hne => (hne rfl).elim
      · exact fun k hk _ => Ledger.set_counter_of_ne hk
  | completed hurl hacc hc hfollow =>
      apply once_closed inv (by omega)
      · simp [terminations_cons]
      · simp only [Issue.advance, Issue.clearFollow, Issue.setCounter]
        omega
  | rejected hurl hacc =>
      have hpos := hopen di hhead (by simp [hurl, hacc])
      apply once_closed inv hpos
      · simp
      · exact Int.le_refl 0

theorem once_answered (inv : s.ledger.AtMostOnce) (h : Answered env s r status t) :
    t.ledger.AtMostOnce := by
  cases h with
  | late hc => exact inv
  | counted hc hgood hacc hmore =>
      apply once_modifyIssue inv
      · simp
      · simp only [Issue.setCounter]
        omega
  | completed hgood hacc hc hfollow =>
      apply once_closed inv (by omega)
      · simp [terminations_cons]
      · exact Int.le_refl 0
  | issued hgood hacc hc hfollow =>
      have hpos : 0 < s.ledger.counter r.issue := by
        rw [State.ledger_counter]
        omega
      apply Ledger.once_handOver (j := s.issued) inv hpos
      · simp [State.issue, terminations_cons]
      · intro hne
        simp [State.issue, hne, Issue.setCounter]
      · intro k hk hkj
        simp [State.issue, hkj, State.modifyIssue_of_ne _ _ _ hk]
  | rejected hc hgood hacc =>
      apply once_closed inv hc
      · simp [terminations_cons]
      · exact Int.le_refl 0
  | failed hc hbad =>
      apply once_closed inv hc
      · simp
      · exact Int.le_refl 0

/-- `runRequest` was called and at most one call is open. -/
structure Once (s : State) : Prop where
  started : s.started = 1
  once : s.ledger.AtMostOnce
  paired : completions s.trace = terminations s.trace

theorem Paired.trace (h : Paired s t) (hs : completions s.trace = terminations s.trace) :
    completions t.trace = terminations t.trace := by
  rcases h with ⟨es, htrace, hes⟩
  rw [htrace, completions_append, terminations_append, hs, hes]

theorem once_delegated {requests : List DelegateRequest} {es : List Event}
    (hes : terminations es = 0) (hcompletions : completions es = 0) :
    Once ((initial.start.issue .runRequest requests).append es) where
  started := rfl
  once := by
    have hdone : terminations ((initial.start.issue .runRequest requests).append es).trace = 0 := by
      rw [State.append_trace, terminations_append, hes]
      rfl
    refine ⟨?_, fun i hi => ⟨hdone, fun j hj => ?_⟩⟩
    · rw [State.ledger_done, hdone]
      exact Nat.zero_le 1
    · -- only the first call has a counter
      have hzero : ∀ k, k ≠ 0 → (initial.start.issue .runRequest requests).issues k = {} :=
        fun k hk => Function.update_of_ne hk _ _
      have hi0 : i = 0 := by
        by_contra hne
        simp [hzero i hne] at hi
      subst hi0
      simp [hzero j hj]
  paired := by
    rw [State.append_trace, completions_append, terminations_append, hes, hcompletions]
    rfl

/-- Steps of a delegated request in which nothing throws. -/
theorem delegating_cases {a : Action} (hd : Delegating a) (h : step s a = some t)
    (hrace : ∀ i env di ds, a = .issue i env → (s.issues i).rest = di :: ds → NoRace env s i di) :
    (∃ doReplyContent env, a = .run doReplyContent env ∧ s.started = 0 ∧
      t = (s.start.issue .runRequest env.follow).append
        [.execute true, .logInfoMessages, .getDelegateRequests env.follow]) ∨
    (∃ i env di ds, a = .issue i env ∧ (s.issues i).rest = di :: ds ∧
      (s.issues i).dangling = false ∧ Issued env s i di t) ∨
    (∃ r status env, a = .answer r status env ∧ r ∈ s.outstanding ∧
      Answered env (s.take r) r status t) := by
  cases a with
  | run doReplyContent env =>
      obtain ⟨hstarted, rfl⟩ := step_run.mp h
      rcases hd with ⟨hfault, hsuccess, hfollow⟩
      exact .inl ⟨doReplyContent, env, rfl, hstarted,
        runRequest_delegated hfault hsuccess hfollow doReplyContent⟩
  | issue i env =>
      obtain ⟨⟨hne, hdangling⟩, rfl⟩ := step_issue.mp h
      obtain ⟨di, ds, hrest⟩ := List.exists_cons_of_ne_nil hne
      cases issueLoop_cases hrest (hrace i env di ds rfl hrest) with
      | inl h => exact .inr (.inl ⟨i, env, di, ds, rfl, hrest, hdangling, h⟩)
      | inr h =>
          rcases h with ⟨site, u, hfault, -⟩
          have hd : env.fault = none := hd
          simp [hd] at hfault
  | answer r status env =>
      obtain ⟨hr, rfl⟩ := step_answer.mp h
      cases putAnswer_cases env (s.take r) r status with
      | inl h => exact .inr (.inr ⟨r, status, env, rfl, hr, h⟩)
      | inr h =>
          rcases h with ⟨site, hfault, -⟩
          have hd : env.fault = none := hd
          simp [hd] at hfault

/-- Nothing happened yet, or at most one call is open. -/
def Terminating (s : State) : Prop := s = initial ∨ Once s

theorem terminating_step {a : Action} (inv : Terminating s) (hd : Delegating a)
    (ok : OneTermination s a) (h : step s a = some t) : Terminating t := by
  have hrace : ∀ i env di ds, a = .issue i env → (s.issues i).rest = di :: ds →
      NoRace env s i di := by
    rintro i env di ds rfl hrest hurl hacc hc
    exact (ok.1 di (by simp [hrest]) hurl hacc hc).1
  right
  rcases delegating_cases hd h hrace with ⟨_, env, rfl, hstarted, rfl⟩ |
    ⟨i, env, di, ds, rfl, hrest, -, h⟩ | ⟨r, status, env, rfl, hr, h⟩
  · cases inv with
    | inl hinitial =>
        subst hinitial
        exact once_delegated rfl rfl
    | inr inv =>
        have := inv.started
        omega
  · cases inv with
    | inl hinitial =>
        subst hinitial
        cases hrest
    | inr inv => exact ⟨h.started.trans inv.started, once_issued inv.once hrest ok.2 h,
        (paired_issued h).trace inv.paired⟩
  · cases inv with
    | inl hinitial =>
        subst hinitial
        cases hr
    | inr inv => exact ⟨h.started.trans inv.started, once_answered (s := s.take r) inv.once h,
        (paired_answered h).trace inv.paired⟩

/-- In runs whose steps meet the condition a delegated request completes the
response and signals its termination at most once. -/
theorem termination_at_most_once (acts : List Action) (s : State)
    (delegating : ∀ a ∈ acts, Delegating a)
    (ok : StepSystem.Along step OneTermination initial acts)
    (h : StepSystem.run step initial acts = some s) :
    completions s.trace ≤ 1 ∧ terminations s.trace ≤ 1 := by
  have inv : Terminating s := by
    have guarded := (StepSystem.along_of_forall delegating initial).and ok
    refine StepSystem.invariant_run Terminating ?_ (.inl rfl) guarded h
    exact fun _ _ _ inv hok hstep => terminating_step inv hok.1 hok.2 hstep
  cases inv with
  | inl h =>
      subst h
      exact ⟨Nat.zero_le 1, Nat.zero_le 1⟩
  | inr inv =>
      have hdone : terminations s.trace ≤ 1 := inv.once.1
      exact ⟨inv.paired ▸ hdone, hdone⟩

/-- The answer of the first receiver fails; then the second send is refused. -/
def refusedAfterFailure : List Action :=
  [.run true { follow := [.remote "a", .remote "b"] }, .issue 0 {},
   .answer ⟨0, 2, "a", ""⟩ { ok := false, httpStatus := 500 } {}, .issue 0 { sent := false }]

/-- The answer of the first receiver fails; then the request context rejects what
the second delegate request feeds to itself. -/
def rejectedAfterFailure : List Action :=
  [.run true { follow := [.remote "a", .self] }, .issue 0 {},
   .answer ⟨0, 2, "a", ""⟩ { ok := false, httpStatus := 500 } {}, .issue 0 { accepted := false }]

/-- A list of one request is followed by a list of two. -/
def raceInFollow : List Action :=
  [.run true { follow := [.self] }, .issue 0 { follow := [.remote "a", .self] }, .issue 0 {},
   .issue 0 {}]

theorem termination_twice :
    (∃ s, StepSystem.run step initial refusedAfterFailure = some s ∧
      completions s.trace = 2 ∧ terminations s.trace = 2) ∧
    (∃ s, StepSystem.run step initial rejectedAfterFailure = some s ∧
      completions s.trace = 2 ∧ terminations s.trace = 2) ∧
    (∃ s, StepSystem.run step initial raceInFollow = some s ∧
      completions s.trace = 2 ∧ terminations s.trace = 2) :=
  ⟨⟨_, rfl, rfl, rfl⟩, ⟨_, rfl, rfl, rfl⟩, ⟨_, rfl, rfl, rfl⟩⟩

/-- The send is refused before the answer of the first receiver fails. -/
def refusedBeforeFailure : List Action :=
  [.run true { follow := [.remote "a", .remote "b"] }, .issue 0 {}, .issue 0 { sent := false },
   .answer ⟨0, 2, "a", ""⟩ { ok := false, httpStatus := 500 } {}]

theorem termination_refusedBeforeFailure :
    ∃ s, StepSystem.run step initial refusedBeforeFailure = some s ∧
      completions s.trace ≤ 1 ∧ terminations s.trace ≤ 1 :=
  ⟨_, rfl, termination_at_most_once refusedBeforeFailure _ (by decide) (by decide) rfl⟩

end StrusWebService.Delegate
