import StrusWebService.Delegate.Balance
import StrusWebService.Delegate.Termination

/-! # Accounting over the rounds of delegate requests

Runs in which all sends and answers are successful. A round is a list returned by
`getDelegateRequests`; how many of its requests are unanswered is computed from the
trace alone. The counter of the last call of `issueDelegateRequests` is this number,
as long as the lists fetched by the branch of the requests without URL have the
size of the list the call was started with.
-/

namespace StrusWebService.Delegate

open Countdown

/-! ## Rounds in a trace -/

/-- A list of delegate requests starts a round, an answer put into the request
context answers one of them. -/
def track (unanswered : Int) : Event → Int
  | .getDelegateRequests requests => requests.length
  | .putDelegateRequestAnswer _ _ _ => unanswered - 1
  | _ => unanswered

/-- The requests of the current round not answered yet. -/
def unanswered (events : List Event) : Int := events.foldl track 0

/-- The next round is fetched, or the response completed. -/
def endsRound : Event → Bool
  | .getDelegateRequests _ | .completeResponse => true
  | _ => false

/-- A round ends only when all its requests are answered. -/
def RoundsAnswered : Int → List Event → Prop
  | _, [] => True
  | n, e :: events => (endsRound e = true → n = 0) ∧ RoundsAnswered (track n e) events

@[simp] theorem unanswered_append (events events' : List Event) :
    unanswered (events ++ events') = events'.foldl track (unanswered events) :=
  List.foldl_append

theorem roundsAnswered_append (n : Int) (events events' : List Event) :
    RoundsAnswered n (events ++ events') ↔
      RoundsAnswered n events ∧ RoundsAnswered (events.foldl track n) events' := by
  induction events generalizing n with
  | nil => simp [RoundsAnswered]
  | cons e events ih => simp [RoundsAnswered, ih, and_assoc]

/-- At every place of the trace where a round ends, its requests are answered. -/
theorem unanswered_eq_zero {events before after : List Event} {e : Event}
    (h : RoundsAnswered 0 events) (hsplit : events = before ++ e :: after)
    (he : endsRound e = true) : unanswered before = 0 := by
  rw [hsplit, roundsAnswered_append] at h
  exact h.2.1 he

section Closing

variable {env : Env}

theorem track_closing (env : Env) (requestCount : Int) :
    (completionEvents env requestCount).foldl track 0 = 0 ∧
      RoundsAnswered 0 (completionEvents env requestCount) := by
  unfold completionEvents terminationEvents logEvents
  cases env.processes .completed <;> cases env.logs <;> simp [track, RoundsAnswered]

end Closing

/-! ## The step lemma -/

variable {env : Env} {s t : State} {i : Nat} {di : DelegateRequest} {ds : List DelegateRequest}
  {r : Receiver} {status : WebRequestAnswer}

/-- A delegated request in which no call throws, every send is accepted and every
answer is successful and accepted. -/
def Successful (a : Action) : Prop :=
  Delegating a ∧ match a with
    | .run _ _ => True
    | .issue _ env => env.sent = true ∧ env.accepted = true
    | .answer _ status env => status.successful = true ∧ env.accepted = true

instance (a : Action) : Decidable (Successful a) :=
  match a with
  | .run doReplyContent env => inferInstanceAs (Decidable (Delegating (.run doReplyContent env) ∧ _))
  | .issue i env => inferInstanceAs (Decidable (Delegating (.issue i env) ∧ _ ∧ _))
  | .answer r status env => inferInstanceAs (Decidable (Delegating (.answer r status env) ∧ _ ∧ _))

/-- Lists fetched by the branch of the requests without URL keep the size. -/
def SameSize (s : State) : Action → Prop
  | .issue i env => EqualSize env s i
  | .run _ _ | .answer _ _ _ => True

instance (s : State) (a : Action) : Decidable (SameSize s a) :=
  match a with
  | .run _ _ | .answer _ _ _ => isTrue trivial
  | .issue i env => inferInstanceAs (Decidable (
      ∀ di ∈ (s.issues i).rest.head?, di.url = none → env.accepted = true →
        (s.issues i).counter = 1 → env.follow = [] ∨ env.follow.length = (s.issues i).size))

theorem exact_issued (sound : s.ledger.Sound) (exact : s.ledger.Exact)
    (hrest : (s.issues i).rest = di :: ds) (hsize : EqualSize env s i)
    (hok : (if di.url = none then env.accepted else env.sent) = true) (h : Issued env s i di t) :
    t.ledger.Exact := by
  have hhead : di ∈ (s.issues i).rest.head? := by simp [hrest]
  have hpending := pending_of_rest hrest
  have hexact : (s.issues i).counter = s.pending i := exact i
  cases h with
  | sent url hurl _ =>
      rw [State.ledger_modifyIssue_append, State.ledger_await, Ledger.set_set]
      apply exact.set
      simp [Issue.advance, hrest, State.awaiting_await]
      omega
  | refused url hurl hnot => simp [hurl, hnot] at hok
  | fed hurl _ hc =>
      rw [State.ledger_modifyIssue_append]
      apply exact.set
      simp [Issue.advance, Issue.setCounter, hrest]
      omega
  | again hurl hacc hc hfollow =>
      obtain ⟨-, -, hnone⟩ := balanced_of_rest sound hrest hc
      have hlen := (hsize di hhead hurl hacc hc).resolve_left hfollow
      rw [State.ledger_modifyIssue_append]
      apply exact.set
      simp [Issue.again, Issue.setCounter, hnone, hlen]
  | completed hurl _ hc hfollow =>
      obtain ⟨-, hlast, hnone⟩ := balanced_of_rest sound hrest hc
      rw [State.ledger_modifyIssue_append]
      apply exact.set
      simp [Issue.advance, Issue.clearFollow, Issue.setCounter, hrest, hlast, hnone, hc]
  | rejected hurl hnot => simp [hurl, hnot] at hok

/-- An open call with an answer missing. -/
theorem counter_pos_of_outstanding (exact : s.ledger.Exact) (hr : r ∈ s.outstanding) :
    0 < (s.issues r.issue).counter := by
  have hexact : (s.issues r.issue).counter = s.pending r.issue := exact r.issue
  have := pending_pos hr
  omega

theorem exact_answered (exact : s.ledger.Exact) (wf : WellFormed s) (hr : r ∈ s.outstanding)
    (hgood : failure env status = none) (h : Answered env (s.take r) r status t) :
    t.ledger.Exact := by
  have hexact : (s.issues r.issue).counter = s.pending r.issue := exact r.issue
  have hpos := pending_pos hr
  cases h with
  | late hc =>
      have hc : (s.issues r.issue).counter ≤ 0 := hc
      omega
  | counted hc _ hacc hmore =>
      rw [State.ledger_take_setCounter s hr fun c => c.counter - 1]
      apply exact.set
      omega
  | completed _ hacc hc hfollow =>
      have hc : (s.issues r.issue).counter = 1 := hc
      rw [State.ledger_take_setCounter s hr fun _ => 0]
      apply exact.set
      omega
  | issued _ hacc hc hfollow =>
      have hc : (s.issues r.issue).counter = 1 := hc
      have hfresh := (wf.take (r := r)).setCounter (i := r.issue) (fun _ => 0)
      rw [State.ledger_append, State.ledger_issue _ _ _ hfresh.awaiting_issued,
        ← State.append_nil ((s.take r).modifyIssue r.issue fun c => c.setCounter 0),
        State.ledger_take_setCounter s hr fun _ => 0]
      have hset : (s.ledger.set r.issue 0 (s.pending r.issue - 1) s.ledger.done).Exact :=
        exact.set (by omega)
      exact hset.set rfl
  | rejected _ hsucc hacc => simp [failure, hsucc, hacc] at hgood
  | failed _ hbad => simp [failure, hbad] at hgood

/-- The counter of the last call follows the trace; no other call is open. -/
structure Tracked (s : State) : Prop where
  current : ∀ i, 0 < (s.issues i).counter → i + 1 = s.issued
  unanswered : (s.issues (s.issued - 1)).counter = unanswered s.trace
  answered : RoundsAnswered 0 s.trace

/-- The last call and the trace change together. -/
theorem Tracked.modifyIssue {f : Issue → Issue} {es : List Event} (inv : Tracked s)
    (hi : i + 1 = s.issued) (hf : (f (s.issues i)).counter = es.foldl track (s.issues i).counter)
    (hes : RoundsAnswered (s.issues i).counter es) :
    Tracked ((s.modifyIssue i f).append es) := by
  have hlast : s.issued - 1 = i := by omega
  have hcounter : (s.issues i).counter = Delegate.unanswered s.trace := by
    rw [← inv.unanswered, hlast]
  refine ⟨fun j hj => ?_, ?_, ?_⟩
  · by_cases hji : j = i
    · rw [hji]
      exact hi
    · rw [State.append_issues, State.modifyIssue_of_ne _ _ _ hji] at hj
      exact inv.current j hj
  · rw [State.append_trace, unanswered_append, State.modifyIssue_trace, ← hcounter, ← hf]
    show ((s.modifyIssue i f).issues (s.issued - 1)).counter = _
    rw [hlast, State.modifyIssue_self]
  · rw [State.append_trace, roundsAnswered_append]
    refine ⟨inv.answered, ?_⟩
    show RoundsAnswered (Delegate.unanswered s.trace) es
    rwa [← hcounter]

theorem tracked_issued (inv : Tracked s) (hi : i + 1 = s.issued)
    (hrest : (s.issues i).rest = di :: ds) (hsize : EqualSize env s i)
    (hok : (if di.url = none then env.accepted else env.sent) = true) (h : Issued env s i di t) :
    Tracked t := by
  have hhead : di ∈ (s.issues i).rest.head? := by simp [hrest]
  cases h with
  | sent url hurl _ =>
      have hawait : Tracked (s.await ⟨i, (s.issues i).counter, url, di.receiverSchema⟩) :=
        ⟨inv.current, inv.unanswered, inv.answered⟩
      apply hawait.modifyIssue hi
      · rfl
      · simp [RoundsAnswered, endsRound]
  | refused url hurl hnot => simp [hurl, hnot] at hok
  | fed hurl _ hc =>
      apply inv.modifyIssue hi
      · rfl
      · simp [RoundsAnswered, endsRound, feedEvent]
  | again hurl hacc hc hfollow =>
      have hlen := (hsize di hhead hurl hacc hc).resolve_left hfollow
      apply inv.modifyIssue hi
      · simp [Issue.again, Issue.setCounter, track, hlen]
      · simp [RoundsAnswered, endsRound, feedEvent, track, hc]
  | completed hurl _ hc hfollow =>
      obtain ⟨hfold, hrounds⟩ := track_closing env (s.issues i).requestCount
      apply inv.modifyIssue hi
      · simp [Issue.advance, Issue.clearFollow, Issue.setCounter, feedEvent, track, hc, hfold]
      · simp [RoundsAnswered, endsRound, feedEvent, track, hc, hrounds]
  | rejected hurl hnot => simp [hurl, hnot] at hok

theorem tracked_answered (inv : Tracked s) (hi : r.issue + 1 = s.issued)
    (hgood : failure env status = none) (h : Answered env s r status t) : Tracked t := by
  cases h with
  | late hc => exact inv
  | counted hc _ hacc hmore =>
      apply inv.modifyIssue hi
      · rfl
      · simp [RoundsAnswered, endsRound, putEvent]
  | completed _ hacc hc hfollow =>
      obtain ⟨hfold, hrounds⟩ := track_closing env r.requestCount
      apply inv.modifyIssue hi
      · simp [Issue.setCounter, putEvent, track, hc, hfold]
      · simp [RoundsAnswered, endsRound, putEvent, track, hc, hrounds]
  | issued _ hacc hc hfollow =>
      have hlast : s.issued - 1 = r.issue := by omega
      have hone : Delegate.unanswered s.trace = 1 := by
        rw [← inv.unanswered, hlast, hc]
      refine ⟨fun j hj => ?_, ?_, ?_⟩
      · show j + 1 = s.issued + 1
        by_cases hnew : j = s.issued
        · rw [hnew]
        · by_cases hji : j = r.issue
          · subst hji
            simp [State.issue, hnew, Issue.setCounter] at hj
          · simp [State.issue, hnew, State.modifyIssue_of_ne _ _ _ hji] at hj
            have := inv.current j hj
            omega
      · simp [State.issue, track]
      · rw [State.append_trace, roundsAnswered_append]
        refine ⟨inv.answered, ?_⟩
        show RoundsAnswered (Delegate.unanswered s.trace) _
        simp [hone, RoundsAnswered, endsRound, putEvent, track]
  | rejected _ hsucc hacc => simp [failure, hsucc, hacc] at hgood
  | failed _ hbad => simp [failure, hbad] at hgood

/-! ## Whole runs -/

/-- A started request whose rounds are accounted for. -/
structure InRound (s : State) : Prop extends Started s where
  exact : s.ledger.Exact
  tracked : Tracked s
  paired : completions s.trace = terminations s.trace

/-- A call with a request left to issue is the last one. -/
theorem InRound.current_of_rest (inv : InRound s) (hrest : (s.issues i).rest = di :: ds) :
    i + 1 = s.issued := by
  apply inv.tracked.current
  have hexact : (s.issues i).counter = s.pending i := inv.exact i
  have := pending_of_rest hrest
  omega

theorem InRound.current_of_outstanding (inv : InRound s) (hr : r ∈ s.outstanding) :
    r.issue + 1 = s.issued :=
  inv.tracked.current _ (counter_pos_of_outstanding inv.exact hr)

theorem inRound_delegated (hsuccess : env.success = true) (hfollow : env.follow ≠ []) :
    InRound ((initial.start.issue .runRequest env.follow).append
      [.execute true, .logInfoMessages, .getDelegateRequests env.follow]) where
  toStarted := started_ran (.delegated hsuccess hfollow)
  exact := by
    have hzero : initial.start.ledger.Exact := fun i => rfl
    rw [State.ledger_append, State.ledger_issue _ _ _ rfl]
    exact hzero.set rfl
  tracked := by
    refine ⟨fun j hj => ?_, ?_, ?_⟩
    · show j + 1 = 1
      by_contra hne
      have hj0 : j ≠ 0 := by omega
      simp [State.issue, initial, State.start, hj0] at hj
    · simp [State.issue, initial, State.start, unanswered, track]
    · simp [State.issue, initial, State.start, RoundsAnswered, track, endsRound]
  paired := rfl

theorem inRound_issued (inv : InRound s) (hrest : (s.issues i).rest = di :: ds)
    (hsize : EqualSize env s i)
    (hok : (if di.url = none then env.accepted else env.sent) = true)
    (h : Issued env s i di t) : InRound t where
  started := h.started.trans inv.started
  sound := by
    refine sound_issued inv.sound hrest hsize ?_ h
    intro d hd hrefused
    obtain rfl : di = d := by simpa [hrest] using hd
    simp [hok] at hrefused
  wellFormed := wellFormed_issued inv.sound inv.wellFormed hrest hsize h
  exact := exact_issued inv.sound inv.exact hrest hsize hok h
  tracked := tracked_issued inv.tracked (inv.current_of_rest hrest) hrest hsize hok h
  paired := (paired_issued h).trace inv.paired

theorem inRound_answered (inv : InRound s) (hr : r ∈ s.outstanding)
    (hgood : failure env status = none) (h : Answered env (s.take r) r status t) : InRound t where
  started := h.started.trans inv.started
  sound := sound_answered inv.sound inv.wellFormed hr (fun hbad => (hbad hgood).elim) h
  wellFormed := by
    have hopen := inv.wellFormed.isOpen (Nat.zero_lt_of_lt (inv.wellFormed.fresh r hr))
    exact wellFormed_answered (inv.wellFormed.take (r := r)) hopen h
  exact := exact_answered inv.exact inv.wellFormed hr hgood h
  tracked := by
    have htake : Tracked (s.take r) :=
      ⟨inv.tracked.current, inv.tracked.unanswered, inv.tracked.answered⟩
    exact tracked_answered htake (inv.current_of_outstanding hr) hgood h
  paired := (paired_answered h).trace inv.paired

/-- Nothing is pending any more: the response was completed once. -/
theorem InRound.completed (inv : InRound s) (quiet : Quiescent s) :
    completions s.trace = 1 ∧ terminations s.trace = 1 := by
  rcases quiet with ⟨-, hrest, hout⟩
  have hdone : terminations s.trace = 1 := by
    apply Ledger.done_of_not_pending inv.sound
    intro i
    simp [State.pending, State.awaiting, hrest i, hout]
  exact ⟨inv.paired.trans hdone, hdone⟩

/-- Nothing happened yet, or the rounds are accounted for. -/
def Rounds (s : State) : Prop := s = initial ∨ InRound s

theorem rounds_step {a : Action} (inv : Rounds s) (hok : Successful a) (hsize : SameSize s a)
    (h : step s a = some t) : Rounds t := by
  have hrace : ∀ i env di ds, a = .issue i env → (s.issues i).rest = di :: ds →
      NoRace env s i di := by
    rintro i env di ds rfl hrest
    cases inv with
    | inl hinitial =>
        subst hinitial
        cases hrest
    | inr inv => exact noRace_of_sound inv.sound inv.wellFormed hrest
  right
  rcases delegating_cases hok.1 h hrace with ⟨_, env, rfl, hstarted, rfl⟩ |
    ⟨i, env, di, ds, rfl, hrest, -, h⟩ | ⟨r, status, env, rfl, hr, h⟩
  · cases inv with
    | inl hinitial =>
        subst hinitial
        exact inRound_delegated hok.1.2.1 hok.1.2.2
    | inr inv =>
        have := inv.started
        omega
  · cases inv with
    | inl hinitial =>
        subst hinitial
        cases hrest
    | inr inv =>
        rcases hok with ⟨-, hsent, hacc⟩
        exact inRound_issued inv hrest hsize (by split <;> assumption) h
  · cases inv with
    | inl hinitial =>
        subst hinitial
        cases hr
    | inr inv =>
        rcases hok with ⟨-, hgood, hacc⟩
        exact inRound_answered inv hr (by simp [failure, hgood, hacc]) h

/-- The counter of the current call of `issueDelegateRequests`. -/
def currentCounter (s : State) : Int := (s.issues (s.issued - 1)).counter

/-- In runs of successful sends and answers that keep the size of the lists, the
counter is the number of unanswered requests, every round is answered when it
ends, and the response has been completed when nothing is left to do. -/
theorem rounds_answered (acts : List Action) (s : State)
    (successful : ∀ a ∈ acts, Successful a)
    (ok : StepSystem.Along step SameSize initial acts)
    (h : StepSystem.run step initial acts = some s) :
    currentCounter s = unanswered s.trace ∧
      (∀ before e after, s.trace = before ++ e :: after → endsRound e = true →
        unanswered before = 0) ∧
      (Quiescent s → completions s.trace = 1) := by
  have inv : Rounds s := by
    have guarded := (StepSystem.along_of_forall successful initial).and ok
    refine StepSystem.invariant_run Rounds ?_ (.inl rfl) guarded h
    exact fun _ _ _ inv hok hstep => rounds_step inv hok.1 hok.2 hstep
  cases inv with
  | inl h =>
      subst h
      refine ⟨rfl, fun before e after hsplit => ?_, fun quiet => (quiet.1 rfl).elim⟩
      cases before <;> cases hsplit
  | inr inv =>
      exact ⟨inv.tracked.unanswered, fun before e after => unanswered_eq_zero inv.tracked.answered,
        fun quiet => (inv.completed quiet).1⟩

/-- A list of one request is followed by a list of two: the response is completed
while one of them is unanswered. -/
def growingRound : List Action :=
  [.run true { follow := [.self] }, .issue 0 { follow := [.self, .self] }, .issue 0 {}]

/-- A list of two requests is followed by a list of one: the response is never
completed. -/
def shrinkingRound : List Action :=
  [.run true { follow := [.self, .self] }, .issue 0 {}, .issue 0 { follow := [.self] },
   .issue 0 {}]

theorem rounds_not_answered :
    ((∀ a ∈ growingRound, Successful a) ∧
      ∃ s, StepSystem.run step initial growingRound = some s ∧ completions s.trace = 1 ∧
        ∃ before e after, s.trace = before ++ e :: after ∧ endsRound e = true ∧
          unanswered before = 1) ∧
    ((∀ a ∈ shrinkingRound, Successful a) ∧
      ∃ s, StepSystem.run step initial shrinkingRound = some s ∧ Quiescent s ∧
        completions s.trace = 0) := by
  refine ⟨⟨by decide, _, rfl, rfl, ?_⟩, by decide, _, rfl, ⟨by decide, ?_, rfl⟩, rfl⟩
  · -- the list fetched last is fetched behind the first request of two
    exact ⟨[.execute true, .logInfoMessages, .getDelegateRequests [.self], feedEvent .self true,
      .getDelegateRequests [.self, .self], feedEvent .self true], _, _, rfl, rfl, rfl⟩
  intro i
  match i with
  | 0 => rfl
  | i + 1 => rfl

/-- Two rounds of two requests, the first one of both kinds. -/
def twoRounds : List Action :=
  [.run true { follow := [.remote "a", .self] }, .issue 0 {},
   .answer ⟨0, 2, "a", ""⟩ {} {}, .issue 0 { follow := [.self, .remote "b"] }, .issue 0 {},
   .issue 0 {}, .answer ⟨0, 1, "b", ""⟩ {} {}]

theorem rounds_twoRounds :
    ∃ s, StepSystem.run step initial twoRounds = some s ∧ completions s.trace = 1 := by
  refine ⟨_, rfl, (rounds_answered twoRounds _ (by decide) (by decide) rfl).2.2 ?_⟩
  refine ⟨by decide, fun i => ?_, rfl⟩
  match i with
  | 0 => rfl
  | i + 1 => rfl

end StrusWebService.Delegate
