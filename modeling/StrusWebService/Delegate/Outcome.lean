import StrusWebService.Delegate.Rounds

/-! # The outcome of remote delegation

Runs in which all delegate requests have a URL and all sends are accepted. As long
as no answer failed the rounds are accounted for, and the last answer of the last
round completes the response with the answer of the request context. The first
failing answer completes it with its failure; after it only sends are left.
-/

namespace StrusWebService.Delegate

open Countdown

/-- A delegated request of remote rounds, all sends accepted, no exceptions. -/
def Remote (a : Action) : Prop :=
  Delegating a ∧ match a with
    | .run _ env | .answer _ _ env => ∀ di ∈ env.follow, di.url ≠ none
    | .issue _ env => env.sent = true

instance (a : Action) : Decidable (Remote a) :=
  match a with
  | .run doReplyContent env => inferInstanceAs (Decidable (Delegating (.run doReplyContent env) ∧
      ∀ di ∈ env.follow, di.url ≠ none))
  | .issue i env => inferInstanceAs (Decidable (Delegating (.issue i env) ∧ env.sent = true))
  | .answer r status env => inferInstanceAs (Decidable (Delegating (.answer r status env) ∧
      ∀ di ∈ env.follow, di.url ≠ none))

/-- The failure of a bad answer, with the receiver it arrived at. -/
def failureOf : Action → Option (Receiver × WebRequestAnswer)
  | .answer r status env => (failure env status).map fun answer => (r, answer)
  | .run _ _ | .issue _ _ => none

/-- The first bad answer in the order of arrival. -/
def firstFailure (acts : List Action) : Option (Receiver × WebRequestAnswer) :=
  acts.findSome? failureOf

def Event.isSend : Event → Bool
  | .delegateRequest _ _ _ _ => true
  | _ => false

/-- The response was completed with the answer of the request context. -/
def CompletedWithAnswer (s : State) : Prop :=
  ∃ before env requestCount, s.trace = before ++ completionEvents env requestCount

/-- The response was completed with the failure of an answer at `r`; only sends
came after it. -/
def FailedWith (s : State) (r : Receiver) (answer : WebRequestAnswer) : Prop :=
  ∃ before env after, s.trace = before ++ failureEvents env (r.explain answer) ++ after ∧
    ∀ e ∈ after, Event.isSend e = true

variable {env : Env} {s t : State} {i : Nat} {di : DelegateRequest} {ds : List DelegateRequest}
  {r : Receiver} {status : WebRequestAnswer}

/-- All calls only have requests with URL before them. -/
def AllRemote (s : State) : Prop := ∀ i, ∀ di ∈ (s.issues i).rest, di.url ≠ none

theorem AllRemote.modifyIssue {f : Issue → Issue} (h : AllRemote s)
    (hf : ∀ di ∈ (f (s.issues i)).rest, di ∈ (s.issues i).rest) :
    AllRemote (s.modifyIssue i f) := by
  intro j di hdi
  by_cases hji : j = i
  · subst hji
    rw [State.modifyIssue_self] at hdi
    exact h j di (hf di hdi)
  · rw [State.modifyIssue_of_ne _ _ _ hji] at hdi
    exact h j di hdi

theorem AllRemote.setCounter (h : AllRemote s) (c : Issue → Int) :
    AllRemote (s.modifyIssue i fun d => d.setCounter (c d)) :=
  h.modifyIssue fun _ hdi => hdi

theorem AllRemote.issue {caller : Caller} {requests : List DelegateRequest} (h : AllRemote s)
    (hrequests : ∀ di ∈ requests, di.url ≠ none) : AllRemote (s.issue caller requests) := by
  intro j di hdi
  by_cases hji : j = s.issued
  · subst hji
    simp only [State.issue, Function.update_self] at hdi
    exact hrequests di hdi
  · simp only [State.issue, Function.update_of_ne hji] at hdi
    exact h j di hdi

/-- With a URL and an accepted send there is one outcome. -/
theorem issued_remote (hurl : di.url ≠ none) (hsent : env.sent = true)
    (h : Issued env s i di t) :
    ∃ url, di.url = some url ∧
      t = ((s.await ⟨i, (s.issues i).counter, url, di.receiverSchema⟩).modifyIssue i
        .advance).append [.delegateRequest url di.method di.content true] := by
  cases h with
  | sent url hsome _ => exact ⟨url, hsome, rfl⟩
  | refused url _ hnot => simp [hnot] at hsent
  | fed hnone => exact (hurl hnone).elim
  | again hnone => exact (hurl hnone).elim
  | completed hnone => exact (hurl hnone).elim
  | rejected hnone => exact (hurl hnone).elim

theorem allRemote_issued (h : AllRemote s) (hurl : di.url ≠ none) (hsent : env.sent = true)
    (hissued : Issued env s i di t) : AllRemote t := by
  obtain ⟨url, -, rfl⟩ := issued_remote hurl hsent hissued
  have hawait : AllRemote (s.await ⟨i, (s.issues i).counter, url, di.receiverSchema⟩) := h
  exact hawait.modifyIssue fun _ hdi => List.mem_of_mem_tail hdi

theorem allRemote_answered (h : AllRemote s) (hfollow : ∀ di ∈ env.follow, di.url ≠ none)
    (hanswered : Answered env s r status t) : AllRemote t := by
  cases hanswered with
  | late => exact h
  | counted => exact h.setCounter fun d => d.counter - 1
  | completed => exact h.setCounter fun _ => 0
  | issued => exact (h.setCounter fun _ => 0).issue hfollow
  | rejected => exact h.setCounter fun _ => 0
  | failed => exact h.setCounter fun _ => 0

/-! ## Before the first failure -/

/-- No answer failed: either the response is still open, or it was completed with
the answer of the request context. -/
structure Unfailed (s : State) : Prop extends InRound s where
  remote : AllRemote s
  reply : (terminations s.trace = 0 ∧ .complete ∉ s.trace) ∨ CompletedWithAnswer s

theorem Unfailed.open_of_balanced (inv : Unfailed s) (hb : s.Balanced i) :
    terminations s.trace = 0 ∧ .complete ∉ s.trace := by
  have hdone : terminations s.trace = 0 := (Ledger.done_of_balanced inv.sound hb).1
  cases inv.reply with
  | inl h => exact h
  | inr h =>
      rcases h with ⟨before, env, n, htrace⟩
      rw [htrace, terminations_append, terminations_completionEvents] at hdone
      omega

theorem Unfailed.balanced_of_rest (inv : Unfailed s) (hrest : (s.issues i).rest = di :: ds) :
    s.Balanced i := by
  apply inv.exact.balanced
  have hexact : (s.issues i).counter = s.pending i := inv.exact i
  have := pending_of_rest hrest
  rw [State.ledger_counter]
  omega

theorem unfailed_issued (inv : Unfailed s) (hrest : (s.issues i).rest = di :: ds)
    (hsent : env.sent = true) (h : Issued env s i di t) : Unfailed t := by
  have hurl : di.url ≠ none := inv.remote i di (by simp [hrest])
  have hsize : EqualSize env s i := by
    intro d hd hnone
    obtain rfl : di = d := by simpa [hrest] using hd
    exact (hurl hnone).elim
  refine ⟨inRound_issued inv.toInRound hrest hsize (by simp [hurl, hsent]) h,
    allRemote_issued inv.remote hurl hsent h, ?_⟩
  obtain ⟨hdone, hcomplete⟩ := inv.open_of_balanced (inv.balanced_of_rest hrest)
  obtain ⟨url, -, rfl⟩ := issued_remote hurl hsent h
  left
  simp [terminations_cons, hdone, hcomplete]

theorem unfailed_answered (inv : Unfailed s) (hr : r ∈ s.outstanding)
    (hgood : failure env status = none) (hfollow : ∀ di ∈ env.follow, di.url ≠ none)
    (h : Answered env (s.take r) r status t) : Unfailed t := by
  have hb : s.Balanced r.issue :=
    inv.exact.balanced (counter_pos_of_outstanding inv.exact hr)
  obtain ⟨hdone, hcomplete⟩ := inv.open_of_balanced hb
  have hremote : AllRemote (s.take r) := inv.remote
  refine ⟨inRound_answered inv.toInRound hr hgood h, allRemote_answered hremote hfollow h, ?_⟩
  cases h with
  | late => exact inv.reply
  | counted =>
      left
      simp [State.take, terminations_cons, hdone, hcomplete, putEvent]
  | completed _ _ _ hnone =>
      right
      refine ⟨s.trace ++ [putEvent r status true, .getDelegateRequests []], env,
        r.requestCount, ?_⟩
      simp [State.take]
  | issued =>
      left
      simp [State.take, State.issue, terminations_cons, hdone, hcomplete, putEvent]
  | rejected _ hsucc hacc => simp [failure, hsucc, hacc] at hgood
  | failed _ hbad => simp [failure, hbad] at hgood

/-! ## After the first failure -/

/-- The answer at `r` failed; no call is open any more. -/
structure Failed (s : State) (r : Receiver) (answer : WebRequestAnswer) : Prop where
  started : s.started = 1
  closed : ∀ i, (s.issues i).counter ≤ 0
  remote : AllRemote s
  terminated : terminations s.trace = 1
  paired : completions s.trace = terminations s.trace
  notCompleted : .complete ∉ s.trace
  failed : FailedWith s r answer

theorem failed_of_unfailed {answer : WebRequestAnswer} (first : List Event)
    (inv : Unfailed s) (hr : r ∈ s.outstanding) (hfirst : terminations first = 0)
    (hcompletions : completions first = 0) (hcomplete : .complete ∉ first) :
    Failed (((s.take r).modifyIssue r.issue (·.setCounter 0)).append
      (first ++ failureEvents env (r.explain answer))) r answer := by
  have hb : s.Balanced r.issue :=
    inv.exact.balanced (counter_pos_of_outstanding inv.exact hr)
  obtain ⟨hdone, hopen⟩ := inv.open_of_balanced hb
  have hothers := (Ledger.done_of_balanced inv.sound hb).2
  have hremote : AllRemote (s.take r) := inv.remote
  constructor
  case started => exact inv.started
  case closed =>
    intro j
    rw [State.append_issues]
    by_cases hj : j = r.issue
    · subst hj
      simp [Issue.setCounter]
    · rw [State.modifyIssue_of_ne _ _ _ hj]
      exact hothers j hj
  case remote => exact hremote.setCounter fun _ => 0
  case terminated => simp [State.take, hdone, hfirst]
  case paired =>
    have hpaired := inv.paired
    rw [hdone] at hpaired
    simp [State.take, hdone, hfirst, hcompletions, hpaired]
  case notCompleted =>
    simp [State.take, hopen, hcomplete, failureEvents, terminationEvents, logEvents]
  case failed =>
    exact ⟨s.trace ++ first, env, [], by simp [State.take], by simp⟩

theorem failed_answered {answer : WebRequestAnswer} (inv : Unfailed s) (hr : r ∈ s.outstanding)
    (hbad : failure env status = some answer) (h : Answered env (s.take r) r status t) :
    Failed t r answer := by
  have hpos := counter_pos_of_outstanding inv.exact hr
  cases h with
  | late hc =>
      have hc : (s.issues r.issue).counter ≤ 0 := hc
      omega
  | counted _ hgood hacc => simp [failure, hgood, hacc] at hbad
  | completed hgood hacc => simp [failure, hgood, hacc] at hbad
  | issued hgood hacc => simp [failure, hgood, hacc] at hbad
  | rejected hc hgood hacc =>
      obtain rfl : env.answer = answer := by simpa [failure, hgood, hacc] using hbad
      exact failed_of_unfailed [putEvent r status false, .getAnswer env.answer] inv hr
        (by simp [terminations_cons]) (by simp [completions_cons]) (by simp [putEvent])
  | failed hc hnot =>
      obtain rfl : status = answer := by simpa [failure, hnot] using hbad
      exact failed_of_unfailed [putEvent r status env.accepted] inv hr
        (by simp) (by simp) (by simp [putEvent])

theorem failed_issued {r' : Receiver} {answer : WebRequestAnswer} (inv : Failed s r' answer)
    (hrest : (s.issues i).rest = di :: ds) (hsent : env.sent = true)
    (h : Issued env s i di t) : Failed t r' answer := by
  have hurl : di.url ≠ none := inv.remote i di (by simp [hrest])
  have hremote := allRemote_issued inv.remote hurl hsent h
  have hstarted := h.started
  obtain ⟨url, -, rfl⟩ := issued_remote hurl hsent h
  constructor
  case started => exact hstarted.trans inv.started
  case closed =>
    intro j
    rw [State.append_issues]
    by_cases hj : j = i
    · subst hj
      rw [State.modifyIssue_self]
      exact inv.closed j
    · rw [State.modifyIssue_of_ne _ _ _ hj]
      exact inv.closed j
  case remote => exact hremote
  case terminated => simp [terminations_cons, inv.terminated]
  case paired => simp [terminations_cons, completions_cons, inv.paired]
  case notCompleted => simp [inv.notCompleted]
  case failed =>
    obtain ⟨before, env', after, htrace, hsends⟩ := inv.failed
    refine ⟨before, env', after ++ [.delegateRequest url di.method di.content true], ?_, ?_⟩
    · simp [htrace]
    · intro e he
      cases List.mem_append.mp he with
      | inl he => exact hsends e he
      | inr he =>
          rw [List.mem_singleton.mp he]
          rfl

/-- Later answers are not looked at. -/
theorem failed_late {r' : Receiver} {answer : WebRequestAnswer} (inv : Failed s r' answer)
    (h : Answered env (s.take r) r status t) : Failed t r' answer := by
  have hc : ((s.take r).issues r.issue).counter ≤ 0 := inv.closed r.issue
  cases h with
  | late => exact ⟨inv.started, inv.closed, inv.remote, inv.terminated, inv.paired,
      inv.notCompleted, inv.failed⟩
  | counted hpos => omega
  | completed _ _ hone => omega
  | issued _ _ hone => omega
  | rejected hpos => omega
  | failed hpos => omega

/-! ## Whole runs -/

/-- What holds when `failed` is the first failure of the actions so far. -/
def Outcome (failed : Option (Receiver × WebRequestAnswer)) (s : State) : Prop :=
  match failed with
  | none => s = initial ∨ Unfailed s
  | some (r, answer) => Failed s r answer

theorem Outcome.remote {failed : Option (Receiver × WebRequestAnswer)} (h : Outcome failed s) :
    AllRemote s := by
  match failed, h with
  | none, .inl h =>
      subst h
      intro i di hdi
      cases hdi
  | none, .inr h => exact h.remote
  | some _, h => exact Failed.remote h

theorem outcome_step {failed : Option (Receiver × WebRequestAnswer)} {a : Action}
    (inv : Outcome failed s) (hok : Remote a) (h : step s a = some t) :
    Outcome (failed.or (failureOf a)) t := by
  have hrace : ∀ i env di ds, a = .issue i env → (s.issues i).rest = di :: ds →
      NoRace env s i di := by
    intro i env di ds _ hrest hnone
    exact (inv.remote i di (by simp [hrest]) hnone).elim
  rcases delegating_cases hok.1 h hrace with ⟨_, env, rfl, hstarted, rfl⟩ |
    ⟨i, env, di, ds, rfl, hrest, -, h⟩ | ⟨r, status, env, rfl, hr, h⟩
  · match failed, inv with
    | none, .inl inv =>
        subst inv
        rcases hok with ⟨⟨-, hsuccess, hfollow⟩, hremote⟩
        have hinitial : AllRemote initial.start := fun _ _ hdi => by cases hdi
        refine .inr ⟨inRound_delegated hsuccess hfollow, hinitial.issue hremote, .inl ?_⟩
        simp [State.issue, State.start, initial, terminations_cons]
    | none, .inr inv =>
        have := inv.started
        omega
    | some _, inv =>
        have := Failed.started inv
        omega
  · rcases hok with ⟨-, hsent⟩
    match failed, inv with
    | none, .inl inv =>
        subst inv
        cases hrest
    | none, .inr inv => exact .inr (unfailed_issued inv hrest hsent h)
    | some _, inv => exact failed_issued inv hrest hsent h
  · rcases hok with ⟨-, hfollow⟩
    match failed, inv with
    | none, .inl inv =>
        subst inv
        cases hr
    | none, .inr inv =>
        rw [Option.none_or, failureOf]
        cases hbad : failure env status with
        | none => exact .inr (unfailed_answered inv hr hbad hfollow h)
        | some answer => exact failed_answered inv hr hbad h
    | some _, inv => exact failed_late inv h

theorem not_completedWithAnswer {answer : WebRequestAnswer} (inv : Failed s r answer) :
    ¬CompletedWithAnswer s := by
  rintro ⟨before, env, n, htrace⟩
  apply inv.notCompleted
  simp [htrace, completionEvents]

theorem completedWithAnswer_of_terminated (inv : Unfailed s) (hdone : terminations s.trace = 1) :
    CompletedWithAnswer s := by
  cases inv.reply with
  | inl h => omega
  | inr h => exact h

/-- The response of remote rounds is completed once. It is completed with the
answer of the request context if no answer failed, and with the failure of the
first bad answer otherwise; nothing but sends comes after this failure. -/
theorem outcome_of_remote (acts : List Action) (s : State) (remote : ∀ a ∈ acts, Remote a)
    (h : StepSystem.run step initial acts = some s) :
    (Quiescent s → completions s.trace = 1 ∧ terminations s.trace = 1 ∧
      (CompletedWithAnswer s ↔ firstFailure acts = none)) ∧
    ∀ r answer, firstFailure acts = some (r, answer) → FailedWith s r answer := by
  have inv : Outcome (firstFailure ([] ++ acts)) s := by
    refine StepSystem.run_induction (fun acts => Outcome (firstFailure acts)) ?_ [] (.inl rfl)
      (StepSystem.along_of_forall remote initial) h
    intro acts s a t hs hok hstep
    have hnext := outcome_step hs hok hstep
    simpa [firstFailure, List.findSome?_append] using hnext
  rw [List.nil_append] at inv
  cases hfailed : firstFailure acts with
  | none =>
      rw [hfailed] at inv
      refine ⟨fun quiet => ?_, fun _ _ h => by cases h⟩
      cases inv with
      | inl inv =>
          subst inv
          exact (quiet.1 rfl).elim
      | inr inv =>
          obtain ⟨hcompleted, hdone⟩ := inv.completed quiet
          exact ⟨hcompleted, hdone,
            iff_of_true (completedWithAnswer_of_terminated inv hdone) rfl⟩
  | some first =>
      rcases first with ⟨r, answer⟩
      rw [hfailed] at inv
      have inv : Failed s r answer := inv
      refine ⟨fun _ => ⟨inv.paired.trans inv.terminated, inv.terminated, ?_⟩, ?_⟩
      · exact iff_of_false (not_completedWithAnswer inv) (by simp)
      · rintro _ _ ⟨⟩
        exact inv.failed

/-- The first answer fails while the second request is still to be sent. -/
def failureWhileSending : List Action :=
  [.run true { follow := [.remote "a", .remote "b"] }, .issue 0 {},
   .answer ⟨0, 2, "a", ""⟩ { httpStatus := 404 } {}, .issue 0 {}, .answer ⟨0, 0, "b", ""⟩ {} {}]

theorem outcome_failureWhileSending :
    ∃ s, StepSystem.run step initial failureWhileSending = some s ∧ completions s.trace = 1 ∧
      FailedWith s ⟨0, 2, "a", ""⟩ { httpStatus := 404 } := by
  have houtcome := outcome_of_remote failureWhileSending _ (by decide) rfl
  refine ⟨_, rfl, (houtcome.1 ⟨by decide, fun i => ?_, rfl⟩).1, houtcome.2 _ _ rfl⟩
  match i with
  | 0 => rfl
  | i + 1 => rfl

end StrusWebService.Delegate
