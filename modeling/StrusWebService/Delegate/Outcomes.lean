import StrusWebService.Delegate.System

/-! # What one step of a delegated request can do

The normal outcomes of a loop iteration and of an answer, with all their events,
and what an exception leaves behind. Everything proved about runs is derived from
these two inversions.
-/

namespace StrusWebService.Delegate

open Throwing

variable {env : Env} {s : State} {i : Nat} {di : DelegateRequest} {ds : List DelegateRequest}

def feedEvent (di : DelegateRequest) (accepted : Bool) : Event :=
  .putDelegateRequestAnswer di.receiverSchema
    (.content "utf-8" "application/json" di.content) accepted

def rejectedEvents (env : Env) : List Event :=
  .getAnswer env.answer ::
    .report (.error env.answer.httpStatus env.answer.appErrorCode env.answer.errorStr) ::
    .completeResponse :: terminationEvents env .rejected

@[simp] theorem terminations_rejectedEvents : terminations (rejectedEvents env) = 1 := by
  simp [rejectedEvents, terminations_cons]

@[simp] theorem terminations_feedEvent_cons (accepted : Bool) (events : List Event) :
    terminations (feedEvent di accepted :: events) = terminations events :=
  terminations_cons (by simp [feedEvent])

/-- The normal outcomes of an iteration of call `i` for the delegate request `di`. -/
inductive Issued (env : Env) (s : State) (i : Nat) (di : DelegateRequest) : State → Prop
  | sent (url : String) (hurl : di.url = some url) (hsent : env.sent = true) :
      Issued env s i di
        (((s.await ⟨i, (s.issues i).counter, url, di.receiverSchema⟩).modifyIssue i
          .advance).append [.delegateRequest url di.method di.content true])
  | refused (url : String) (hurl : di.url = some url) (hsent : env.sent = false) :
      Issued env s i di
        ((s.modifyIssue i fun c => (c.setCounter 0).leave).append
          (.delegateRequest url di.method di.content false :: refusedEvents env url))
  | fed (hurl : di.url = none) (hacc : env.accepted = true) (hc : (s.issues i).counter ≠ 1) :
      Issued env s i di
        ((s.modifyIssue i fun c => (c.setCounter (c.counter - 1)).advance).append
          [feedEvent di true])
  | again (hurl : di.url = none) (hacc : env.accepted = true) (hc : (s.issues i).counter = 1)
      (hfollow : env.follow ≠ []) :
      Issued env s i di
        ((s.modifyIssue i fun c => (c.setCounter (c.counter - 1)).again env.follow).append
          [feedEvent di true, .getDelegateRequests env.follow])
  | completed (hurl : di.url = none) (hacc : env.accepted = true)
      (hc : (s.issues i).counter = 1) (hfollow : env.follow = []) :
      Issued env s i di
        ((s.modifyIssue i fun c => (c.setCounter (c.counter - 1)).clearFollow.advance).append
          (feedEvent di true :: .getDelegateRequests [] ::
            completionEvents env (s.issues i).requestCount))
  | rejected (hurl : di.url = none) (hacc : env.accepted = false) :
      Issued env s i di
        ((s.modifyIssue i fun c => (c.setCounter 0).leave).append
          (feedEvent di false :: rejectedEvents env))

/-- The iteration ends the request: its send is refused, its answer is rejected,
or it takes the counter to zero. -/
def Ends (env : Env) (s : State) (i : Nat) (di : DelegateRequest) : Prop :=
  (di.url ≠ none ∧ env.sent = false) ∨ (di.url = none ∧ env.accepted = false) ∨
    (di.url = none ∧ (s.issues i).counter = 1)

/-- What an exception in an iteration leaves behind, before the loop is left. -/
inductive IssueThrew (s : State) (i : Nat) (site : Site) (ends : Prop) : State → Prop
  | before (es : List Event) (hes : terminations es = 0) (hsite : site.terminations = 0) :
      IssueThrew s i site ends (s.append es)
  | closing (es : List Event) (hes : terminations es = site.terminations) (hends : ends) :
      IssueThrew s i site ends ((s.modifyIssue i (·.setCounter 0)).append es)

/-- The iteration does not run into the error for a bad counter value. -/
def NoRace (env : Env) (s : State) (i : Nat) (di : DelegateRequest) : Prop :=
  di.url = none → env.accepted = true → (s.issues i).counter = 1 →
    (s.issues i).didx + 1 = (s.issues i).size

theorem issueThrew_self {site : Site} {ends : Prop} (hsite : site.terminations = 0) :
    IssueThrew s i site ends s := by
  have h : IssueThrew s i site ends (s.append []) := .before [] rfl hsite
  rwa [State.append_nil] at h

/-- An exception in a closing sequence that follows `first`. -/
theorem issueThrew_of_threw {first events : List Event} {site : Site} {t : State} {ends : Prop}
    (hfirst : terminations first = 0) (hends : ends)
    (h : Threw env 0 events ((s.modifyIssue i (·.setCounter 0)).append first) site t) :
    IssueThrew s i site ends t := by
  rcases h with ⟨-, es, -, rfl, hes⟩
  rw [State.append_append]
  apply IssueThrew.closing _ _ hends
  rw [terminations_append, hfirst, ← hes]

theorem wp_sendDelegateRequest {url : String} (hurl : di.url = some url) :
    Wp (sendDelegateRequest env i di url) (fun _ => Issued env s i di)
      (fun site t => env.fault = some site ∧ IssueThrew s i site (Ends env s i di) t) s := by
  unfold sendDelegateRequest
  rw [wp_bind, wp_mayThrow]
  split
  case isTrue h => exact ⟨h, issueThrew_self rfl⟩
  rw [wp_bind, wp_get, wp_bind, wp_call]
  split
  case isTrue h => exact ⟨h, issueThrew_self rfl⟩
  rw [wp_ite]
  split
  case isTrue hsent =>
    rw [wp_bind, wp_modify, wp_modify, State.await_append, State.modifyIssue_append, hsent]
    exact .sent url hurl hsent
  case isFalse hsent =>
    have hsent : env.sent = false := by simpa using hsent
    rw [wp_bind, wp_modify, State.modifyIssue_append, wp_bind]
    refine (closes_reportRefused url _).mono ?_ ?_
    · rintro _ t rfl
      rw [wp_modify, State.append_append, State.modifyIssue_append,
        State.modifyIssue_modifyIssue, hsent]
      exact .refused url hurl hsent
    · intro site t h
      have hends : Ends env s i di := .inl ⟨by simp [hurl], hsent⟩
      exact ⟨h.1, issueThrew_of_threw (terminations_singleton (by simp)) hends h⟩

/-- A request without URL whose answer is accepted. -/
theorem wp_feedAccepted (hurl : di.url = none) (hrace : NoRace env s i di)
    (hacc : env.accepted = true) {c : Issue}
    (hc : c = (s.issues i).setCounter ((s.issues i).counter - 1)) :
    Wp (do
        if c.counter = 0 then
          if c.didx + 1 ≠ c.size then
            raceError env
          call env .getDelegateRequests (.getDelegateRequests env.follow)
          if env.follow = [] then
            completeResponse env c.requestCount
            modify fun s => s.modifyIssue i fun c => c.clearFollow.advance
          else
            modify fun s => s.modifyIssue i (·.again env.follow)
        else
          modify fun s => s.modifyIssue i .advance)
      (fun _ => Issued env s i di)
      (fun site t => env.fault = some site ∧ IssueThrew s i site (Ends env s i di) t)
      ((s.modifyIssue i fun c => c.setCounter (c.counter - 1)).append [feedEvent di true]) := by
  subst hc
  have hfeed : terminations [feedEvent di true] = 0 := terminations_feedEvent_cons true []
  rw [wp_ite]
  split
  case isFalse hc =>
    rw [wp_modify, State.modifyIssue_append, State.modifyIssue_modifyIssue]
    exact .fed hurl hacc fun h => hc (by simp [Issue.setCounter, h])
  case isTrue hc =>
    have hone : (s.issues i).counter = 1 := by
      simp only [Issue.setCounter] at hc
      omega
    have hlast : (s.issues i).didx + 1 = (s.issues i).size := hrace hurl hacc hone
    have hends : Ends env s i di := .inr (.inr ⟨hurl, hone⟩)
    have hzero : (s.modifyIssue i fun c => c.setCounter (c.counter - 1)) =
        s.modifyIssue i (·.setCounter 0) := by
      simp [State.modifyIssue, hone]
    rw [if_neg (by simpa [Issue.setCounter] using hlast), wp_bind, wp_call]
    split
    case isTrue h =>
      rw [hzero]
      exact ⟨h, .closing _ hfeed hends⟩
    rw [State.append_append, wp_ite]
    split
    case isTrue hfollow =>
      rw [wp_bind]
      refine (closes_completeResponse _ _).mono ?_ ?_
      · rintro _ t rfl
        rw [wp_modify, State.append_append, State.modifyIssue_append,
          State.modifyIssue_modifyIssue, hfollow]
        exact .completed hurl hacc hone hfollow
      · intro site t h
        rw [hzero] at h
        exact ⟨h.1, issueThrew_of_threw rfl hends h⟩
    case isFalse hfollow =>
      rw [wp_modify, State.modifyIssue_append, State.modifyIssue_modifyIssue]
      exact .again hurl hacc hone hfollow

theorem wp_feedDelegateRequest (hurl : di.url = none) (hrace : NoRace env s i di) :
    Wp (feedDelegateRequest env i di) (fun _ => Issued env s i di)
      (fun site t => env.fault = some site ∧ IssueThrew s i site (Ends env s i di) t) s := by
  unfold feedDelegateRequest
  rw [wp_bind, wp_call]
  split
  case isTrue h => exact ⟨h, issueThrew_self rfl⟩
  rw [wp_ite]
  split
  case isTrue hacc =>
    rw [wp_bind, wp_modify, wp_bind, wp_get, State.modifyIssue_append, hacc]
    apply wp_feedAccepted hurl hrace hacc
    rw [State.append_issues, State.modifyIssue_self]
  case isFalse hacc =>
    have hacc : env.accepted = false := by simpa using hacc
    have hends : Ends env s i di := .inr (.inl ⟨hurl, hacc⟩)
    rw [wp_bind, hacc]
    refine (closes_reportRejected _).mono ?_ ?_
    · rintro _ t rfl
      rw [wp_bind, wp_modify, State.append_append, State.modifyIssue_append, wp_bind]
      refine (closes_completeRejected _).mono ?_ ?_
      · rintro _ t rfl
        rw [wp_modify, State.append_append, State.modifyIssue_append,
          State.modifyIssue_modifyIssue]
        exact .rejected hurl hacc
      · intro site t h
        refine ⟨h.1, issueThrew_of_threw ?_ hends h⟩
        rw [terminations_append, terminations_singleton (by simp)]
        rfl
    · rintro site t ⟨hfault, es, hprefix, rfl, hes⟩
      have hle := terminations_le_of_prefix hprefix
      have hnone : terminations es = 0 := Nat.le_zero.mp hle
      rw [State.append_append]
      refine ⟨hfault, .before _ ?_ (by omega)⟩
      rw [terminations_append, hnone, terminations_singleton (by simp)]

/-- One iteration of the loop of call `i`. -/
theorem wp_issueNext (hrest : (s.issues i).rest = di :: ds) (hrace : NoRace env s i di) :
    Wp (issueNext env i) (fun _ => Issued env s i di)
      (fun site t => env.fault = some site ∧ IssueThrew s i site (Ends env s i di) t) s := by
  unfold issueNext
  rw [wp_bind, wp_get, hrest]
  simp only [wp_bind, wp_mayThrow]
  split
  case isTrue h => exact ⟨h, issueThrew_self rfl⟩
  cases hurl : di.url with
  | some url => exact wp_sendDelegateRequest hurl
  | none => exact wp_feedDelegateRequest hurl hrace

/-- The loop is left by an exception; the catch blocks of `runRequest` signal the
termination of a request that is still open. -/
def IssueUnwound (env : Env) (s : State) (i : Nat) (di : DelegateRequest) (t : State) : Prop :=
  ∃ site u, env.fault = some site ∧ IssueThrew s i site (Ends env s i di) u ∧
    t = (u.modifyIssue i .leave).append
      (if (s.issues i).caller = .runRequest ∧ s.isOpen = true then [.doneRunRequest] else [])

theorem Issued.started {t : State} (h : Issued env s i di t) : t.started = s.started := by
  cases h <;> rfl

theorem IssueUnwound.started {t : State} (h : IssueUnwound env s i di t) :
    t.started = s.started := by
  rcases h with ⟨site, u, -, hthrew, rfl⟩
  cases hthrew <;> rfl

theorem IssueThrew.caller {site : Site} {ends : Prop} {t : State}
    (h : IssueThrew s i site ends t) :
    (t.issues i).caller = (s.issues i).caller ∧ t.isOpen = s.isOpen := by
  cases h <;> simp [Issue.setCounter]

theorem issueLoop_cases (hrest : (s.issues i).rest = di :: ds) (hrace : NoRace env s i di) :
    Issued env s i di (finalState (issueLoop env i) s) ∨
      IssueUnwound env s i di (finalState (issueLoop env i) s) := by
  apply finalState_of_wp (p := fun t => Issued env s i di t ∨ IssueUnwound env s i di t)
  unfold issueLoop
  rw [wp_tryCatch]
  refine (wp_issueNext hrest hrace).mono (fun _ _ h => .inl h) ?_
  rintro site t ⟨hfault, h⟩
  obtain ⟨hcaller, hopen⟩ := h.caller
  have hleave : ((t.modifyIssue i .leave).issues i).caller = (s.issues i).caller := by
    simp [Issue.leave, hcaller]
  simp only [wp_bind, wp_modify, wp_get, wp_ite, wp_catchBlock, wp_throw, hleave,
    State.modifyIssue_isOpen, hopen]
  split
  case isTrue hrun =>
    refine .inr ⟨site, t, hfault, h, ?_⟩
    by_cases ho : s.isOpen = true <;> simp [hrun, ho]
  case isFalse hrun =>
    refine .inr ⟨site, t, hfault, h, ?_⟩
    simp [hrun]

/-! ## Answers -/

def putEvent (r : Receiver) (status : WebRequestAnswer) (accepted : Bool) : Event :=
  .putDelegateRequestAnswer r.schema (.received status) accepted

@[simp] theorem terminations_putEvent_cons (r : Receiver) (status : WebRequestAnswer)
    (accepted : Bool) (events : List Event) :
    terminations (putEvent r status accepted :: events) = terminations events :=
  terminations_cons (by simp [putEvent])

def Receiver.explain (r : Receiver) (status : WebRequestAnswer) : WebRequestAnswer :=
  status.explain (failedMessage r.url)

/-- The normal outcomes of an answer. -/
inductive Answered (env : Env) (s : State) (r : Receiver) (status : WebRequestAnswer) :
    State → Prop
  | late (hc : (s.issues r.issue).counter ≤ 0) : Answered env s r status s
  | counted (hc : 0 < (s.issues r.issue).counter) (hgood : status.successful = true)
      (hacc : env.accepted = true) (hmore : (s.issues r.issue).counter ≠ 1) :
      Answered env s r status
        ((s.modifyIssue r.issue fun c => c.setCounter (c.counter - 1)).append
          [putEvent r status true])
  | completed (hgood : status.successful = true) (hacc : env.accepted = true)
      (hc : (s.issues r.issue).counter = 1) (hfollow : env.follow = []) :
      Answered env s r status
        ((s.modifyIssue r.issue (·.setCounter 0)).append
          (putEvent r status true :: .getDelegateRequests [] ::
            completionEvents env r.requestCount))
  | issued (hgood : status.successful = true) (hacc : env.accepted = true)
      (hc : (s.issues r.issue).counter = 1) (hfollow : env.follow ≠ []) :
      Answered env s r status
        (((s.modifyIssue r.issue (·.setCounter 0)).issue .putAnswer env.follow).append
          [putEvent r status true, .getDelegateRequests env.follow])
  | rejected (hc : 0 < (s.issues r.issue).counter) (hgood : status.successful = true)
      (hacc : env.accepted = false) :
      Answered env s r status
        ((s.modifyIssue r.issue (·.setCounter 0)).append
          (putEvent r status false :: .getAnswer env.answer ::
            failureEvents env (r.explain env.answer)))
  | failed (hc : 0 < (s.issues r.issue).counter) (hbad : status.successful = false) :
      Answered env s r status
        ((s.modifyIssue r.issue (·.setCounter 0)).append
          (putEvent r status env.accepted :: failureEvents env (r.explain status)))

/-- The failure this answer ends the request with, if it does. -/
def failure (env : Env) (status : WebRequestAnswer) : Option WebRequestAnswer :=
  if status.successful then
    if env.accepted then none else some env.answer
  else some status

/-- What an exception in an answer leaves behind; `handleFailure` zeroes the
counter after all its calls. -/
inductive AnswerThrew (env : Env) (s : State) (r : Receiver) (status : WebRequestAnswer)
    (site : Site) : State → Prop
  | before (es : List Event) (hes : terminations es = 0) (hsite : site.terminations = 0) :
      AnswerThrew env s r status site (s.append es)
  | failing (es : List Event) (hes : terminations es = 1) (hsite : site.terminations = 1)
      (hbad : failure env status ≠ none) : AnswerThrew env s r status site (s.append es)
  | closing (es : List Event) (hes : terminations es = site.terminations)
      (hc : (s.issues r.issue).counter = 1) :
      AnswerThrew env s r status site ((s.modifyIssue r.issue (·.setCounter 0)).append es)

variable {r : Receiver} {status : WebRequestAnswer}

theorem Answered.started {t : State} (h : Answered env s r status t) : t.started = s.started := by
  cases h <;> rfl

theorem AnswerThrew.started {site : Site} {t : State} (h : AnswerThrew env s r status site t) :
    t.started = s.started := by
  cases h <;> rfl

theorem Site.terminations_le_one (site : Site) : site.terminations ≤ 1 := by
  cases site <;> simp [Site.terminations]

theorem wp_handleFailure {first : List Event} {answer : WebRequestAnswer}
    (hfirst : terminations first = 0) (hbad : failure env status ≠ none) :
    Wp (handleFailure env r answer)
      (fun _ t => t = (s.modifyIssue r.issue (·.setCounter 0)).append
        (first ++ failureEvents env (r.explain answer)))
      (fun site t => env.fault = some site ∧ AnswerThrew env s r status site t)
      (s.append first) := by
  unfold handleFailure
  rw [wp_bind]
  refine (closes_reportFailure _ _).mono ?_ ?_
  · rintro _ t rfl
    rw [wp_modify, State.append_append, State.modifyIssue_append]
    rfl
  · rintro site t ⟨hfault, es, -, rfl, hes⟩
    have hsum : terminations (first ++ es) = site.terminations := by
      rw [terminations_append, hfirst, ← hes]
    rw [State.append_append]
    refine ⟨hfault, ?_⟩
    by_cases hsite : site.terminations = 0
    · exact .before _ (hsum.trans hsite) hsite
    · have hone : site.terminations = 1 := by
        have := site.terminations_le_one
        omega
      exact .failing _ (hsum.trans hone) hone hbad

theorem wp_handleSuccess (hc : (s.issues r.issue).counter = 1)
    (hgood : status.successful = true) (hacc : env.accepted = true) :
    Wp (handleSuccess env r) (fun _ => Answered env s r status)
      (fun site t => env.fault = some site ∧ AnswerThrew env s r status site t)
      ((s.modifyIssue r.issue (·.setCounter 0)).append [putEvent r status true]) := by
  have hput : terminations [putEvent r status true] = 0 :=
    terminations_putEvent_cons r status true []
  unfold handleSuccess
  rw [wp_bind, wp_call]
  split
  case isTrue h => exact ⟨h, .closing _ hput hc⟩
  rw [State.append_append, wp_ite]
  split
  case isTrue hfollow =>
    refine (closes_completeResponse _ _).mono ?_ ?_
    · rintro _ t rfl
      rw [State.append_append, hfollow]
      exact .completed hgood hacc hc hfollow
    · rintro site t ⟨hfault, es, -, rfl, hes⟩
      rw [State.append_append]
      refine ⟨hfault, .closing _ ?_ hc⟩
      rw [terminations_append, terminations_append, hput, ← hes]
      rfl
  case isFalse hfollow =>
    unfold issueDelegateRequests
    rw [wp_bind, wp_mayThrow]
    split
    case isTrue h =>
      refine ⟨h, .closing _ ?_ hc⟩
      rw [terminations_append, hput]
      rfl
    rw [wp_modify, State.issue_append]
    exact .issued hgood hacc hc hfollow

/-- An answer handled by the event loop. -/
theorem wp_putAnswer :
    Wp (putAnswer env r status) (fun _ => Answered env s r status)
      (fun site t => env.fault = some site ∧ 0 < (s.issues r.issue).counter ∧
        AnswerThrew env s r status site t) s := by
  have hself : ∀ site : Site, site.terminations = 0 → AnswerThrew env s r status site s := by
    intro site hsite
    have h : AnswerThrew env s r status site (s.append []) := .before [] rfl hsite
    rwa [State.append_nil] at h
  unfold putAnswer
  rw [wp_bind, wp_get, wp_ite]
  split
  case isTrue hc => exact .late hc
  case isFalse hc =>
  have hc : 0 < (s.issues r.issue).counter := by omega
  rw [wp_ite]
  split
  case isTrue hgood =>
    rw [wp_bind, wp_call]
    split
    case isTrue h => exact ⟨h, hc, hself _ rfl⟩
    rw [wp_ite]
    split
    case isTrue hacc =>
      rw [wp_bind, wp_modify, wp_bind, wp_get, wp_ite, State.modifyIssue_append,
        State.append_issues, State.modifyIssue_self, hacc]
      split
      case isTrue hzero =>
        have hone : (s.issues r.issue).counter = 1 := by
          simp only [Issue.setCounter] at hzero
          omega
        have hset : (s.modifyIssue r.issue fun c => c.setCounter (c.counter - 1)) =
            s.modifyIssue r.issue (·.setCounter 0) := by
          simp [State.modifyIssue, hone]
        rw [hset]
        exact (wp_handleSuccess hone hgood hacc).mono (fun _ _ h => h)
          fun _ _ h => ⟨h.1, hc, h.2⟩
      case isFalse hzero =>
        refine .counted hc hgood hacc fun hone => hzero ?_
        simp [Issue.setCounter, hone]
    case isFalse hacc =>
      have hacc : env.accepted = false := by simpa using hacc
      have hbad : failure env status ≠ none := by simp [failure, hgood, hacc]
      rw [hacc, wp_bind, wp_call]
      split
      case isTrue h => exact ⟨h, hc, .before _ (terminations_singleton (by simp)) rfl⟩
      rw [State.append_append]
      refine (wp_handleFailure ?_ hbad).mono ?_ fun _ _ h => ⟨h.1, hc, h.2⟩
      · rw [terminations_append, terminations_singleton (by simp)]
        rfl
      · rintro _ t rfl
        exact .rejected hc hgood hacc
  case isFalse hbad =>
    have hbad : status.successful = false := by simpa using hbad
    rw [wp_bind, wp_call]
    split
    case isTrue h => exact ⟨h, hc, hself _ rfl⟩
    refine (wp_handleFailure (terminations_singleton (by simp)) ?_).mono ?_
      fun _ _ h => ⟨h.1, hc, h.2⟩
    · simp [failure, hbad]
    · rintro _ t rfl
      exact .failed hc hbad

theorem putAnswer_cases (env : Env) (s : State) (r : Receiver) (status : WebRequestAnswer) :
    Answered env s r status (finalState (putAnswer env r status) s) ∨
      ∃ site, env.fault = some site ∧ 0 < (s.issues r.issue).counter ∧
        AnswerThrew env s r status site (finalState (putAnswer env r status) s) := by
  apply finalState_of_wp (p := fun t => Answered env s r status t ∨
    ∃ site, env.fault = some site ∧ 0 < (s.issues r.issue).counter ∧
      AnswerThrew env s r status site t)
  exact wp_putAnswer.mono (fun _ _ h => .inl h) fun site _ h => .inr ⟨site, h⟩

end StrusWebService.Delegate
