import StrusWebService.Delegate.Context

/-! # What the closing sequences leave behind

Every place that ends a request makes the same calls in the same order: it
reports, completes the response, signals the termination and writes a log line.
`Closes` gives the events of such a sequence and, for an exception, whether the
termination was signalled before it.
-/

namespace StrusWebService.Delegate

open Throwing

/-- How often the termination was signalled before this call. -/
def Site.terminations : Site → Nat
  | .processWaitingRequests _ | .logConnectionState _ => 1
  | _ => 0

def terminations (events : List Event) : Nat := events.count .doneRunRequest

@[simp] theorem terminations_nil : terminations [] = 0 := rfl

@[simp] theorem terminations_append (events events' : List Event) :
    terminations (events ++ events') = terminations events + terminations events' :=
  List.count_append

theorem terminations_le_of_prefix {events events' : List Event} (h : events <+: events') :
    terminations events ≤ terminations events' :=
  h.sublist.count_le _

theorem terminations_cons {e : Event} {events : List Event} (h : e ≠ .doneRunRequest) :
    terminations (e :: events) = terminations events :=
  List.count_cons_of_ne h

theorem terminations_singleton {e : Event} (h : e ≠ .doneRunRequest) : terminations [e] = 0 :=
  List.count_singleton.trans (if_neg (by simpa using h))

namespace State

variable (s : State) (i : Nat) (events events' : List Event) (f g : Issue → Issue)

@[simp] theorem append_nil : s.append [] = s := by simp [append]

@[simp] theorem append_append :
    (s.append events).append events' = s.append (events ++ events') := by
  simp [append, List.append_assoc]

@[simp] theorem modifyIssue_append :
    (s.append events).modifyIssue i f = (s.modifyIssue i f).append events := rfl

@[simp] theorem await_append (r : Receiver) :
    (s.append events).await r = (s.await r).append events := rfl

@[simp] theorem close_append : (s.append events).close = s.close.append events := rfl

@[simp] theorem issue_append (caller : Caller) (requests : List DelegateRequest) :
    (s.append events).issue caller requests = (s.issue caller requests).append events := rfl

@[simp] theorem modifyIssue_modifyIssue :
    (s.modifyIssue i f).modifyIssue i g = s.modifyIssue i fun c => g (f c) := by
  simp [modifyIssue]

@[simp] theorem append_trace : (s.append events).trace = s.trace ++ events := rfl

@[simp] theorem append_issues : (s.append events).issues = s.issues := rfl

@[simp] theorem append_outstanding : (s.append events).outstanding = s.outstanding := rfl

@[simp] theorem append_issued : (s.append events).issued = s.issued := rfl

@[simp] theorem append_started : (s.append events).started = s.started := rfl

@[simp] theorem append_isOpen : (s.append events).isOpen = s.isOpen := rfl

@[simp] theorem modifyIssue_self : (s.modifyIssue i f).issues i = f (s.issues i) := by
  simp [modifyIssue]

theorem modifyIssue_of_ne {j : Nat} (h : j ≠ i) : (s.modifyIssue i f).issues j = s.issues j := by
  simp [modifyIssue, h]

@[simp] theorem modifyIssue_trace : (s.modifyIssue i f).trace = s.trace := rfl

@[simp] theorem modifyIssue_outstanding : (s.modifyIssue i f).outstanding = s.outstanding := rfl

@[simp] theorem modifyIssue_issued : (s.modifyIssue i f).issued = s.issued := rfl

@[simp] theorem modifyIssue_started : (s.modifyIssue i f).started = s.started := rfl

@[simp] theorem modifyIssue_isOpen : (s.modifyIssue i f).isOpen = s.isOpen := rfl

@[simp] theorem await_issues (r : Receiver) : (s.await r).issues = s.issues := rfl

@[simp] theorem await_trace (r : Receiver) : (s.await r).trace = s.trace := rfl

@[simp] theorem await_issued (r : Receiver) : (s.await r).issued = s.issued := rfl

@[simp] theorem await_started (r : Receiver) : (s.await r).started = s.started := rfl

@[simp] theorem await_isOpen (r : Receiver) : (s.await r).isOpen = s.isOpen := rfl

@[simp] theorem await_outstanding (r : Receiver) :
    (s.await r).outstanding = s.outstanding ++ [r] := rfl

end State

section Calls

variable {env : Env} {ok : Unit → State → Prop} {thrown : Site → State → Prop} {s : State}

@[simp] theorem wp_mayThrow (site : Site) :
    Wp (mayThrow env site) ok thrown s ↔
      if env.fault = some site then thrown site s else ok () s := by
  simp [mayThrow]

@[simp] theorem wp_emit (e : Event) : Wp (emit e) ok thrown s ↔ ok () (s.append [e]) := by
  simp [emit]

@[simp] theorem wp_call (site : Site) (e : Event) :
    Wp (call env site e) ok thrown s ↔
      if env.fault = some site then thrown site s else ok () (s.append [e]) := by
  simp [call]

end Calls

/-- An exception in a sequence of `events` that is started after `d` signals of
the termination; `es` was done before it. -/
def Threw (env : Env) (d : Nat) (events : List Event) (s : State) (site : Site)
    (t : State) : Prop :=
  env.fault = some site ∧
    ∃ es, es <+: events ∧ t = s.append es ∧ d + terminations es = site.terminations

/-- The sequence `m`, started after `d` signals of the termination, does `events`
or is left by an exception at a call that stands where `Site.terminations` says. -/
def Closes (env : Env) (d : Nat) (m : Code Unit) (events : List Event) : Prop :=
  ∀ s, Wp m (fun _ t => t = s.append events) (Threw env d events s) s

section Closing

variable {env : Env} {d : Nat} {m k : Code Unit} {events events' : List Event}

theorem closes_call {site : Site} {e : Event} :
    Closes env site.terminations (call env site e) [e] := by
  intro s
  rw [wp_call]
  split
  case isTrue h => exact ⟨h, [], List.nil_prefix, s.append_nil.symm, rfl⟩
  case isFalse => rfl

theorem closes_seq (hm : Closes env d m events)
    (hk : Closes env (d + terminations events) k events') :
    Closes env d (do m; k) (events ++ events') := by
  intro s
  rw [wp_bind]
  refine (hm s).mono ?_ ?_
  · rintro _ t rfl
    refine (hk (s.append events)).mono ?_ ?_
    · rintro _ t rfl
      rw [State.append_append]
    · rintro site t ⟨hfault, es, hprefix, rfl, hes⟩
      refine ⟨hfault, events ++ es, List.prefix_append_right_inj events |>.mpr hprefix,
        State.append_append s events es, ?_⟩
      rw [terminations_append]
      omega
  · rintro site t ⟨hfault, es, hprefix, rfl, hes⟩
    exact ⟨hfault, es, hprefix.trans (List.prefix_append events events'), rfl, hes⟩

/-- A call before the termination, then the rest. -/
theorem closes_cons {site : Site} {e : Event} (hsite : site.terminations = 0)
    (he : e ≠ .doneRunRequest) (hk : Closes env 0 k events) :
    Closes env 0 (do call env site e; k) (e :: events) := by
  have hcall : Closes env 0 (call env site e) [e] := hsite ▸ closes_call
  apply closes_seq hcall
  rw [terminations_singleton he]
  exact hk

def terminationEvents (env : Env) (b : Branch) : List Event :=
  .doneRunRequest :: if env.processes b then [.processWaitingRequests] else []

def logEvents (env : Env) (state : String) (value : Int) : List Event :=
  if env.logs then [.logConnectionState state value] else []

@[simp] theorem terminations_terminationEvents (b : Branch) :
    terminations (terminationEvents env b) = 1 := by
  unfold terminationEvents
  split <;> rfl

@[simp] theorem terminations_logEvents (state : String) (value : Int) :
    terminations (logEvents env state value) = 0 := by
  unfold logEvents
  split <;> rfl

/-- An exception out of `processWaitingRequests` comes after the termination. -/
theorem wp_signalTermination (b : Branch) (s : State) :
    Wp (signalTermination env b) (fun _ t => t = s.append (terminationEvents env b))
      (fun site t => env.fault = some site ∧ site = .processWaitingRequests b ∧
        t = s.append [.doneRunRequest]) s := by
  unfold signalTermination terminationEvents
  rw [wp_bind, wp_emit, wp_ite]
  split
  · rw [wp_call]
    split
    case isTrue h => exact ⟨h, rfl, rfl⟩
    case isFalse => exact State.append_append _ _ _
  · rfl

theorem closes_signalTermination (b : Branch) :
    Closes env 0 (signalTermination env b) (terminationEvents env b) := by
  intro s
  refine (wp_signalTermination b s).mono (fun _ _ h => h) ?_
  rintro site t ⟨hfault, rfl, rfl⟩
  exact ⟨hfault, [.doneRunRequest], List.prefix_append [_] _, rfl, rfl⟩

theorem closes_logConnectionState {b : Branch} {state : String} {value : Int} :
    Closes env 1 (logConnectionState env b state value) (logEvents env state value) := by
  intro s
  unfold logConnectionState logEvents
  rw [wp_ite]
  split
  · exact closes_call s
  · exact (State.append_nil s).symm

/-- The termination, then the log line. -/
theorem closes_terminate {b : Branch} {state : String} {value : Int} :
    Closes env 0 (do signalTermination env b; logConnectionState env b state value)
      (terminationEvents env b ++ logEvents env state value) := by
  apply closes_seq (closes_signalTermination b)
  rw [terminations_terminationEvents]
  exact closes_logConnectionState

/-! ## The places that end a request -/

def completionEvents (env : Env) (requestCount : Int) : List Event :=
  .complete :: .getAnswer env.answer :: .report (.answer env.answer true) :: .completeResponse ::
    (terminationEvents env .completed ++ logEvents env "completed delegate requests" requestCount)

@[simp] theorem terminations_completionEvents (requestCount : Int) :
    terminations (completionEvents env requestCount) = 1 := by
  simp [completionEvents, terminations_cons]

theorem closes_completeResponse (requestCount : Int) :
    Closes env 0 (completeResponse env requestCount) (completionEvents env requestCount) := by
  apply closes_cons rfl (by simp)
  apply closes_cons rfl (by simp)
  apply closes_cons rfl (by simp)
  apply closes_cons rfl (by simp)
  exact closes_terminate

def refusedEvents (env : Env) (url : String) : List Event :=
  .report (.errorFmt 500 .delegateRequestFailed "delegate request send to %s failed" url) ::
    .completeResponse ::
    (terminationEvents env .refused ++ logEvents env "failed to send delegate request" 500)

@[simp] theorem terminations_refusedEvents (url : String) :
    terminations (refusedEvents env url) = 1 := by
  simp [refusedEvents, terminations_cons]

theorem closes_reportRefused (url : String) :
    Closes env 0 (reportRefused env url) (refusedEvents env url) := by
  apply closes_cons rfl (by simp)
  apply closes_cons rfl (by simp)
  exact closes_terminate

def failureEvents (env : Env) (answer : WebRequestAnswer) : List Event :=
  .report (.answer answer true) :: .completeResponse ::
    (terminationEvents env .failed ++ logEvents env "failed delegate request" answer.httpStatus)

@[simp] theorem terminations_failureEvents (answer : WebRequestAnswer) :
    terminations (failureEvents env answer) = 1 := by
  simp [failureEvents, terminations_cons]

theorem closes_reportFailure (answer : WebRequestAnswer) :
    Closes env 0 (reportFailure env answer) (failureEvents env answer) := by
  apply closes_cons rfl (by simp)
  apply closes_cons rfl (by simp)
  exact closes_terminate

theorem closes_reportRejected :
    Closes env 0 (reportRejected env) [.getAnswer env.answer, .report
      (.error env.answer.httpStatus env.answer.appErrorCode env.answer.errorStr)] := by
  apply closes_cons rfl (by simp)
  exact closes_call

theorem closes_completeRejected :
    Closes env 0 (completeRejected env) (.completeResponse :: terminationEvents env .rejected) := by
  apply closes_cons rfl (by simp)
  exact closes_signalTermination .rejected

end Closing

end StrusWebService.Delegate
