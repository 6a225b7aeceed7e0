import StrusWebService.Library.StepSystem
import StrusWebService.Delegate.Closing

/-! # Runs of one delegated request

A step runs `runRequest` up to the loop of its `issueDelegateRequests`, one
iteration of a loop, or the answer of a receiver. The environment chooses the
order of the steps and the results of the calls. A receiver is answered at most
once. A loop whose iterators dangle has no further steps.
-/

namespace StrusWebService.Delegate

open Throwing StepSystem

inductive Action where
  | run (doReplyContent : Bool) (env : Env)
  | issue (i : Nat) (env : Env)
  | answer (r : Receiver) (status : WebRequestAnswer) (env : Env)

def initial : State := {}

def State.take (s : State) (r : Receiver) : State :=
  { s with outstanding := s.outstanding.erase r }

def step (s : State) : Action → Option State
  | .run doReplyContent env =>
      if s.started = 0 then some (finalState (runRequest env doReplyContent) s) else none
  | .issue i env =>
      if (s.issues i).rest ≠ [] ∧ (s.issues i).dangling = false then
        some (finalState (issueLoop env i) s)
      else none
  | .answer r status env =>
      if r ∈ s.outstanding then some (finalState (putAnswer env r status) (s.take r)) else none

/-- `runRequest` was called, every loop has ended and every receiver was answered. -/
def Quiescent (s : State) : Prop :=
  s.started ≠ 0 ∧ (∀ i, (s.issues i).rest = []) ∧ s.outstanding = []

theorem step_run {s t : State} {doReplyContent : Bool} {env : Env} :
    step s (.run doReplyContent env) = some t ↔
      s.started = 0 ∧ finalState (runRequest env doReplyContent) s = t := by
  simp [step]

theorem step_issue {s t : State} {i : Nat} {env : Env} :
    step s (.issue i env) = some t ↔
      ((s.issues i).rest ≠ [] ∧ (s.issues i).dangling = false) ∧
        finalState (issueLoop env i) s = t := by
  simp [step]

theorem step_answer {s t : State} {r : Receiver} {status : WebRequestAnswer} {env : Env} :
    step s (.answer r status env) = some t ↔
      r ∈ s.outstanding ∧ finalState (putAnswer env r status) (s.take r) = t := by
  simp [step]

/-! ## The outcomes of `runRequest` -/

section Run

variable {env : Env} {s : State}

theorem closes_replyDirect {doReplyContent : Bool} :
    Closes env 0 (replyDirect env doReplyContent)
      [.complete, .getAnswer env.answer, .report (.answer env.answer doReplyContent)] := by
  apply closes_cons rfl (by simp)
  apply closes_cons rfl (by simp)
  exact closes_call

theorem closes_mayThrow {site : Site} {k : Code Unit} {events : List Event}
    (hsite : site.terminations = 0) (hk : Closes env 0 k events) :
    Closes env 0 (do mayThrow env site; k) events := by
  intro s
  rw [wp_bind, wp_mayThrow]
  split
  case isTrue h => exact ⟨h, [], List.nil_prefix, s.append_nil.symm, hsite.symm⟩
  case isFalse => exact hk s

theorem closes_replyUnsuccessful (env : Env) (doReplyContent : Bool) :
    ∃ events, terminations events = 0 ∧
      Closes env 0 (replyUnsuccessful env doReplyContent) events := by
  have hone : ∀ (site : Site) (e : Event), site.terminations = 0 → e ≠ .doneRunRequest →
      ∃ events, terminations events = 0 ∧ Closes env 0 (call env site e) events :=
    fun site e hsite he => ⟨[e], terminations_singleton he, hsite ▸ closes_call⟩
  have hcons : ∀ k : Code Unit,
      (∃ events, terminations events = 0 ∧ Closes env 0 k events) →
      ∃ events, terminations events = 0 ∧ Closes env 0
        (do call env (.getAnswer .unsuccessful) (.getAnswer env.answer); k) events := by
    rintro k ⟨events, hevents, hk⟩
    refine ⟨_ :: events, ?_, closes_cons rfl (by simp) hk⟩
    simpa [terminations] using hevents
  apply hcons
  split
  · exact hone _ _ rfl (by simp)
  · split
    · split
      · exact ⟨_, rfl, closes_mayThrow rfl closes_call⟩
      · exact hone _ _ rfl (by simp)
    · exact hone _ _ rfl (by simp)

/-- The request was replied to and its termination signalled. -/
def Replied (s t : State) : Prop := ∃ es, t = s.close.append es ∧ terminations es = 1

/-- An exception left the `try` block, before the termination or after it. -/
def Unwound (s t : State) : Prop :=
  Replied s t ∨ ∃ es, t = s.append es ∧ terminations es = 0

theorem Replied.of_append {es : List Event} {t : State} (hes : terminations es = 0)
    (h : Replied (s.append es) t) : Replied s t := by
  rcases h with ⟨es', rfl, hes'⟩
  refine ⟨es ++ es', by simp, ?_⟩
  rw [terminations_append, hes, hes']

theorem Unwound.of_append {es : List Event} {t : State} (hes : terminations es = 0)
    (h : Unwound (s.append es) t) : Unwound s t := by
  cases h with
  | inl h => exact .inl (h.of_append hes)
  | inr h =>
      rcases h with ⟨es', rfl, hes'⟩
      refine .inr ⟨es ++ es', by simp, ?_⟩
      rw [terminations_append, hes, hes']

theorem unwound_self : Unwound s s := .inr ⟨[], s.append_nil.symm, rfl⟩

theorem wp_replyAndClose {m : Code Unit} {b : Branch} {events : List Event}
    (hm : Closes env 0 m events) (hevents : terminations events = 0) :
    Wp (do m; modify .close; signalTermination env b) (fun _ => Replied s) (fun _ => Unwound s)
      s := by
  rw [wp_bind]
  refine (hm s).mono ?_ ?_
  · rintro _ t rfl
    rw [wp_bind, wp_modify, State.close_append]
    refine (wp_signalTermination b _).mono ?_ ?_
    · rintro _ t rfl
      exact ⟨events ++ terminationEvents env b, State.append_append _ _ _, by simp [hevents]⟩
    · rintro site t ⟨-, -, rfl⟩
      refine .inl ⟨events ++ [.doneRunRequest], State.append_append _ _ _, ?_⟩
      rw [terminations_append, hevents]
      rfl
  · rintro site t ⟨-, es, hprefix, rfl, -⟩
    have := terminations_le_of_prefix hprefix
    exact .inr ⟨es, rfl, by omega⟩

/-- The `try` block replies and terminates, or hands the request over. -/
theorem wp_runRequestBody (doReplyContent : Bool) :
    Wp (runRequestBody env doReplyContent)
      (fun _ t => Replied s t ∨ (env.success = true ∧ env.follow ≠ [] ∧
        t = (s.issue .runRequest env.follow).append
          [.execute true, .logInfoMessages, .getDelegateRequests env.follow]))
      (fun _ => Unwound s) s := by
  have hquiet : ∀ e : Event, e ≠ .doneRunRequest → terminations [e] = 0 :=
    fun _ => terminations_singleton
  unfold runRequestBody
  rw [wp_bind, wp_call]
  split
  case isTrue => exact unwound_self
  rw [wp_ite]
  split
  case isFalse =>
    obtain ⟨events, hevents, hm⟩ := closes_replyUnsuccessful env doReplyContent
    refine (wp_replyAndClose hm hevents).mono ?_ ?_
    · exact fun _ t h => .inl (h.of_append (hquiet _ (by simp)))
    · exact fun _ t h => h.of_append (hquiet _ (by simp))
  case isTrue hsuccess =>
    rw [hsuccess, wp_bind, wp_call]
    split
    case isTrue => exact unwound_self.of_append (hquiet _ (by simp))
    rw [wp_bind, wp_call, State.append_append]
    split
    case isTrue => exact unwound_self.of_append rfl
    rw [State.append_append, wp_ite]
    split
    case isTrue hfollow =>
      refine (wp_replyAndClose closes_replyDirect rfl).mono ?_ ?_
      · exact fun _ t h => .inl (h.of_append rfl)
      · exact fun _ t h => h.of_append rfl
    case isFalse hfollow =>
      rw [wp_bind, wp_mayThrow]
      split
      case isTrue => exact unwound_self.of_append rfl
      unfold issueDelegateRequests
      rw [wp_bind, wp_mayThrow]
      split
      case isTrue => exact unwound_self.of_append rfl
      exact .inr ⟨rfl, hfollow, rfl⟩

@[simp] theorem wp_catchBlock {site : Site} {ok : Unit → State → Prop}
    {thrown : Site → State → Prop} :
    Wp (catchBlock site) ok thrown s ↔
      thrown site (if s.isOpen = true then s.append [.doneRunRequest] else s) := by
  simp only [catchBlock, wp_bind, wp_get, wp_ite, wp_emit, wp_throw]
  split <;> rfl

/-- What `runRequest` leaves behind before the loop of `issueDelegateRequests`. -/
inductive Ran (env : Env) (s : State) : State → Prop
  | ended (t : State) (events : List Event) (ht : t = s.start ∨ t = s.start.close)
      (hevents : terminations events = 1) : Ran env s (t.append events)
  | delegated (hsuccess : env.success = true) (hfollow : env.follow ≠ []) :
      Ran env s ((s.start.issue .runRequest env.follow).append
        [.execute true, .logInfoMessages, .getDelegateRequests env.follow])

theorem runRequest_cases (doReplyContent : Bool) (hopen : s.isOpen = true) :
    Ran env s (finalState (runRequest env doReplyContent) s) := by
  apply finalState_of_wp
  have hreplied : ∀ t, Replied s.start t → Ran env s t := by
    rintro t ⟨es, rfl, hes⟩
    exact .ended s.start.close es (.inr rfl) hes
  unfold runRequest
  rw [wp_bind, wp_modify, wp_tryCatch]
  refine (wp_runRequestBody doReplyContent).mono ?_ ?_
  · rintro _ t (h | ⟨hsuccess, hfollow, rfl⟩)
    · exact hreplied t h
    · exact .delegated hsuccess hfollow
  · intro site t h
    rw [wp_catchBlock]
    cases h with
    | inl h =>
        have hclosed : t.isOpen = false := by
          rcases h with ⟨es, rfl, -⟩
          rfl
        simpa [hclosed] using hreplied t h
    | inr h =>
        rcases h with ⟨es, rfl, hes⟩
        have hdone : terminations (es ++ [.doneRunRequest]) = 1 := by
          rw [terminations_append, hes]
          rfl
        have hstart : s.start.isOpen = true := hopen
        simpa [hstart] using Ran.ended s.start _ (.inl rfl) hdone

/-- Without exceptions a delegated request reaches the loop. -/
theorem runRequest_delegated (hfault : env.fault = none) (hsuccess : env.success = true)
    (hfollow : env.follow ≠ []) (doReplyContent : Bool) :
    finalState (runRequest env doReplyContent) s =
      (s.start.issue .runRequest env.follow).append
        [.execute true, .logInfoMessages, .getDelegateRequests env.follow] := by
  apply finalState_of_wp (p := fun t => t = (s.start.issue .runRequest env.follow).append
    [.execute true, .logInfoMessages, .getDelegateRequests env.follow])
  simp [runRequest, runRequestBody, issueDelegateRequests, hfault, hsuccess, hfollow]

end Run

/-! ## What the flag of the reply decides -/

section Flag

variable {env : Env} {s t : State}

/-- Of a request that is delegated the flag decides nothing. -/
theorem runRequest_flag (hsuccess : env.success = true) (hfollow : env.follow ≠ [])
    (doReplyContent doReplyContent' : Bool) :
    runRequest env doReplyContent = runRequest env doReplyContent' := by
  simp only [runRequest, runRequestBody, hsuccess, hfollow, if_true, if_false]

/-- One of the calls around the direct reply throws. -/
def DirectFault (env : Env) : Prop :=
  env.fault = some .execute ∨ env.fault = some .logInfoMessages ∨
    env.fault = some .getDelegateRequests ∨ env.fault = some .complete ∨
    env.fault = some (.getAnswer .direct) ∨ env.fault = some (.report .direct) ∨
    (env.processes .direct = true ∧ env.fault = some (.processWaitingRequests .direct))

def directEvents (env : Env) (doReplyContent : Bool) : List Event :=
  [.execute true, .logInfoMessages, .getDelegateRequests [], .complete, .getAnswer env.answer,
    .report (.answer env.answer doReplyContent)] ++ terminationEvents env .direct

/-- The direct reply throws with either flag or with none. -/
theorem wp_runRequest_direct (hsuccess : env.success = true) (hfollow : env.follow = [])
    (doReplyContent : Bool) :
    Wp (runRequest env doReplyContent)
      (fun _ t => t = s.start.close.append (directEvents env doReplyContent) ∧ ¬DirectFault env)
      (fun _ _ => DirectFault env) s := by
  unfold runRequest runRequestBody replyDirect signalTermination
  simp only [hsuccess, hfollow, wp_bind, wp_modify, wp_tryCatch, wp_call, wp_catchBlock, wp_ite,
    wp_emit, wp_pure, if_true]
  by_cases hfault : DirectFault env
  · simp only [hfault, not_true, and_false]
    rcases hfault with h | h | h | h | h | h | ⟨hprocesses, h⟩
    all_goals simp [*]
  · simp only [hfault, not_false_eq_true, and_true]
    unfold DirectFault at hfault
    simp only [not_or, not_and] at hfault
    rcases hfault with ⟨hexecute, hlog, hrequests, hcomplete, hanswer, hreport, hprocess⟩
    simp only [hexecute, hlog, hrequests, hcomplete, hanswer, hreport, if_false]
    unfold directEvents terminationEvents
    by_cases hprocesses : env.processes .direct = true
    · simp [hprocesses, hprocess hprocesses]
    · simp [hprocesses]

/-- What was answered, with the flag. -/
def answersOf (trace : List Event) : List (WebRequestAnswer × Bool) :=
  trace.filterMap fun
    | .report (.answer answer doReplyContent) => some (answer, doReplyContent)
    | _ => none

def SameAnswers (s t : State) : Prop := answersOf t.trace = answersOf s.trace

instance : Std.Refl SameAnswers := ⟨fun _ => rfl⟩

instance : IsTrans State SameAnswers := ⟨fun _ _ _ h h' => h'.trans h⟩

theorem sameAnswers_emit {e : Event} (he : answersOf [e] = []) : Within SameAnswers (emit e) := by
  apply Within.modify
  intro s
  have happend : answersOf (s.append [e]).trace = answersOf s.trace ++ answersOf [e] :=
    List.filterMap_append
  rw [SameAnswers, happend, he, List.append_nil]

theorem sameAnswers_mayThrow (site : Site) : Within SameAnswers (mayThrow env site) := by
  unfold mayThrow
  split
  · exact Within.throw site
  · exact Within.pure ()

theorem sameAnswers_call {site : Site} {e : Event} (he : answersOf [e] = []) :
    Within SameAnswers (call env site e) :=
  Within.bind (sameAnswers_mayThrow site) fun _ => sameAnswers_emit he

theorem sameAnswers_signalTermination (b : Branch) :
    Within SameAnswers (signalTermination env b) := by
  apply Within.bind (sameAnswers_emit rfl)
  intro _
  split
  · exact sameAnswers_call rfl
  · exact Within.pure ()

theorem sameAnswers_replyUnsuccessful (doReplyContent : Bool) :
    Within SameAnswers (replyUnsuccessful env doReplyContent) := by
  apply Within.bind (sameAnswers_call rfl)
  intro _
  split
  · exact sameAnswers_call rfl
  · split
    · split
      · exact Within.bind (sameAnswers_mayThrow _) fun _ => sameAnswers_call rfl
      · exact sameAnswers_call rfl
    · exact sameAnswers_call rfl

/-- A request whose execution failed is not answered. -/
theorem sameAnswers_runRequest (hsuccess : env.success = false) (doReplyContent : Bool) :
    Within SameAnswers (runRequest env doReplyContent) := by
  have hclose : Within SameAnswers (modify State.close : Code PUnit) :=
    Within.modify fun _ => rfl
  have hcatch : ∀ site, Within SameAnswers (catchBlock site) := by
    intro site s
    rw [wp_catchBlock]
    split
    · exact finalState_of_within (sameAnswers_emit rfl) s
    · rfl
  have hstart : Within SameAnswers (modify State.start : Code PUnit) :=
    Within.modify fun _ => rfl
  apply Within.bind hstart
  intro _
  apply Within.tryCatch _ hcatch
  apply Within.bind (sameAnswers_call rfl)
  intro _
  rw [hsuccess]
  apply Within.bind (sameAnswers_replyUnsuccessful doReplyContent)
  intro _
  exact Within.bind hclose fun _ => sameAnswers_signalTermination .unsuccessful

/-- A request that is not delegated has no steps behind `runRequest`. -/
theorem quiescent_runRequest (hnot : ¬(env.success = true ∧ env.follow ≠ []))
    (doReplyContent : Bool) :
    Quiescent (finalState (runRequest env doReplyContent) initial) := by
  have hran := @runRequest_cases env initial doReplyContent rfl
  generalize finalState (runRequest env doReplyContent) initial = t at hran
  cases hran with
  | ended t events ht =>
      rcases ht with rfl | rfl
      · exact ⟨Nat.one_ne_zero, fun _ => rfl, rfl⟩
      · exact ⟨Nat.one_ne_zero, fun _ => rfl, rfl⟩
  | delegated hsuccess hfollow => exact absurd ⟨hsuccess, hfollow⟩ hnot

theorem run_of_quiescent (h : Quiescent s) {acts : List Action}
    (hrun : run step s acts = some t) : t = s := by
  rcases h with ⟨hstarted, hrest, houtstanding⟩
  cases acts with
  | nil => exact (Option.some.inj hrun).symm
  | cons a acts =>
      obtain ⟨u, hstep, -⟩ := run_cons.mp hrun
      cases a with
      | run doReplyContent env => exact absurd (step_run.mp hstep).1 hstarted
      | issue i env => exact absurd (hrest i) (step_issue.mp hstep).1.1
      | answer r status env =>
          have hmem := (step_answer.mp hstep).1
          rw [houtstanding] at hmem
          cases hmem

end Flag

end StrusWebService.Delegate
