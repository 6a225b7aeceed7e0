import StrusWebService.Delegate.Outcomes
import StrusWebService.Service.Ownership

/-! # The code of a delegated request on a thread

Each function of a delegated request takes a thread of the service along the flow of control
of `Service/System`, from one position to another, or to a third one if it throws, and shows
the same executions, terminations and operations on the waiting list. So do the loops and the
code of `runRequest`.
-/

namespace StrusWebService.Delegate

open Throwing StepSystem

/-! ## What both levels see -/

inductive Sight where
  | execute (success : Bool)
  | doneRunRequest
  | pushWaitingRequest
  | processWaitingRequests
  deriving DecidableEq, Repr

def Event.sight : Event → Option Sight
  | .execute success => some (.execute success)
  | .doneRunRequest => some .doneRunRequest
  | .pushWaitingRequest => some .pushWaitingRequest
  | .processWaitingRequests => some .processWaitingRequests
  | _ => none

def State.sights (s : State) : List Sight := s.trace.filterMap Event.sight

/-- A call of `processWaitingRequests` that returns has cleared the list. -/
def threadSight : Service.Event → Option Sight
  | .execute _ success => some (.execute success)
  | .doneRunRequest _ _ => some .doneRunRequest
  | .pushBack _ => some .pushWaitingRequest
  | .clear => some .processWaitingRequests
  | _ => none

def isAnswer : Service.Event → Bool
  | .putAnswer _ => true
  | _ => false

theorem sights_append (s : State) (events : List Event) :
    (s.append events).sights = s.sights ++ events.filterMap Event.sight :=
  List.filterMap_append

/-! ## Code on one thread -/

section Thread

variable {α β : Type} {env : Env} {p q e : Service.Position} {r : Service.Request}

theorem run_one (move : Service.Event) (h : Service.control p move = some q) :
    run Service.control p [move] = some q := by
  rw [run_cons]
  exact ⟨q, h, rfl⟩

/-- A thread can go from one position to the other, not by way of an answer, and show what
the code has done. -/
def Traced (p q : Service.Position) (s t : State) : Prop :=
  ∃ events, run Service.control p events = some q ∧ events.any isAnswer = false ∧
    t.sights = s.sights ++ events.filterMap threadSight

theorem Traced.refl {s t : State} (h : t.sights = s.sights) : Traced p p s t :=
  ⟨[], rfl, rfl, by rw [h, List.filterMap_nil, List.append_nil]⟩

theorem Traced.trans {p' : Service.Position} {s t u : State} (h : Traced p q s t)
    (h' : Traced q p' t u) : Traced p p' s u := by
  rcases h with ⟨events, hrun, hanswer, hsights⟩
  rcases h' with ⟨events', hrun', hanswer', hsights'⟩
  refine ⟨events ++ events', run_append hrun hrun', ?_, ?_⟩
  · rw [List.any_append, hanswer, hanswer', Bool.or_false]
  · rw [hsights', hsights, List.filterMap_append, List.append_assoc]

/-- The code takes the thread from one position to another, or throws and takes it to a
third one. -/
def Follows (p q e : Service.Position) (m : Code α) : Prop :=
  ∀ s, Wp m (fun _ => Traced p q s) (fun _ => Traced p e s) s

theorem Follows.bind {p' : Service.Position} {m : Code β} {k : β → Code α} (hm : Follows p q e m)
    (hk : ∀ b, Follows q p' e (k b)) : Follows p p' e (m >>= k) := by
  intro s
  rw [wp_bind]
  apply (hm s).mono
  · intro b t ht
    exact (hk b t).mono (fun _ _ hu => ht.trans hu) (fun _ _ hu => ht.trans hu)
  · intro site t ht
    exact ht

theorem follows_pure (a : α) : Follows p p e (pure a : Code α) := fun _ => Traced.refl rfl

theorem follows_get : Follows p p e (get : Code State) := fun _ => Traced.refl rfl

theorem follows_modify {f : State → State} (h : ∀ s, (f s).sights = s.sights) :
    Follows p p e (modify f : Code PUnit) := fun s => Traced.refl (h s)

theorem follows_modifyIssue (i : Nat) (f : Issue → Issue) :
    Follows p p e (modify fun s => s.modifyIssue i f : Code PUnit) := follows_modify fun _ => rfl

theorem follows_emit {event : Event} (h : event.sight = none) : Follows p p e (emit event) := by
  apply follows_modify
  intro s
  rw [sights_append, List.filterMap_cons_none h, List.filterMap_nil, List.append_nil]

theorem follows_mayThrow (hthrows : Service.control p .throws = some e) (site : Site) :
    Follows p p e (mayThrow env site) := by
  intro s
  rw [wp_mayThrow]
  split
  · exact ⟨[.throws], run_one _ hthrows, rfl, (List.append_nil _).symm⟩
  · exact Traced.refl rfl

theorem follows_call (hthrows : Service.control p .throws = some e) (site : Site) {event : Event}
    (h : event.sight = none) : Follows p p e (call env site event) :=
  (follows_mayThrow hthrows site).bind fun _ => follows_emit h

theorem follows_ite {c : Prop} [Decidable c] {m k : Code α} (hm : c → Follows p q e m)
    (hk : ¬c → Follows p q e k) : Follows p q e (if c then m else k) := by
  split
  · exact hm (by assumption)
  · exact hk (by assumption)

/-- What a thread does at the end of `processWaitingRequests`. -/
theorem run_processWaitingRequests {f : Service.Frame} (waiting : List Service.Request)
    (hdone : ∀ zero, Service.control p (.doneRunRequest r zero) =
      some (if zero then .testing f else f.resume)) :
    run Service.control p [.doneRunRequest r true, .haltedForMaintenance true, .lockList waiting] =
      some (.processing f waiting) := by
  rw [run_cons]
  exact ⟨_, hdone true, rfl⟩

/-- The termination, at any of its three places. -/
theorem follows_signalTermination {f : Service.Frame} (b : Branch)
    (hdone : ∀ zero, Service.control p (.doneRunRequest r zero) =
      some (if zero then .testing f else f.resume)) :
    Follows p f.resume f.unwind (signalTermination env b) := by
  intro s
  refine (wp_signalTermination b s).mono ?_ ?_
  · rintro _ t rfl
    unfold terminationEvents
    split
    · refine ⟨[.doneRunRequest r true, .haltedForMaintenance true, .lockList []] ++
        [.clear, .setWaitForExclusiveAccess false], ?_, rfl, sights_append _ _⟩
      exact run_append (run_processWaitingRequests [] hdone) rfl
    · exact ⟨[.doneRunRequest r false], run_one _ (hdone false), rfl, sights_append _ _⟩
  · rintro site t ⟨-, -, rfl⟩
    refine ⟨[.doneRunRequest r true, .haltedForMaintenance true, .lockList [r]] ++ [.throws], ?_,
      rfl, sights_append _ _⟩
    exact run_append (run_processWaitingRequests [r] hdone) rfl

end Thread

/-! ## Code of a delegated request -/

section Delegated

variable {env : Env} {r : Service.Request} {c : Caller}

/-- Where the code of a call of `issueDelegateRequests` stands, and of an answer. -/
def frameOf (r : Service.Request) : Caller → Service.Frame
  | .runRequest => .issuing r
  | .putAnswer => .answering r

theorem control_throws : Service.control (frameOf r c).resume .throws = some (frameOf r c).unwind := by
  cases c <;> rfl

theorem control_doneRunRequest (zero : Bool) :
    Service.control (frameOf r c).resume (.doneRunRequest r zero) =
      some (if zero then .testing (frameOf r c) else (frameOf r c).resume) := by
  cases c <;> exact if_pos rfl

theorem control_returns : Service.control (frameOf r c).resume .returns = some .idle := by
  cases c <;> rfl

/-- The code keeps the thread where it is, or throws. -/
def Stays {α : Type} (r : Service.Request) (c : Caller) (m : Code α) : Prop :=
  Follows (frameOf r c).resume (frameOf r c).resume (frameOf r c).unwind m

theorem stays_call (site : Site) {event : Event} (h : event.sight = none) :
    Stays r c (call env site event) := follows_call control_throws site h

theorem stays_mayThrow (site : Site) : Stays r c (mayThrow env site) :=
  follows_mayThrow control_throws site

theorem stays_signalTermination (b : Branch) : Stays r c (signalTermination env b) :=
  follows_signalTermination b control_doneRunRequest

theorem stays_logConnectionState (b : Branch) (state : String) (value : Int) :
    Stays r c (logConnectionState env b state value) :=
  follows_ite (fun _ => stays_call _ rfl) (fun _ => follows_pure ())

theorem stays_completeResponse (requestCount : Int) :
    Stays r c (completeResponse env requestCount) := by
  apply Follows.bind (stays_call _ rfl)
  intro _
  apply Follows.bind (stays_call _ rfl)
  intro _
  apply Follows.bind (stays_call _ rfl)
  intro _
  apply Follows.bind (stays_call _ rfl)
  intro _
  exact (stays_signalTermination _).bind fun _ => stays_logConnectionState _ _ _

theorem stays_reportRefused (url : String) : Stays r c (reportRefused env url) := by
  apply Follows.bind (stays_call _ rfl)
  intro _
  apply Follows.bind (stays_call _ rfl)
  intro _
  exact (stays_signalTermination _).bind fun _ => stays_logConnectionState _ _ _

theorem stays_raceError : Stays r c (raceError env) := by
  apply Follows.bind (stays_call _ rfl)
  intro _
  exact (stays_call _ rfl).bind fun _ => stays_signalTermination _

theorem stays_sendDelegateRequest (i : Nat) (di : DelegateRequest) (url : String) :
    Stays r c (sendDelegateRequest env i di url) := by
  apply Follows.bind (stays_mayThrow _)
  intro _
  apply Follows.bind follows_get
  intro s
  apply Follows.bind (stays_call _ rfl)
  intro _
  apply follows_ite
  · intro _
    apply Follows.bind
    · exact follows_modify fun _ => rfl
    · intro _
      exact follows_modifyIssue i _
  · intro _
    apply Follows.bind (follows_modifyIssue i _)
    intro _
    exact (stays_reportRefused url).bind fun _ => follows_modifyIssue i _

theorem stays_feedDelegateRequest (i : Nat) (di : DelegateRequest) :
    Stays r c (feedDelegateRequest env i di) := by
  apply Follows.bind (stays_call _ rfl)
  intro _
  apply follows_ite
  · intro _
    apply Follows.bind (follows_modifyIssue i _)
    intro _
    apply Follows.bind follows_get
    intro s
    apply follows_ite
    · intro _
      have hcounted : Stays r c (do
          call env .getDelegateRequests (.getDelegateRequests env.follow)
          if env.follow = [] then
            completeResponse env (s.issues i).requestCount
            modify fun s => s.modifyIssue i fun c => c.clearFollow.advance
          else
            modify fun s => s.modifyIssue i (·.again env.follow)) := by
        apply Follows.bind (stays_call _ rfl)
        intro _
        apply follows_ite
        · intro _
          exact (stays_completeResponse _).bind fun _ => follows_modifyIssue i _
        · intro _
          exact follows_modifyIssue i _
      exact follows_ite (fun _ => stays_raceError.bind fun _ => hcounted) (fun _ => hcounted)
    · intro _
      exact follows_modifyIssue i _
  · intro _
    have hrejected : Stays r c (reportRejected env) :=
      (stays_call _ rfl).bind fun _ => stays_call _ rfl
    have hcompleted : Stays r c (completeRejected env) :=
      (stays_call _ rfl).bind fun _ => stays_signalTermination _
    apply Follows.bind hrejected
    intro _
    apply Follows.bind (follows_modifyIssue i _)
    intro _
    exact hcompleted.bind fun _ => follows_modifyIssue i _

theorem stays_issueNext (i : Nat) : Stays r c (issueNext env i) := by
  apply Follows.bind follows_get
  intro s
  cases (s.issues i).rest with
  | nil => exact follows_pure ()
  | cons di ds =>
      apply Follows.bind (stays_mayThrow _)
      intro _
      cases di.url with
      | none => exact stays_feedDelegateRequest i di
      | some url => exact stays_sendDelegateRequest i di url

theorem stays_handleFailure (receiver : Receiver) (status : WebRequestAnswer) :
    Stays r c (handleFailure env receiver status) := by
  have hreport : Stays r c (reportFailure env (status.explain (failedMessage receiver.url))) := by
    apply Follows.bind (stays_call _ rfl)
    intro _
    apply Follows.bind (stays_call _ rfl)
    intro _
    exact (stays_signalTermination _).bind fun _ => stays_logConnectionState _ _ _
  exact hreport.bind fun _ => follows_modifyIssue _ _

theorem stays_issueDelegateRequests (caller : Caller) (requests : List DelegateRequest) :
    Stays r c (issueDelegateRequests env caller requests) :=
  (stays_mayThrow _).bind fun _ => follows_modify fun _ => rfl

theorem stays_putAnswer (receiver : Receiver) (status : WebRequestAnswer) :
    Stays r c (putAnswer env receiver status) := by
  apply Follows.bind follows_get
  intro s
  apply follows_ite (fun _ => follows_pure ())
  intro _
  apply follows_ite
  · intro _
    apply Follows.bind (stays_call _ rfl)
    intro _
    apply follows_ite
    · intro _
      apply Follows.bind (follows_modifyIssue _ _)
      intro _
      apply Follows.bind follows_get
      intro s
      apply follows_ite _ (fun _ => follows_pure _)
      intro _
      apply Follows.bind (stays_call _ rfl)
      intro _
      apply follows_ite
      · intro _
        exact stays_completeResponse _
      · intro _
        exact stays_issueDelegateRequests _ _
    · intro _
      exact (stays_call _ rfl).bind fun _ => stays_handleFailure _ _
  · intro _
    exact (stays_call _ rfl).bind fun _ => stays_handleFailure _ _

end Delegated

/-! ## What a loop leaves alone -/

/-- The calls of `issueDelegateRequests` but one, and who made that one. -/
structure Only (i : Nat) (s t : State) : Prop where
  issued : t.issued = s.issued
  isOpen : t.isOpen = s.isOpen
  started : t.started = s.started
  others : ∀ j, j ≠ i → t.issues j = s.issues j
  caller : (t.issues i).caller = (s.issues i).caller

instance (i : Nat) : Std.Refl (Only i) := ⟨fun _ => ⟨rfl, rfl, rfl, fun _ _ => rfl, rfl⟩⟩

instance (i : Nat) : IsTrans State (Only i) where
  trans _ _ _ h h' :=
    { issued := h'.issued.trans h.issued
      isOpen := h'.isOpen.trans h.isOpen
      started := h'.started.trans h.started
      others := fun j hj => (h'.others j hj).trans (h.others j hj)
      caller := h'.caller.trans h.caller }

section Loop

variable {env : Env} {i : Nat}

theorem only_append (s : State) (events : List Event) : Only i s (s.append events) :=
  ⟨rfl, rfl, rfl, fun _ _ => rfl, rfl⟩

theorem only_emit (event : Event) : Within (Only i) (emit event) :=
  Within.modify fun s => only_append s [event]

theorem only_mayThrow (site : Site) : Within (Only i) (mayThrow env site) := by
  unfold mayThrow
  split
  · exact Within.throw site
  · exact Within.pure ()

theorem only_call (site : Site) (event : Event) : Within (Only i) (call env site event) :=
  Within.bind (only_mayThrow site) fun _ => only_emit event

theorem only_get : Within (Only i) (get : Code State) := fun s => refl_of (Only i) s

theorem only_modifyIssue {f : Issue → Issue} (h : ∀ c, (f c).caller = c.caller) :
    Within (Only i) (modify fun s => s.modifyIssue i f : Code PUnit) := by
  apply Within.modify
  intro s
  refine ⟨rfl, rfl, rfl, fun j hj => s.modifyIssue_of_ne i f hj, ?_⟩
  rw [State.modifyIssue_self, h]

theorem only_setCounter (c : Issue → Int) :
    Within (Only i) (modify fun s => s.modifyIssue i fun d => d.setCounter (c d) : Code PUnit) :=
  only_modifyIssue fun _ => rfl

/-- A sequence that only adds events. -/
theorem only_closes {d : Nat} {m : Code Unit} {events : List Event} (h : Closes env d m events) :
    Within (Only i) m := by
  intro s
  refine (h s).mono ?_ ?_
  · rintro _ t rfl
    exact only_append s events
  · rintro site t ⟨-, es, -, rfl, -⟩
    exact only_append s es

theorem only_sendDelegateRequest (di : DelegateRequest) (url : String) :
    Within (Only i) (sendDelegateRequest env i di url) := by
  apply Within.bind (only_mayThrow _)
  intro _
  apply Within.bind only_get
  intro s
  apply Within.bind (only_call _ _)
  intro _
  split
  · apply Within.bind
    · exact Within.modify fun s => ⟨rfl, rfl, rfl, fun _ _ => rfl, rfl⟩
    · intro _
      exact only_modifyIssue fun _ => rfl
  · refine Within.bind (only_setCounter _) fun _ => ?_
    apply Within.bind (only_closes (closes_reportRefused url))
    intro _
    exact only_modifyIssue fun _ => rfl

theorem only_feedDelegateRequest (di : DelegateRequest) :
    Within (Only i) (feedDelegateRequest env i di) := by
  apply Within.bind (only_call _ _)
  intro _
  split
  · refine Within.bind (only_setCounter _) fun _ => ?_
    apply Within.bind only_get
    intro s
    have hcounted : Within (Only i) (do
        call env .getDelegateRequests (.getDelegateRequests env.follow)
        if env.follow = [] then
          completeResponse env (s.issues i).requestCount
          modify fun s => s.modifyIssue i fun c => c.clearFollow.advance
        else
          modify fun s => s.modifyIssue i (·.again env.follow)) := by
      apply Within.bind (only_call _ _)
      intro _
      split
      · apply Within.bind (only_closes (closes_completeResponse _))
        intro _
        exact only_modifyIssue fun _ => rfl
      · exact only_modifyIssue fun _ => rfl
    have hrace : Within (Only i) (raceError env) := by
      apply Within.bind (only_call _ _)
      intro _
      exact Within.bind (only_call _ _) fun _ => only_closes (closes_signalTermination _)
    by_cases hzero : (s.issues i).counter = 0
    · by_cases hlast : (s.issues i).didx + 1 ≠ (s.issues i).size
      · simp only [hzero, if_true, if_pos hlast]
        exact Within.bind hrace fun _ => hcounted
      · simp only [hzero, if_true, if_neg hlast]
        exact hcounted
    · simp only [hzero, if_false]
      exact only_modifyIssue fun _ => rfl
  · apply Within.bind (only_closes closes_reportRejected)
    intro _
    refine Within.bind (only_setCounter _) fun _ => ?_
    apply Within.bind (only_closes closes_completeRejected)
    intro _
    exact only_modifyIssue fun _ => rfl

theorem only_issueNext : Within (Only i) (issueNext env i) := by
  apply Within.bind only_get
  intro s
  cases (s.issues i).rest with
  | nil => exact Within.pure ()
  | cons di ds =>
      apply Within.bind (only_mayThrow _)
      intro _
      cases di.url with
      | none => exact only_feedDelegateRequest di
      | some url => exact only_sendDelegateRequest di url

end Loop

/-! ## The code of `runRequest` -/

section Run

variable {env : Env} {r : Service.Request} {p q e : Service.Position} {s : State}

/-- A call that the thread goes on with by these steps. -/
theorem follows_move {event : Event} {site : Site} {events : List Service.Event}
    (hthrows : Service.control p .throws = some e) (hrun : run Service.control p events = some q)
    (hanswer : events.any isAnswer = false)
    (hsight : events.filterMap threadSight = [event].filterMap Event.sight) :
    Follows p q e (call env site event) := by
  apply (follows_mayThrow hthrows site).bind
  intro _ s
  refine ⟨events, hrun, hanswer, ?_⟩
  rw [sights_append, hsight]

theorem follows_replyDirect (doReplyContent : Bool) :
    Follows (.replying r) (.closing r) (.catching r) (replyDirect env doReplyContent) := by
  apply Follows.bind (follows_call rfl _ rfl)
  intro _
  apply Follows.bind (follows_call rfl _ rfl)
  intro _
  exact @follows_move _ _ _ _ _ _ [.reply] rfl rfl rfl rfl

theorem follows_replyUnsuccessful (doReplyContent : Bool) :
    Follows (.failed r) (.closing r) (.catching r) (replyUnsuccessful env doReplyContent) := by
  have hreport : ∀ reply, Follows (.failed r) (.closing r) (.catching r)
      (call env (.report .unsuccessful) (.report reply)) := fun reply =>
    @follows_move _ _ _ _ _ _ [.reply] rfl rfl rfl rfl
  have hpush : Follows (.failed r) (.closing r) (.catching r)
      (call env .pushWaitingRequest .pushWaitingRequest) := by
    have hrun : run Service.control (.failed r)
        [.lock, .setWaitForExclusiveAccess true, .pushBack r] = some (.closing r) := by
      simp [run, Service.control]
    exact follows_move rfl hrun rfl rfl
  apply Follows.bind (follows_call rfl _ rfl)
  intro _
  apply follows_ite (fun _ => hreport _)
  intro _
  apply follows_ite _ (fun _ => hreport _)
  intro _
  apply follows_ite _ (fun _ => hreport _)
  intro _
  exact (follows_mayThrow rfl _).bind fun _ => hpush

/-- Where a thread stands behind the `try` block. -/
def behindBody (r : Service.Request) (t : State) : Service.Position :=
  if t.isOpen then .issuing r else .idle

/-- Where an exception takes it. -/
def behindThrow (r : Service.Request) (t : State) : Service.Position :=
  if t.isOpen then .catching r else .idle

/-- A reply, `open = false` and the termination. -/
theorem wp_replyAndTerminate {m : Code Unit} {b : Branch} {events : List Event}
    (hm : Follows p (.closing r) (.catching r) m) (hcloses : Closes env 0 m events)
    (hopen : s.isOpen = true) :
    Wp (do m; modify .close; signalTermination env b)
      (fun _ t => Traced p (behindBody r t) s t) (fun _ t => Traced p (behindThrow r t) s t) s := by
  rw [wp_bind]
  apply ((hm s).and (hcloses s)).mono
  · rintro _ t ⟨htraced, rfl⟩
    rw [wp_bind, wp_modify]
    have hterminate : Follows (.closing r) .idle .idle (signalTermination env b) :=
      @follows_signalTermination env (.closing r) r .tail b fun zero => if_pos rfl
    have hclose : Traced p (.closing r) s (s.append events).close := htraced
    apply ((hterminate (s.append events).close).and (wp_signalTermination b _)).mono
    · rintro _ u ⟨hu, rfl⟩
      exact hclose.trans hu
    · rintro site u ⟨hu, -, -, rfl⟩
      exact hclose.trans hu
  · rintro site t ⟨htraced, -, es, -, rfl, -⟩
    have hthrow : behindThrow r (s.append es) = .catching r := if_pos hopen
    rwa [hthrow]

theorem Wp.after {α : Type} {m : Code α} {ok thrown : State → Service.Position} {t : State}
    (ht : Traced p q s t)
    (h : Wp m (fun _ u => Traced q (ok u) t u) (fun _ u => Traced q (thrown u) t u) t) :
    Wp m (fun _ u => Traced p (ok u) s u) (fun _ u => Traced p (thrown u) s u) t :=
  h.mono (fun _ _ hu => ht.trans hu) (fun _ _ hu => ht.trans hu)

theorem traced_append {events : List Event} {moves : List Service.Event}
    (hrun : run Service.control p moves = some q) (hanswer : moves.any isAnswer = false)
    (hsight : moves.filterMap threadSight = events.filterMap Event.sight) :
    Traced p q s (s.append events) := by
  refine ⟨moves, hrun, hanswer, ?_⟩
  rw [sights_append, hsight]

theorem traced_throws (hthrows : Service.control p .throws = some (.catching r))
    (hopen : s.isOpen = true) : Traced p (behindThrow r s) s s := by
  have hthrow : behindThrow r s = .catching r := if_pos hopen
  rw [hthrow]
  exact ⟨[.throws], run_one _ hthrows, rfl, (List.append_nil _).symm⟩

/-- The `try` block behind an execution that succeeded. -/
theorem wp_runRequestBody_executed (doReplyContent : Bool) (hopen : s.isOpen = true) :
    Wp (do
        call env .logInfoMessages .logInfoMessages
        call env .getDelegateRequests (.getDelegateRequests env.follow)
        if env.follow = [] then
          replyDirect env doReplyContent
          modify .close
          signalTermination env .direct
        else
          mayThrow env .releaseContext
          issueDelegateRequests env .runRequest env.follow)
      (fun _ t => Traced (.executed r) (behindBody r t) s t)
      (fun _ t => Traced (.executed r) (behindThrow r t) s t) s := by
  rw [wp_bind, wp_call]
  split
  case isTrue => exact traced_throws rfl hopen
  rw [wp_bind, wp_call]
  split
  case isTrue =>
    have hlog : Traced (.executed r) (.executed r) s (s.append [.logInfoMessages]) :=
      @traced_append _ _ _ _ [] rfl rfl rfl
    exact hlog.trans (traced_throws rfl hopen)
  rw [State.append_append, wp_ite]
  split
  case isTrue hfollow =>
    have hmove : Traced (.executed r) (.replying r) s (s.append ([.logInfoMessages] ++
        [.getDelegateRequests env.follow])) :=
      traced_append (run_one (.getDelegateRequests r false) (if_pos rfl)) rfl rfl
    exact Wp.after hmove
      (wp_replyAndTerminate (follows_replyDirect doReplyContent) closes_replyDirect hopen)
  case isFalse hfollow =>
    have hmove : Traced (.executed r) (.issuing r) s (s.append ([.logInfoMessages] ++
        [.getDelegateRequests env.follow])) :=
      traced_append (run_one (.getDelegateRequests r true) (if_pos rfl)) rfl rfl
    apply Wp.after hmove
    rw [wp_bind, wp_mayThrow]
    split
    case isTrue => exact traced_throws rfl hopen
    unfold issueDelegateRequests
    rw [wp_bind, wp_mayThrow]
    split
    case isTrue => exact traced_throws rfl hopen
    rw [wp_modify]
    have hbehind : behindBody r ((s.append ([.logInfoMessages] ++
        [.getDelegateRequests env.follow])).issue .runRequest env.follow) = .issuing r :=
      if_pos hopen
    rw [hbehind]
    exact Traced.refl rfl

theorem wp_runRequestBody_traced (doReplyContent : Bool) (hopen : s.isOpen = true) :
    Wp (runRequestBody env doReplyContent)
      (fun _ t => Traced (.executing r) (behindBody r t) s t)
      (fun _ t => Traced (.executing r) (behindThrow r t) s t) s := by
  unfold runRequestBody
  rw [wp_bind, wp_call]
  split
  case isTrue => exact traced_throws rfl hopen
  rw [wp_ite]
  split
  case isTrue hsuccess =>
    have hexecute : Traced (.executing r) (.executed r) s (s.append [.execute env.success]) := by
      rw [hsuccess]
      exact traced_append (run_one (.execute r true) (if_pos rfl)) rfl rfl
    exact Wp.after hexecute (wp_runRequestBody_executed doReplyContent hopen)
  case isFalse hsuccess =>
    have hexecute : Traced (.executing r) (.failed r) s (s.append [.execute env.success]) := by
      simp only [Bool.not_eq_true] at hsuccess
      rw [hsuccess]
      exact traced_append (run_one (.execute r false) (if_pos rfl)) rfl rfl
    obtain ⟨events, -, hcloses⟩ := closes_replyUnsuccessful env doReplyContent
    exact Wp.after hexecute
      (wp_replyAndTerminate (follows_replyUnsuccessful doReplyContent) hcloses hopen)

/-- `runRequest` has come to its end, or to the loop of `issueDelegateRequests`. -/
inductive RanOn (env : Env) (r : Service.Request) (s : State) : State → Prop
  | ended (t : State) (hissued : t.issued = s.issued) (hissues : t.issues = s.issues)
      (houtstanding : t.outstanding = s.outstanding) (hstarted : t.started = s.started + 1)
      (htraced : Traced (.executing r) .idle s t) : RanOn env r s t
  | delegated (t : State) (hfollow : env.follow ≠ []) (hopen : t.isOpen = true)
      (hissued : t.issued = s.issued + 1)
      (hissues : t.issues = (s.issue .runRequest env.follow).issues)
      (houtstanding : t.outstanding = s.outstanding) (hstarted : t.started = s.started + 1)
      (htraced : Traced (.executing r) (.issuing r) s t) : RanOn env r s t

theorem runRequest_traced (doReplyContent : Bool) (hopen : s.isOpen = true) :
    RanOn env r s (finalState (runRequest env doReplyContent) s) := by
  apply finalState_of_wp
  have hstart : s.start.isOpen = true := hopen
  have hbody := (@wp_runRequestBody env s.start doReplyContent).and
    (@wp_runRequestBody_traced env r s.start doReplyContent hstart)
  unfold runRequest
  rw [wp_bind, wp_modify, wp_tryCatch]
  apply hbody.mono
  · rintro _ t ⟨⟨es, rfl, -⟩ | ⟨-, hfollow, rfl⟩, htraced⟩
    · exact .ended _ rfl rfl rfl rfl htraced
    · have hbehind : behindBody r ((s.start.issue .runRequest env.follow).append
          [.execute true, .logInfoMessages, .getDelegateRequests env.follow]) = .issuing r :=
        if_pos hopen
      rw [hbehind] at htraced
      exact .delegated _ hfollow hopen rfl rfl rfl rfl htraced
  · rintro site t ⟨⟨es, rfl, -⟩ | ⟨es, rfl, -⟩, htraced⟩
    · rw [wp_catchBlock, if_neg (by simp [State.close])]
      exact .ended _ rfl rfl rfl rfl htraced
    · have hthrow : behindThrow r (s.start.append es) = .catching r := if_pos hopen
      have hdone : Traced (.catching r) .idle (s.start.append es)
          ((s.start.append es).append [.doneRunRequest]) :=
        traced_append (run_one (.doneRunRequest r false) (if_pos rfl)) rfl rfl
      have hcatch : (s.start.append es).isOpen = true := hopen
      rw [hthrow] at htraced
      rw [wp_catchBlock, if_pos hcatch]
      exact .ended _ rfl rfl rfl rfl (htraced.trans hdone)

end Run

end StrusWebService.Delegate
