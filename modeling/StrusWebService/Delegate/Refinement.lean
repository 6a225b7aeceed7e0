import StrusWebService.Delegate.Thread

/-! # A delegated request among the threads of the service

`Service/System` leaves open when a delegated request terminates and how often, and what
becomes of an exception. Here every run of one request becomes a run of the threads that
work on it: `runRequest` and its loop stand on one thread, every call of
`issueDelegateRequests` out of an answer on another one.
-/

namespace StrusWebService.Delegate

open Throwing StepSystem

/-! ## The threads -/

/-- The threads of the service with what is recorded of them. -/
structure Threads where
  position : Nat → Service.Position := fun _ => .idle
  delegated : List Service.Request := []
  sights : List Sight := []

namespace Threads

variable (a : Threads)

/-- Only a delegated request is answered. -/
def Admits : Service.Event → Prop
  | .putAnswer r => r ∈ a.delegated
  | _ => True

instance (e : Service.Event) : Decidable (a.Admits e) := by
  cases e <;> unfold Admits <;> infer_instance

def note : Service.Event → List Service.Request
  | .getDelegateRequests r true => r :: a.delegated
  | _ => a.delegated

/-- A step of a thread, as in `Service/System` but for the shared data. -/
def step (a : Threads) (move : Nat × Service.Event) : Option Threads :=
  if a.Admits move.2 then
    (Service.control (a.position move.1) move.2).map fun p =>
      { position := Function.update a.position move.1 p
        delegated := a.note move.2
        sights := a.sights ++ (threadSight move.2).toList }
  else none

/-- The threads of a service. -/
def ofSystem (sys : Service.System Nat) (sights : List Sight) : Threads :=
  { position := sys.position, delegated := sys.delegated, sights := sights }

/-- A step in the service is one of its threads. -/
theorem step_ofSystem {sys sys' : Service.System Nat} {move : Nat × Service.Event}
    (h : Service.step sys move = some sys') (sights : List Sight) :
    (ofSystem sys sights).step move =
      some (ofSystem sys' (sights ++ (threadSight move.2).toList)) := by
  obtain ⟨p, hp, heffect⟩ := Option.bind_eq_some_iff.mp h
  obtain ⟨sys₁, hsys₁, rfl⟩ := Option.map_eq_some_iff.mp heffect
  have hadmits : (ofSystem sys sights).Admits move.2 := by
    cases hmove : move.2 with
    | putAnswer r =>
        rw [hmove] at hsys₁
        exact Service.effect_putAnswer hsys₁
    | _ => trivial
  have hnote : (ofSystem sys sights).note move.2 = sys₁.delegated := by
    obtain ⟨-, rfl⟩ := Service.effect_after hsys₁
    cases hmove : move.2 with
    | getDelegateRequests r delegates => cases delegates <;> rfl
    | _ => rfl
  rw [step, if_pos hadmits, hnote]
  show (Service.control (sys.position move.1) move.2).map _ = _
  rw [hp, Option.map_some, Option.some.injEq, ofSystem, Service.System.goto,
    Service.effect_position hsys₁]
  rfl

variable {a} {k : Nat} {p q : Service.Position} {r : Service.Request}

theorem step_eq {move : Service.Event} (hadmits : a.Admits move)
    (hmove : Service.control (a.position k) move = some q) :
    a.step (k, move) = some
      { position := Function.update a.position k q
        delegated := a.note move
        sights := a.sights ++ (threadSight move).toList } := by
  rw [step, if_pos hadmits, hmove]
  rfl

theorem admits_of_not_isAnswer {move : Service.Event} (h : isAnswer move = false) :
    a.Admits move := by
  cases move <;> trivial

theorem mem_note {move : Service.Event} (h : r ∈ a.delegated) : r ∈ a.note move := by
  unfold note
  split
  · exact List.mem_cons_of_mem _ h
  · exact h

/-- What one thread has done: it has gone to its new position, and the others stand still. -/
structure Moved (a : Threads) (k : Nat) (q : Service.Position) (events : List Service.Event)
    (b : Threads) : Prop where
  position : b.position = Function.update a.position k q
  sights : b.sights = a.sights ++ events.filterMap threadSight
  kept : ∀ r ∈ a.delegated, r ∈ b.delegated
  delegated : ∀ r, .getDelegateRequests r true ∈ events → r ∈ b.delegated

theorem Moved.nil (a : Threads) (k : Nat) : Moved a k (a.position k) [] a :=
  ⟨(Function.update_eq_self k a.position).symm, (List.append_nil _).symm, fun _ h => h,
    fun _ h => absurd h List.not_mem_nil⟩

/-- A path of one thread, taken while the others stand still. -/
theorem run_thread {events : List Service.Event} (hp : a.position k = p)
    (hrun : run Service.control p events = some q) (hanswer : events.any isAnswer = false) :
    ∃ b, run step a (events.map (Prod.mk k)) = some b ∧ Moved a k q events b := by
  induction events generalizing a p with
  | nil =>
      cases hrun
      subst hp
      exact ⟨a, rfl, Moved.nil a k⟩
  | cons move events ih =>
      obtain ⟨p', hmove, hrest⟩ := run_cons.mp hrun
      rw [List.any_cons, Bool.or_eq_false_iff] at hanswer
      subst hp
      have hstep := step_eq (admits_of_not_isAnswer hanswer.1) hmove
      have hp : Function.update a.position k p' k = p' := Function.update_self k p' a.position
      obtain ⟨b, hb, moved⟩ :=
        @ih { position := Function.update a.position k p'
              delegated := a.note move
              sights := a.sights ++ (threadSight move).toList } p' hp hrest hanswer.2
      refine ⟨b, run_cons.mpr ⟨_, hstep, hb⟩, ?_, ?_, ?_, ?_⟩
      · rw [moved.position]
        exact Function.update_idem _ _ _
      · rw [moved.sights]
        cases hsight : threadSight move with
        | none => simp [hsight]
        | some sight => simp [hsight]
      · intro r hr
        exact moved.kept r (mem_note hr)
      · intro r hr
        rcases List.mem_cons.mp hr with h | h
        · apply moved.kept r
          rw [← h]
          exact List.mem_cons_self
        · exact moved.delegated r h

/-- A thread that comes to work for a delegated request has found it delegated. -/
theorem delegates_of_run {events : List Service.Event}
    (hrun : run Service.control p events = some q) (hanswer : events.any isAnswer = false)
    (hp : p.delegate = none) (hq : q.delegate = some r) :
    .getDelegateRequests r true ∈ events := by
  have hpath : ∀ {events p}, run Service.control p events = some q →
      events.any isAnswer = false → p.delegate ≠ some r → .getDelegateRequests r true ∈ events := by
    intro events
    induction events with
    | nil =>
        intro p hrun _ hne
        cases hrun
        exact absurd hq hne
    | cons move events ih =>
        intro p hrun hanswer hne
        obtain ⟨p', hmove, hrest⟩ := run_cons.mp hrun
        rw [List.any_cons, Bool.or_eq_false_iff] at hanswer
        by_cases hp' : p'.delegate = some r
        · rcases Service.control_delegate hmove with h | h | ⟨r', hr', h | h⟩
          · rw [h] at hp'
            cases hp'
          · rw [h] at hp'
            exact absurd hp' hne
          · rw [hr'] at hp'
            cases hp'
            rw [h]
            exact List.mem_cons_self
          · rw [h] at hanswer
            exact absurd hanswer.1 Bool.noConfusion
        · exact List.mem_cons_of_mem move (ih hrest hanswer.2 hp')
  exact hpath hrun hanswer (by simp [hp])

end Threads

/-! ## The simulation -/

/-- Where the thread of a call stands. -/
def positionOf (r : Service.Request) (s : State) (k : Nat) : Service.Position :=
  if (s.issues k).rest = [] then .idle else (frameOf r (s.issues k).caller).resume

section Positions

variable {r : Service.Request} {s t : State} {i : Nat}

theorem positionOf_congr (h : t.issues = s.issues) : positionOf r t = positionOf r s := by
  funext k
  rw [positionOf, positionOf, h]

theorem positionOf_setCounter (c : Issue → Int) :
    positionOf r (s.modifyIssue i fun d => d.setCounter (c d)) = positionOf r s := by
  funext k
  by_cases hk : k = i
  · subst hk
    rw [positionOf, positionOf, State.modifyIssue_self]
    rfl
  · rw [positionOf, positionOf, State.modifyIssue_of_ne _ _ _ hk]

theorem positionOf_issue {caller : Caller} {requests : List DelegateRequest} (h : requests ≠ []) :
    positionOf r (s.issue caller requests) =
      Function.update (positionOf r s) s.issued (frameOf r caller).resume := by
  funext k
  by_cases hk : k = s.issued
  · subst hk
    rw [Function.update_self, positionOf, if_neg (by simpa [State.issue] using h)]
    simp [State.issue]
  · rw [Function.update_of_ne hk, positionOf, positionOf]
    simp [State.issue, hk]

theorem Only.positionOf (h : Only i s t) :
    positionOf r t = Function.update (positionOf r s) i (positionOf r t i) := by
  funext k
  by_cases hk : k = i
  · rw [hk, Function.update_self]
  · rw [Function.update_of_ne hk, Delegate.positionOf, Delegate.positionOf, h.others k hk]

theorem positionOf_of_rest (h : (s.issues i).rest ≠ []) :
    positionOf r s i = (frameOf r (s.issues i).caller).resume := if_neg h

theorem positionOf_ne_idle_iff : positionOf r s i ≠ .idle ↔ (s.issues i).rest ≠ [] := by
  by_cases h : (s.issues i).rest = []
  · simp [positionOf, h]
  · rw [positionOf_of_rest h]
    cases (s.issues i).caller <;> simp [frameOf, Service.Frame.resume, h]

theorem positionOf_of_done (h : (s.issues i).rest = []) : positionOf r s i = .idle := if_pos h

end Positions

structure Shadows (r : Service.Request) (s : State) (a : Threads) : Prop where
  position : a.position = positionOf r s
  sights : a.sights = s.sights
  delegated : 0 < s.issued → r ∈ a.delegated
  issued : ∀ i, (s.issues i).rest ≠ [] → i < s.issued
  isOpen : s.started = 0 ∨ 0 < s.issued → s.isOpen = true
  outstanding : s.outstanding ≠ [] → 0 < s.issued
  begun : s.started = 0 → s.issued = 0

section Simulation

variable {env : Env} {r : Service.Request} {s t : State} {i : Nat}

/-- A step of a loop takes its thread on, or off when the loop is left. -/
theorem issueLoop_traced (hrest : (s.issues i).rest ≠ []) (hopen : s.isOpen = true) :
    Only i s (finalState (issueLoop env i) s) ∧
      Traced (positionOf r s i) (positionOf r (finalState (issueLoop env i) s) i) s
        (finalState (issueLoop env i) s) := by
  apply finalState_of_wp (p := fun t => Only i s t ∧ Traced (positionOf r s i) (positionOf r t i) s t)
  have hnext := (@only_issueNext env i s).and
    (@stays_issueNext env r (s.issues i).caller i s)
  rw [positionOf_of_rest hrest]
  unfold issueLoop
  rw [wp_tryCatch]
  apply hnext.mono
  · rintro _ t ⟨only, htraced⟩
    refine ⟨only, ?_⟩
    by_cases hdone : (t.issues i).rest = []
    · rw [positionOf_of_done hdone]
      exact htraced.trans ⟨[.returns], run_one _ control_returns, rfl, (List.append_nil _).symm⟩
    · rw [positionOf_of_rest hdone, only.caller]
      exact htraced
  · rintro site t ⟨only, htraced⟩
    have honly : Only i t (t.modifyIssue i .leave) := by
      refine ⟨rfl, rfl, rfl, fun j hj => t.modifyIssue_of_ne i Issue.leave hj, ?_⟩
      rw [State.modifyIssue_self]
      rfl
    have hleave : Only i s (t.modifyIssue i .leave) := trans_of (Only i) only honly
    have hidle : ∀ events, positionOf r ((t.modifyIssue i .leave).append events) i = .idle :=
      fun events => positionOf_of_done (by simp [Issue.leave])
    have hcaller : ((t.modifyIssue i .leave).issues i).caller = (s.issues i).caller := hleave.caller
    have hstill : (t.modifyIssue i .leave).isOpen = true := hleave.isOpen.trans hopen
    simp only [wp_bind, wp_modify, wp_get, wp_ite, wp_catchBlock, wp_throw, hcaller, hstill,
      if_true]
    split
    case isTrue hrun =>
      refine ⟨trans_of (Only i) hleave (only_append _ _), ?_⟩
      rw [hidle]
      rw [hrun] at htraced ⊢
      have hdone : Traced (.catching r) .idle (t.modifyIssue i .leave)
          ((t.modifyIssue i .leave).append [.doneRunRequest]) :=
        traced_append (run_one (.doneRunRequest r false) (if_pos rfl)) rfl rfl
      exact htraced.trans hdone
    case isFalse hrun =>
      have hanswer : (s.issues i).caller = .putAnswer := by
        cases hc : (s.issues i).caller with
        | runRequest => exact absurd hc hrun
        | putAnswer => rfl
      refine ⟨hleave, ?_⟩
      have hdone := hidle []
      rw [State.append_nil] at hdone
      rw [hdone]
      rw [hanswer] at htraced ⊢
      exact htraced

/-- The positions behind an answer: a thread of its own has come to `q`. -/
structure AnsweredOn (r : Service.Request) (s t : State) (q : Service.Position) : Prop where
  isOpen : t.isOpen = s.isOpen
  started : t.started = s.started
  issued : s.issued ≤ t.issued
  position : positionOf r t = Function.update (positionOf r s) s.issued q
  fresh : q ≠ .idle → s.issued < t.issued
  traced : Traced (.answering r) q s t

/-- Nothing is issued for the answer, and its thread returns. -/
theorem answeredOn_of_setCounter {c : Issue → Int} {events : List Event}
    (hidle : positionOf r s s.issued = .idle)
    (htraced : Traced (.answering r) .idle s
      ((s.modifyIssue i fun d => d.setCounter (c d)).append events)) :
    AnsweredOn r s ((s.modifyIssue i fun d => d.setCounter (c d)).append events) .idle := by
  refine ⟨rfl, rfl, Nat.le_refl _, ?_, fun h => absurd rfl h, htraced⟩
  rw [← hidle, Function.update_eq_self]
  exact (positionOf_congr rfl).trans (positionOf_setCounter c)

theorem answeredOn_append {events : List Event} (hidle : positionOf r s s.issued = .idle)
    (htraced : Traced (.answering r) .idle s (s.append events)) :
    AnsweredOn r s (s.append events) .idle := by
  refine ⟨rfl, rfl, Nat.le_refl _, ?_, fun h => absurd rfl h, htraced⟩
  rw [← hidle, Function.update_eq_self]
  exact positionOf_congr rfl

theorem traced_returns (h : Traced (.answering r) (.answering r) s t) :
    Traced (.answering r) .idle s t :=
  h.trans ⟨[.returns], run_one _ rfl, rfl, (List.append_nil _).symm⟩

theorem putAnswer_traced (receiver : Receiver) (status : WebRequestAnswer)
    (hidle : positionOf r s s.issued = .idle) :
    ∃ q, AnsweredOn r s (finalState (putAnswer env receiver status) s) q := by
  apply finalState_of_wp (p := fun t => ∃ q, AnsweredOn r s t q)
  have hstays := (@wp_putAnswer env s receiver status).and
    (@stays_putAnswer env r .putAnswer receiver status s)
  apply hstays.mono
  · rintro _ t ⟨hanswered, htraced⟩
    cases hanswered with
    | late hc =>
        have happend := @answeredOn_append r s [] hidle
        rw [State.append_nil] at happend
        exact ⟨_, happend (traced_returns htraced)⟩
    | counted => exact ⟨_, answeredOn_of_setCounter hidle (traced_returns htraced)⟩
    | completed => exact ⟨_, answeredOn_of_setCounter hidle (traced_returns htraced)⟩
    | rejected => exact ⟨_, answeredOn_of_setCounter hidle (traced_returns htraced)⟩
    | failed => exact ⟨_, answeredOn_of_setCounter hidle (traced_returns htraced)⟩
    | issued hgood hacc hc hfollow =>
        refine ⟨.answering r, rfl, rfl, Nat.le_succ _, ?_, fun _ => Nat.lt_succ_self _, htraced⟩
        refine (positionOf_congr rfl).trans ((positionOf_issue hfollow).trans ?_)
        rw [positionOf_setCounter]
        rfl
  · rintro site t ⟨⟨-, -, hthrew⟩, htraced⟩
    cases hthrew with
    | before es hes hsite => exact ⟨_, answeredOn_append hidle htraced⟩
    | failing es hes hsite hbad => exact ⟨_, answeredOn_append hidle htraced⟩
    | closing es hes hc => exact ⟨_, answeredOn_of_setCounter hidle htraced⟩

variable {a : Threads}

theorem Shadows.idle (sh : Shadows r s a) {k : Nat} (h : s.issued ≤ k) :
    positionOf r s k = .idle := by
  apply positionOf_of_done
  by_contra hrest
  have := sh.issued k hrest
  omega

theorem shadows_run (doReplyContent : Bool) (sh : Shadows r s a) (hstarted : s.started = 0) :
    ∃ moves b, run Threads.step a moves = some b ∧
      Shadows r (finalState (runRequest env doReplyContent) s) b := by
  have hissued := sh.begun hstarted
  have hidle : a.position 0 = .idle := by
    rw [sh.position]
    exact sh.idle (by omega)
  have hstart : run Service.control (a.position 0)
      [.haltedForMaintenance false, .startRunRequest r] = some (.executing r) := by
    rw [hidle]
    rfl
  have hposition : s.isOpen = true := sh.isOpen (.inl hstarted)
  have hnone : s.outstanding = [] := by
    by_contra hne
    have := sh.outstanding hne
    omega
  cases @runRequest_traced env r s doReplyContent hposition with
  | ended hnext hissues houtstanding hran htraced =>
      rcases htraced with ⟨events, hrun, hanswer, hsights⟩
      obtain ⟨b, hb, moved⟩ := Threads.run_thread rfl (run_append hstart hrun) hanswer
      exact ⟨_, b, hb,
        { position := by
            rw [moved.position, ← hidle, Function.update_eq_self, sh.position]
            exact (positionOf_congr hissues).symm
          sights := by
            rw [moved.sights, hsights, sh.sights]
            rfl
          delegated h := by omega
          issued i hrest := by
            rw [hissues] at hrest
            rw [hnext]
            exact sh.issued i hrest
          isOpen h := by omega
          outstanding h := by
            rw [houtstanding, hnone] at h
            exact absurd rfl h
          begun h := by omega }⟩
  | delegated hfollow hopen hnext hissues houtstanding hran htraced =>
      rcases htraced with ⟨events, hrun, hanswer, hsights⟩
      obtain ⟨b, hb, moved⟩ := Threads.run_thread rfl (run_append hstart hrun) hanswer
      have hdelegates := Threads.delegates_of_run hrun hanswer rfl rfl
      exact ⟨_, b, hb,
        { position := by
            rw [moved.position, sh.position, (positionOf_congr hissues).trans (positionOf_issue hfollow),
              hissued]
            rfl
          sights := by
            rw [moved.sights, hsights, sh.sights]
            rfl
          delegated _ := moved.delegated r (List.mem_append_right _ hdelegates)
          issued i hrest := by
            rw [hissues] at hrest
            rw [hnext, hissued]
            by_contra hi
            have hother : i ≠ s.issued := by omega
            simp only [State.issue, Function.update_of_ne hother] at hrest
            have := sh.issued i hrest
            omega
          isOpen := fun _ => hopen
          outstanding _ := by omega
          begun h := by omega }⟩

theorem shadows_issue (sh : Shadows r s a) (hrest : (s.issues i).rest ≠ []) :
    ∃ moves b, run Threads.step a moves = some b ∧
      Shadows r (finalState (issueLoop env i) s) b := by
  have hi := sh.issued i hrest
  have hopen := sh.isOpen (.inr (by omega))
  obtain ⟨only, events, hrun, hanswer, hsights⟩ := @issueLoop_traced env r s i hrest hopen
  have hp : a.position i = positionOf r s i := by rw [sh.position]
  obtain ⟨b, hb, moved⟩ := Threads.run_thread hp hrun hanswer
  exact ⟨_, b, hb,
    { position := by
        rw [moved.position, sh.position]
        exact only.positionOf.symm
      sights := by
        rw [moved.sights, hsights, sh.sights]
      delegated h := by
        rw [only.issued] at h
        exact moved.kept r (sh.delegated h)
      issued j hj := by
        rw [only.issued]
        by_cases hji : j = i
        · rwa [hji]
        · rw [only.others j hji] at hj
          exact sh.issued j hj
      isOpen _ := by
        rw [only.isOpen]
        exact hopen
      outstanding _ := by
        rw [only.issued]
        omega
      begun h := by
        rw [only.started] at h
        have := sh.begun h
        omega }⟩

theorem shadows_answer {receiver : Receiver} (status : WebRequestAnswer) (sh : Shadows r s a)
    (hreceiver : receiver ∈ s.outstanding) :
    ∃ moves b, run Threads.step a moves = some b ∧
      Shadows r (finalState (putAnswer env receiver status) (s.take receiver)) b := by
  have hissued := sh.outstanding (List.ne_nil_of_mem hreceiver)
  have hopen := sh.isOpen (.inr hissued)
  have hidle := sh.idle (Nat.le_refl s.issued)
  obtain ⟨q, on⟩ := @putAnswer_traced env r (s.take receiver) receiver status hidle
  have hposition : positionOf r (finalState (putAnswer env receiver status) (s.take receiver)) =
      Function.update (positionOf r s) s.issued q := on.position
  obtain ⟨events, hrun, hanswer, hsights⟩ := on.traced
  have hidle' : a.position s.issued = .idle := by rw [sh.position, hidle]
  have hbegin := @Threads.step_eq a s.issued (.answering r) (.putAnswer r) (sh.delegated hissued)
    (by rw [hidle']; rfl)
  have hbehind : Function.update a.position s.issued (.answering r) s.issued = .answering r :=
    Function.update_self s.issued (.answering r) a.position
  obtain ⟨b, hb, moved⟩ :=
    @Threads.run_thread
      { position := Function.update a.position s.issued (.answering r)
        delegated := a.note (.putAnswer r)
        sights := a.sights ++ (threadSight (.putAnswer r)).toList }
      s.issued (.answering r) q _ hbehind hrun hanswer
  exact ⟨_, b, run_cons.mpr ⟨_, hbegin, hb⟩,
    { position := by
        rw [moved.position, Function.update_idem, sh.position]
        exact hposition.symm
      sights := by
        rw [moved.sights, hsights, sh.sights]
        show (s.sights ++ []) ++ _ = s.sights ++ _
        rw [List.append_nil]
      delegated _ := moved.kept r (sh.delegated hissued)
      issued j hj := by
        rw [← positionOf_ne_idle_iff, hposition] at hj
        by_cases hji : j = s.issued
        · rw [hji]
          apply on.fresh
          rwa [hji, Function.update_self] at hj
        · rw [Function.update_of_ne hji] at hj
          have := sh.issued j (positionOf_ne_idle_iff.mp hj)
          exact Nat.lt_of_lt_of_le this on.issued
      isOpen _ := by
        rw [on.isOpen]
        exact hopen
      outstanding _ := Nat.lt_of_lt_of_le hissued on.issued
      begun h := by
        rw [on.started] at h
        have := sh.begun h
        omega }⟩

theorem shadows_step {act : Action} (sh : Shadows r s a) (h : step s act = some t) :
    ∃ moves b, run Threads.step a moves = some b ∧ Shadows r t b := by
  cases act with
  | run doReplyContent env =>
      obtain ⟨hstarted, rfl⟩ := step_run.mp h
      exact shadows_run doReplyContent sh hstarted
  | issue i env =>
      obtain ⟨⟨hrest, -⟩, rfl⟩ := step_issue.mp h
      exact shadows_issue sh hrest
  | answer receiver status env =>
      obtain ⟨hreceiver, rfl⟩ := step_answer.mp h
      exact shadows_answer status sh hreceiver

theorem shadows_initial (r : Service.Request) : Shadows r initial {} := by
  refine ⟨?_, rfl, fun h => absurd h (Nat.lt_irrefl 0), fun i hrest => absurd rfl hrest,
    fun _ => rfl, fun h => absurd rfl h, fun _ => rfl⟩
  funext k
  exact (positionOf_of_done rfl).symm

end Simulation

/-- Every run of a delegated request, with any exceptions, is a run of threads that follow
the flow of control of the service. The threads stand where the loops of the request stand,
and have shown the same executions, terminations and operations on the waiting list in the
same order. -/
theorem threads_of_run (r : Service.Request) (acts : List Action) (s : State)
    (h : run step initial acts = some s) :
    ∃ moves threads, run Threads.step {} moves = some threads ∧
      threads.position = positionOf r s ∧ threads.sights = s.sights := by
  obtain ⟨moves, threads, hrun, sh⟩ := simulates_run (Shadows r)
    (fun _ _ _ _ sh hstep => shadows_step sh hstep) (shadows_initial r) h
  exact ⟨moves, threads, hrun, sh.position, sh.sights⟩

/-- A send is refused, and the waiting list is processed behind the termination with an
exception. -/
def unwoundRefusal : List Action :=
  [.run true { follow := [.remote "a", .remote "b"] }, .issue 0 {},
   .issue 0
    { sent := false
      processes := fun _ => true
      fault := some (.processWaitingRequests .refused) },
   .answer ⟨0, 2, "a", ""⟩ {} {}]

theorem threads_unwoundRefusal :
    ∃ s, run step initial unwoundRefusal = some s ∧
      s.sights = [.execute true, .doneRunRequest, .doneRunRequest] ∧
      ∃ moves threads, run Threads.step {} moves = some threads ∧
        threads.position = positionOf 0 s ∧ threads.sights = s.sights :=
  ⟨_, rfl, rfl, threads_of_run 0 unwoundRefusal _ rfl⟩

end StrusWebService.Delegate
