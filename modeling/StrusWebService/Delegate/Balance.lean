import StrusWebService.Delegate.Ledger

/-! # The termination of a delegated request

The duty to signal the termination lies with the call whose counter is positive
and equals what it has pending. The catch blocks of `runRequest`, a refused send
and a rejected answer signal it whether their call has the duty or not, and an
exception in an answer leaves it undone. In runs without such steps every request
is terminated exactly once.
-/

namespace StrusWebService.Delegate

open Throwing Countdown

/-- A list fetched by the branch of the requests without URL is as long as the
list its call of `issueDelegateRequests` was started with. -/
def EqualSize (env : Env) (s : State) (i : Nat) : Prop :=
  ∀ di ∈ (s.issues i).rest.head?, di.url = none → env.accepted = true →
    (s.issues i).counter = 1 → env.follow = [] ∨ env.follow.length = (s.issues i).size

/-- A send is refused and an answer without receiver rejected only while the
counter of the call is balanced. -/
def RefusedInTime (env : Env) (s : State) (i : Nat) : Prop :=
  ∀ di ∈ (s.issues i).rest.head?,
    (if di.url = none then env.accepted else env.sent) = false → s.Balanced i

/-- An exception in the loop: under `runRequest`, whose catch blocks signal the
termination, before the termination of a balanced call; under `putAnswer`, where
nobody does, after the termination. -/
def CaughtInTime (env : Env) (s : State) (i : Nat) : Prop :=
  ∀ site ∈ env.fault, match (s.issues i).caller with
    | .runRequest => s.Balanced i ∧ site.terminations = 0
    | .putAnswer => s.Balanced i → site.terminations = 1

/-- The condition under which every request is terminated exactly once. -/
def Guarded (s : State) : Action → Prop
  | .run _ _ => True
  | .issue i env => EqualSize env s i ∧ RefusedInTime env s i ∧ CaughtInTime env s i
  | .answer r status env =>
      (failure env status ≠ none → (s.issues r.issue).counter ≤ 0 ∨ s.Balanced r.issue) ∧
        ∀ site ∈ env.fault, s.Balanced r.issue → site.terminations = 1

instance (env : Env) (s : State) (i : Nat) : Decidable (CaughtInTime env s i) :=
  have : ∀ site : Site, Decidable (match (s.issues i).caller with
      | .runRequest => s.Balanced i ∧ site.terminations = 0
      | .putAnswer => s.Balanced i → site.terminations = 1) := fun _ =>
    match (s.issues i).caller with
    | .runRequest => inferInstanceAs (Decidable (_ ∧ _))
    | .putAnswer => inferInstanceAs (Decidable (_ → _))
  inferInstanceAs (Decidable (∀ site ∈ env.fault, _))

instance (s : State) (a : Action) : Decidable (Guarded s a) :=
  match a with
  | .run _ _ => isTrue trivial
  | .issue i env => inferInstanceAs (Decidable (
      (∀ di ∈ (s.issues i).rest.head?, di.url = none → env.accepted = true →
        (s.issues i).counter = 1 → env.follow = [] ∨ env.follow.length = (s.issues i).size) ∧
      (∀ di ∈ (s.issues i).rest.head?,
        (if di.url = none then env.accepted else env.sent) = false → s.Balanced i) ∧
      CaughtInTime env s i))
  | .answer r status env => inferInstanceAs (Decidable (
      (failure env status ≠ none → (s.issues r.issue).counter ≤ 0 ∨ s.Balanced r.issue) ∧
      ∀ site ∈ env.fault, s.Balanced r.issue → site.terminations = 1))

variable {env : Env} {s t : State} {i : Nat} {di : DelegateRequest} {ds : List DelegateRequest}

/-! ## Iterations of a loop -/

theorem pending_of_rest (hrest : (s.issues i).rest = di :: ds) :
    s.pending i = ds.length + 1 + s.awaiting i := by
  simp [State.pending, hrest]

/-- A counter at one with a request left to issue is balanced. -/
theorem balanced_of_rest (sound : s.ledger.Sound) (hrest : (s.issues i).rest = di :: ds)
    (hc : (s.issues i).counter = 1) : s.Balanced i ∧ ds = [] ∧ s.awaiting i = 0 := by
  have hpending := pending_of_rest hrest
  have hb : s.Balanced i := by
    by_contra hnot
    have := Ledger.surplus_of_not_balanced sound hnot
    rw [State.ledger_counter, State.ledger_pending] at this
    omega
  have heq : (s.issues i).counter = s.pending i := hb.2
  refine ⟨hb, List.length_eq_zero_iff.mp ?_, ?_⟩ <;> omega

theorem noRace_of_sound (sound : s.ledger.Sound) (wf : WellFormed s)
    (hrest : (s.issues i).rest = di :: ds) : NoRace env s i di := by
  intro _ _ hc
  obtain ⟨-, rfl, -⟩ := balanced_of_rest sound hrest hc
  have := (wf.aligned i (by simp [hrest])).1
  rw [hrest] at this
  simpa using this

/-- A step of a balanced call that ends the request. -/
theorem sound_closed {f : Issue → Issue} {es : List Event} (sound : s.ledger.Sound)
    (hb : s.Balanced i) (hes : terminations es = 1)
    (hf : (f (s.issues i)).counter ≤ 0 ∨
      ((f (s.issues i)).rest.length + s.awaiting i : Nat) < (f (s.issues i)).counter) :
    ((s.modifyIssue i f).append es).ledger.Sound := by
  rw [State.ledger_modifyIssue_append, hes]
  exact Ledger.sound_close sound hb hf

theorem sound_issued (sound : s.ledger.Sound) (hrest : (s.issues i).rest = di :: ds)
    (hsize : EqualSize env s i) (htime : RefusedInTime env s i) (h : Issued env s i di t) :
    t.ledger.Sound := by
  have hhead : di ∈ (s.issues i).rest.head? := by simp [hrest]
  have hpending := pending_of_rest hrest
  cases h with
  | sent url hurl hsent =>
      rw [State.ledger_modifyIssue_append, State.ledger_await, Ledger.set_set]
      apply Ledger.sound_count sound
      · simp [Issue.advance, hrest, State.awaiting_await, hpending]
        omega
      · exact id
      · exact id
  | refused url hurl hsent =>
      have hb := htime di hhead (by simp [hurl, hsent])
      apply sound_closed sound hb
      · simp [terminations_cons]
      · exact .inl (by simp [Issue.setCounter, Issue.leave])
  | fed hurl hacc hc =>
      rw [State.ledger_modifyIssue_append]
      apply Ledger.sound_count sound
      · simp [Issue.advance, Issue.setCounter, hrest, hpending]
        omega
      · simp only [Issue.advance, Issue.setCounter, State.ledger_counter]
        omega
      · simp only [Issue.advance, Issue.setCounter, State.ledger_counter]
        omega
  | again hurl hacc hc hfollow =>
      obtain ⟨hb, -, hnone⟩ := balanced_of_rest sound hrest hc
      have hlen : env.follow.length = (s.issues i).size := by
        cases hsize di hhead hurl hacc hc with
        | inl h => exact (hfollow h).elim
        | inr h => exact h
      have hpos : 0 < (s.issues i).size := by
        rw [← hlen]
        exact List.length_pos_iff.mpr hfollow
      have hover := Ledger.sound_handOver (p := 0) (j := i) sound hb hpos
      rw [Ledger.set_set] at hover
      rw [State.ledger_modifyIssue_append]
      simpa [Issue.again, Issue.setCounter, hnone, hlen, terminations_cons] using hover
  | completed hurl hacc hc hfollow =>
      obtain ⟨hb, -⟩ := balanced_of_rest sound hrest hc
      apply sound_closed sound hb
      · simp [terminations_cons]
      · exact .inl (by simp [Issue.setCounter, Issue.clearFollow, Issue.advance, hc])
  | rejected hurl hacc =>
      have hb := htime di hhead (by simp [hurl, hacc])
      apply sound_closed sound hb
      · simp
      · exact .inl (by simp [Issue.setCounter, Issue.leave])

/-- An iteration that ends the request belongs to a balanced call. -/
theorem balanced_of_ends (sound : s.ledger.Sound) (hrest : (s.issues i).rest = di :: ds)
    (htime : RefusedInTime env s i) (h : Ends env s i di) : s.Balanced i := by
  have hhead : di ∈ (s.issues i).rest.head? := by simp [hrest]
  rcases h with ⟨hurl, hsent⟩ | ⟨hurl, hacc⟩ | ⟨-, hc⟩
  · exact htime di hhead (by simp [hurl, hsent])
  · exact htime di hhead (by simp [hurl, hacc])
  · exact (balanced_of_rest sound hrest hc).1

theorem sound_issueUnwound (sound : s.ledger.Sound) (wf : WellFormed s)
    (hrest : (s.issues i).rest = di :: ds) (htime : RefusedInTime env s i)
    (hcaught : CaughtInTime env s i) (h : IssueUnwound env s i di t) : t.ledger.Sound := by
  rcases h with ⟨site, u, hfault, hthrew, rfl⟩
  have hopen := wf.isOpen (Nat.zero_lt_of_lt (wf.issued i (by simp [hrest])))
  have hpending := pending_of_rest hrest
  have hsite := hcaught site hfault
  cases hcaller : (s.issues i).caller with
  | runRequest =>
      rw [hcaller] at hsite
      rcases hsite with ⟨hb, hzero⟩
      have heq : (s.issues i).counter = s.pending i := hb.2
      rw [if_pos ⟨rfl, hopen⟩]
      cases hthrew with
      | before es hes _ =>
          rw [State.modifyIssue_append, State.append_append]
          apply sound_closed sound hb
          · rw [terminations_append, hes]
            rfl
          · simp only [Issue.leave, List.length_nil]
            omega
      | closing es hes _ =>
          rw [State.modifyIssue_append, State.append_append, State.modifyIssue_modifyIssue]
          apply sound_closed sound hb
          · rw [terminations_append, hes, hzero]
            rfl
          · exact .inl (by simp [Issue.setCounter, Issue.leave])
  | putAnswer =>
      rw [hcaller] at hsite
      rw [if_neg (by simp), State.append_nil]
      cases hthrew with
      | before es hes hzero =>
          have hnot : ¬s.Balanced i := by
            intro hb
            have := hsite hb
            omega
          rw [State.modifyIssue_append, State.ledger_modifyIssue_append, hes, Nat.add_zero]
          apply Ledger.sound_lose sound hnot
          simp only [Issue.leave, List.length_nil, State.ledger_pending]
          omega
      | closing es hes hends =>
          have hb := balanced_of_ends sound hrest htime hends
          rw [State.modifyIssue_append, State.modifyIssue_modifyIssue]
          apply sound_closed sound hb
          · rw [hes, hsite hb]
          · exact .inl (by simp [Issue.setCounter, Issue.leave])

/-! ## Answers -/

variable {r : Receiver} {status : WebRequestAnswer}

theorem pending_pos (hr : r ∈ s.outstanding) : 0 < s.pending r.issue := by
  have := s.awaiting_pos hr
  rw [State.pending]
  omega

/-- A counter at one with an answer missing is balanced. -/
theorem balanced_of_outstanding (sound : s.ledger.Sound) (hr : r ∈ s.outstanding)
    (hc : (s.issues r.issue).counter = 1) : s.Balanced r.issue := by
  have hpos := pending_pos hr
  by_contra hnot
  have := Ledger.surplus_of_not_balanced sound hnot
  rw [State.ledger_counter, State.ledger_pending] at this
  omega

/-- An answer that ends the request. -/
theorem sound_answer_closed {es : List Event} (sound : s.ledger.Sound) (hr : r ∈ s.outstanding)
    (hb : s.Balanced r.issue) (hes : terminations es = 1) :
    (((s.take r).modifyIssue r.issue (·.setCounter 0)).append es).ledger.Sound := by
  rw [State.ledger_take_setCounter s hr, hes]
  exact Ledger.sound_close sound hb (.inl (Int.le_refl 0))

theorem sound_answered (sound : s.ledger.Sound) (wf : WellFormed s) (hr : r ∈ s.outstanding)
    (hbad : failure env status ≠ none → (s.issues r.issue).counter ≤ 0 ∨ s.Balanced r.issue)
    (h : Answered env (s.take r) r status t) : t.ledger.Sound := by
  have hpos := pending_pos hr
  have hfailed : 0 < (s.issues r.issue).counter → failure env status ≠ none →
      s.Balanced r.issue := fun hc hf => (hbad hf).resolve_left (by omega)
  cases h with
  | late hc =>
      have hc : (s.issues r.issue).counter ≤ 0 := hc
      rw [State.ledger_take s hr]
      apply Ledger.sound_lose sound
      · intro hb
        have := hb.1
        rw [State.ledger_counter] at this
        omega
      · rw [State.ledger_pending]
        omega
  | counted hc hgood hacc hmore =>
      have hc : 0 < (s.issues r.issue).counter := hc
      have hmore : (s.issues r.issue).counter ≠ 1 := hmore
      rw [State.ledger_take_setCounter s hr fun c => c.counter - 1]
      apply Ledger.sound_count sound
      · rw [State.ledger_counter, State.ledger_pending]
        omega
      · intro _
        omega
      · rw [State.ledger_counter]
        omega
  | completed hgood hacc hc hfollow =>
      apply sound_answer_closed sound hr (balanced_of_outstanding sound hr hc)
      simp [terminations_cons]
  | issued hgood hacc hc hfollow =>
      have hb := balanced_of_outstanding sound hr hc
      have hfresh := (wf.take (r := r)).setCounter (i := r.issue) (fun _ => 0)
      rw [State.ledger_append, State.ledger_issue _ _ _ hfresh.awaiting_issued,
        ← State.append_nil ((s.take r).modifyIssue r.issue fun c => c.setCounter 0),
        State.ledger_take_setCounter s hr fun _ => 0]
      exact Ledger.sound_handOver sound hb (List.length_pos_iff.mpr hfollow)
  | rejected hc hgood hacc =>
      apply sound_answer_closed sound hr (hfailed hc (by simp [failure, hgood, hacc]))
      simp [terminations_cons]
  | failed hc hnot =>
      apply sound_answer_closed sound hr (hfailed hc (by simp [failure, hnot]))
      simp

theorem sound_answerThrew {site : Site} (sound : s.ledger.Sound) (hr : r ∈ s.outstanding)
    (hc : 0 < (s.issues r.issue).counter)
    (hbad : failure env status ≠ none → (s.issues r.issue).counter ≤ 0 ∨ s.Balanced r.issue)
    (hsite : s.Balanced r.issue → site.terminations = 1)
    (h : AnswerThrew env (s.take r) r status site t) : t.ledger.Sound := by
  have hpos := pending_pos hr
  cases h with
  | before es hes hzero =>
      have hnot : ¬s.Balanced r.issue := by
        intro hb
        have := hsite hb
        omega
      rw [State.ledger_append, hes, State.ledger_take s hr]
      apply Ledger.sound_lose sound hnot
      rw [State.ledger_pending]
      omega
  | failing es hes _ hf =>
      have hb : s.Balanced r.issue := (hbad hf).resolve_left (by omega)
      have heq : (s.issues r.issue).counter = s.pending r.issue := hb.2
      rw [State.ledger_append, hes, State.ledger_take s hr]
      apply Ledger.sound_close sound hb
      right
      omega
  | closing es hes hone =>
      have hb := balanced_of_outstanding sound hr hone
      exact sound_answer_closed sound hr hb (hes.trans (hsite hb))

/-! ## Whole runs -/

theorem wellFormed_issued (sound : s.ledger.Sound) (wf : WellFormed s)
    (hrest : (s.issues i).rest = di :: ds) (hsize : EqualSize env s i)
    (h : Issued env s i di t) : WellFormed t := by
  have hhead : di ∈ (s.issues i).rest.head? := by simp [hrest]
  have hne : (s.issues i).rest ≠ [] := by simp [hrest]
  have hi := wf.issued i hne
  cases h with
  | sent url hurl hsent =>
      have hadvance := (wf.await (r := ⟨i, (s.issues i).counter, url, di.receiverSchema⟩) hi).advance
        hrest fun d => d.counter
      exact hadvance.append _
  | refused url hurl hsent => exact (wf.leave rfl).append _
  | fed hurl hacc hc => exact (wf.advance hrest fun d => d.counter - 1).append _
  | again hurl hacc hc hfollow =>
      apply WellFormed.append
      apply wf.modifyIssue
      intro _
      refine ⟨hne, ?_, (wf.aligned i hne).2⟩
      have hlen := (hsize di hhead hurl hacc hc).resolve_left hfollow
      simpa [Issue.again, Issue.setCounter] using hlen
  | completed hurl hacc hc hfollow =>
      obtain ⟨-, hlast, -⟩ := balanced_of_rest sound hrest hc
      apply WellFormed.append
      apply wf.leave
      simp [Issue.advance, Issue.clearFollow, Issue.setCounter, hrest, hlast]
  | rejected hurl hacc => exact (wf.leave rfl).append _

theorem wellFormed_issueUnwound (wf : WellFormed s) (h : IssueUnwound env s i di t) :
    WellFormed t := by
  rcases h with ⟨site, u, -, hthrew, rfl⟩
  apply WellFormed.append
  cases hthrew with
  | before es => exact (wf.append es).leave rfl
  | closing es => exact ((wf.setCounter fun _ => 0).append es).leave rfl

theorem wellFormed_answered (wf : WellFormed s) (hopen : s.isOpen = true)
    (h : Answered env s r status t) : WellFormed t := by
  cases h with
  | late hc => exact wf
  | counted => exact (wf.setCounter fun d => d.counter - 1).append _
  | completed => exact (wf.setCounter fun _ => 0).append _
  | issued => exact ((wf.setCounter fun _ => 0).issue _ _ hopen).append _
  | rejected => exact (wf.setCounter fun _ => 0).append _
  | failed => exact (wf.setCounter fun _ => 0).append _

theorem wellFormed_answerThrew {site : Site} (wf : WellFormed s)
    (h : AnswerThrew env s r status site t) : WellFormed t := by
  cases h with
  | before es => exact wf.append es
  | failing es => exact wf.append es
  | closing es => exact (wf.setCounter fun _ => 0).append es

/-- `runRequest` was called and the ledger is sound. -/
structure Started (s : State) : Prop where
  started : s.started = 1
  sound : s.ledger.Sound
  wellFormed : WellFormed s

/-- Nothing happened yet, or the request is accounted for. -/
def Accounted (s : State) : Prop := s = initial ∨ Started s

theorem started_ran (h : Ran env initial t) : Started t := by
  cases h with
  | ended u events hu hevents =>
      have hledger : (u.append events).ledger = ⟨fun _ => 0, fun _ => 0, 1⟩ := by
        rcases hu with rfl | rfl <;> rw [State.ledger_append, hevents] <;> rfl
      refine ⟨?_, .inr ?_, ?_⟩
      · rcases hu with rfl | rfl <;> rfl
      · rw [hledger]
        exact ⟨rfl, fun _ => .inl (Int.le_refl 0)⟩
      · apply WellFormed.append
        rcases hu with rfl | rfl <;> constructor <;>
          simp [initial, State.start, State.close]
  | delegated hsuccess hfollow =>
      have wf : WellFormed initial.start := by
        constructor <;> simp [initial, State.start]
      refine ⟨rfl, ?_, (wf.issue _ _ rfl).append _⟩
      rw [State.ledger_append, State.ledger_issue _ _ _ wf.awaiting_issued]
      exact Ledger.sound_begin rfl (fun j => Int.le_refl 0) (List.length_pos_iff.mpr hfollow)

theorem accounted_step {a : Action} (inv : Accounted s) (ok : Guarded s a)
    (h : step s a = some t) : Accounted t := by
  cases inv with
  | inl hinitial =>
      subst hinitial
      cases a with
      | run doReplyContent env =>
          obtain ⟨-, rfl⟩ := step_run.mp h
          exact .inr (started_ran (runRequest_cases doReplyContent rfl))
      | issue i env => exact ((step_issue.mp h).1.1 rfl).elim
      | answer r status env => cases (step_answer.mp h).1
  | inr inv =>
      cases a with
      | run doReplyContent env =>
          have := (step_run.mp h).1
          have := inv.started
          omega
      | issue i env =>
          obtain ⟨⟨hne, -⟩, rfl⟩ := step_issue.mp h
          obtain ⟨di, ds, hrest⟩ := List.exists_cons_of_ne_nil hne
          rcases ok with ⟨hsize, htime, hcaught⟩
          cases issueLoop_cases hrest (noRace_of_sound inv.sound inv.wellFormed hrest) with
          | inl h => exact .inr ⟨h.started.trans inv.started,
              sound_issued inv.sound hrest hsize htime h,
              wellFormed_issued inv.sound inv.wellFormed hrest hsize h⟩
          | inr h => exact .inr ⟨h.started.trans inv.started,
              sound_issueUnwound inv.sound inv.wellFormed hrest htime hcaught h,
              wellFormed_issueUnwound inv.wellFormed h⟩
      | answer r status env =>
          obtain ⟨hr, rfl⟩ := step_answer.mp h
          rcases ok with ⟨hbad, hsite⟩
          have hopen := inv.wellFormed.isOpen
            (Nat.zero_lt_of_lt (inv.wellFormed.fresh r hr))
          have wf := inv.wellFormed.take (r := r)
          cases putAnswer_cases env (s.take r) r status with
          | inl h => exact .inr ⟨h.started.trans inv.started,
              sound_answered inv.sound inv.wellFormed hr hbad h, wellFormed_answered wf hopen h⟩
          | inr h =>
              rcases h with ⟨site, hfault, hc, h⟩
              exact .inr ⟨h.started.trans inv.started,
                sound_answerThrew inv.sound hr hc hbad (hsite site hfault) h,
                wellFormed_answerThrew wf h⟩

/-- The running request counter, from its value before the request. -/
def runningRequestCounter (before : Int) (s : State) : Int :=
  before + s.started - terminations s.trace

/-- In a run whose steps are guarded `doneRunRequest` is called once for the
request, and the running request counter returns to its value. -/
theorem doneRunRequest_once (acts : List Action) (s : State)
    (ok : StepSystem.Along step Guarded initial acts)
    (h : StepSystem.run step initial acts = some s) :
    (∀ before, before ≤ runningRequestCounter before s) ∧
      (Quiescent s → terminations s.trace = 1 ∧
        ∀ before, runningRequestCounter before s = before) := by
  have inv : Accounted s :=
    StepSystem.invariant_run Accounted (fun _ _ _ => accounted_step) (.inl rfl) ok h
  have hle : terminations s.trace ≤ s.started := by
    cases inv with
    | inl h => subst h; exact Nat.le_refl 0
    | inr h =>
        rw [h.started]
        exact Ledger.done_le_one h.sound
  refine ⟨fun before => ?_, fun quiet => ?_⟩
  · unfold runningRequestCounter
    omega
  · rcases quiet with ⟨hstarted, hrest, hout⟩
    cases inv with
    | inl h => exact (hstarted (h ▸ rfl)).elim
    | inr h =>
        have hdone : terminations s.trace = 1 := by
          apply Ledger.done_of_not_pending h.sound
          intro i
          simp [State.pending, State.awaiting, hrest i, hout]
        refine ⟨hdone, fun before => ?_⟩
        unfold runningRequestCounter
        rw [hdone, h.started]
        omega

def bad : WebRequestAnswer := { ok := false, httpStatus := 500 }

/-- A send is refused and the logger throws behind the termination. -/
def throwingLogger : List Action :=
  [.run true { follow := [.remote "a"] },
   .issue 0 { sent := false, logs := true, fault := some (.logConnectionState .refused) }]

/-- The request context throws when it gets an answer. -/
def throwingPut : List Action :=
  [.run true { follow := [.remote "a"] }, .issue 0 {},
   .answer ⟨0, 1, "a", ""⟩ {} { fault := some .putDelegateRequestAnswer }]

/-- The logger throws in `handleFailure`; then another answer fails. -/
def throwingFailure : List Action :=
  [.run true { follow := [.remote "a", .remote "b"] }, .issue 0 {}, .issue 0 {},
   .answer ⟨0, 2, "a", ""⟩ bad { logs := true, fault := some (.logConnectionState .failed) },
   .answer ⟨0, 2, "b", ""⟩ bad {}]

theorem doneRunRequest_not_once :
    (∃ s, StepSystem.run step initial throwingLogger = some s ∧ Quiescent s ∧
      terminations s.trace = 2) ∧
    (∃ s, StepSystem.run step initial throwingPut = some s ∧ Quiescent s ∧
      terminations s.trace = 0) ∧
    (∃ s, StepSystem.run step initial throwingFailure = some s ∧ Quiescent s ∧
      terminations s.trace = 2) := by
  refine ⟨⟨_, rfl, ⟨by decide, ?_, rfl⟩, rfl⟩, ⟨_, rfl, ⟨by decide, ?_, rfl⟩, rfl⟩,
    ⟨_, rfl, ⟨by decide, ?_, rfl⟩, rfl⟩⟩
  all_goals
    intro i
    match i with
    | 0 => rfl
    | i + 1 => rfl

/-- The second receiver cannot be created while the first one is answered. -/
def throwingReceiver : List Action :=
  [.run true { follow := [.remote "a", .remote "b"] }, .issue 0 {},
   .issue 0 { fault := some .newReceiver }, .answer ⟨0, 2, "a", ""⟩ {} {}]

theorem doneRunRequest_throwingReceiver :
    ∃ s, StepSystem.run step initial throwingReceiver = some s ∧ terminations s.trace = 1 := by
  refine ⟨_, rfl, ((doneRunRequest_once throwingReceiver _ (by decide) rfl).2 ?_).1⟩
  refine ⟨by decide, fun i => ?_, rfl⟩
  match i with
  | 0 => rfl
  | i + 1 => rfl

end StrusWebService.Delegate
