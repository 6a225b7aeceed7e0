import StrusWebService.Library.Countdown
import StrusWebService.Delegate.Outcomes

/-! # The ledger of a delegated request

The counters of the calls of `issueDelegateRequests`, what these calls still have
to send or to get answered, and the terminations signalled so far form a ledger.
The operations of a step are equations between ledgers.
-/

namespace StrusWebService.Delegate

open Throwing Countdown

namespace State

/-- The receivers of call `i` that were not answered yet. -/
def awaiting (s : State) (i : Nat) : Nat := s.outstanding.countP (·.issue == i)

def pending (s : State) (i : Nat) : Nat := (s.issues i).rest.length + s.awaiting i

def ledger (s : State) : Ledger Nat where
  counter := fun i => (s.issues i).counter
  pending := s.pending
  done := terminations s.trace

def Balanced (s : State) (i : Nat) : Prop := s.ledger.Balanced i

instance (s : State) (i : Nat) : Decidable (s.Balanced i) :=
  inferInstanceAs (Decidable (s.ledger.Balanced i))

variable (s : State) (i : Nat)

@[simp] theorem ledger_counter : s.ledger.counter i = (s.issues i).counter := rfl

@[simp] theorem ledger_pending : s.ledger.pending i = s.pending i := rfl

@[simp] theorem ledger_done : s.ledger.done = terminations s.trace := rfl

theorem ledger_append (es : List Event) :
    (s.append es).ledger =
      { s.ledger with done := s.ledger.done + terminations es } := by
  simp [ledger, pending, awaiting, Ledger.ext_iff, funext_iff]

theorem ledger_modifyIssue (f : Issue → Issue) :
    (s.modifyIssue i f).ledger = s.ledger.set i (f (s.issues i)).counter
      ((f (s.issues i)).rest.length + s.awaiting i) s.ledger.done := by
  apply Ledger.ext
  · funext j
    by_cases hj : j = i
    · subst hj
      simp
    · rw [Ledger.set_counter_of_ne hj, ledger_counter, modifyIssue_of_ne _ _ _ hj, ledger_counter]
  · funext j
    by_cases hj : j = i
    · subst hj
      simp [pending, awaiting]
    · rw [Ledger.set_pending_of_ne hj, ledger_pending, ledger_pending]
      simp only [pending, modifyIssue_of_ne _ _ _ hj]
      rfl
  · rfl

/-- One call and the trace change. -/
theorem ledger_modifyIssue_append (f : Issue → Issue) (es : List Event) :
    ((s.modifyIssue i f).append es).ledger = s.ledger.set i (f (s.issues i)).counter
      ((f (s.issues i)).rest.length + s.awaiting i) (s.ledger.done + terminations es) := by
  rw [ledger_append, ledger_modifyIssue]
  rfl

theorem awaiting_await (r : Receiver) :
    (s.await r).awaiting i = s.awaiting i + if r.issue = i then 1 else 0 := by
  simp [awaiting, List.countP_append, List.countP_singleton]

theorem awaiting_take {r : Receiver} (h : r ∈ s.outstanding) :
    s.awaiting i = (s.take r).awaiting i + if r.issue = i then 1 else 0 := by
  have hperm := (List.perm_cons_erase h).countP_eq (·.issue == i)
  simpa [awaiting, take, List.countP_cons] using hperm

theorem awaiting_pos {r : Receiver} (h : r ∈ s.outstanding) : 0 < s.awaiting r.issue := by
  apply List.countP_pos_iff.mpr
  exact ⟨r, h, by simp⟩

theorem ledger_take {r : Receiver} (h : r ∈ s.outstanding) :
    (s.take r).ledger = s.ledger.set r.issue (s.issues r.issue).counter
      (s.pending r.issue - 1) s.ledger.done := by
  apply Ledger.ext
  · funext j
    by_cases hj : j = r.issue
    · subst hj
      simp [take]
    · rw [Ledger.set_counter_of_ne hj]
      rfl
  · funext j
    by_cases hj : j = r.issue
    · subst hj
      rw [Ledger.set_pending_self, ledger_pending, pending, pending,
        s.awaiting_take r.issue h, if_pos rfl]
      rfl
    · rw [Ledger.set_pending_of_ne hj, ledger_pending, ledger_pending, pending, pending,
        s.awaiting_take j h, if_neg (Ne.symm hj)]
      rfl
  · rfl

theorem ledger_await (r : Receiver) :
    (s.await r).ledger = s.ledger.set r.issue (s.issues r.issue).counter
      (s.pending r.issue + 1) s.ledger.done := by
  apply Ledger.ext
  · funext j
    by_cases hj : j = r.issue
    · subst hj
      simp
    · rw [Ledger.set_counter_of_ne hj]
      rfl
  · funext j
    by_cases hj : j = r.issue
    · subst hj
      rw [Ledger.set_pending_self, ledger_pending, pending, pending, awaiting_await, if_pos rfl]
      rfl
    · rw [Ledger.set_pending_of_ne hj, ledger_pending, ledger_pending, pending, pending,
        awaiting_await, if_neg (Ne.symm hj)]
      rfl
  · rfl

/-- An answer is taken and the counter of its call is set. -/
theorem ledger_take_setCounter {r : Receiver} (h : r ∈ s.outstanding) (c : Issue → Int)
    (es : List Event) :
    (((s.take r).modifyIssue r.issue fun d => d.setCounter (c d)).append es).ledger =
      s.ledger.set r.issue (c (s.issues r.issue)) (s.pending r.issue - 1)
        (s.ledger.done + terminations es) := by
  have hpos := s.awaiting_pos h
  have htake := s.awaiting_take r.issue h
  rw [if_pos rfl] at htake
  have hpending : (s.issues r.issue).rest.length + (s.take r).awaiting r.issue =
      s.pending r.issue - 1 := by
    rw [pending]
    omega
  rw [ledger_modifyIssue_append, ledger_take s h, Ledger.set_set]
  simp only [Issue.setCounter, Ledger.set_done]
  rw [← hpending]
  rfl

/-- A new call. -/
theorem ledger_issue (caller : Caller) (requests : List DelegateRequest)
    (hfresh : s.awaiting s.issued = 0) :
    (s.issue caller requests).ledger =
      s.ledger.set s.issued requests.length requests.length s.ledger.done := by
  apply Ledger.ext
  · funext j
    by_cases hj : j = s.issued
    · subst hj
      simp [issue]
    · rw [Ledger.set_counter_of_ne hj]
      simp [issue, hj]
  · funext j
    have hawait : (s.issue caller requests).awaiting j = s.awaiting j := rfl
    by_cases hj : j = s.issued
    · subst hj
      simp [issue, pending, awaiting] at hfresh ⊢
      exact hfresh
    · rw [Ledger.set_pending_of_ne hj, ledger_pending, ledger_pending, pending, hawait]
      simp [issue, pending, hj]
  · rfl

end State

/-! ## Well formed states -/

/-- The index follows the iterators, loops and receivers belong to calls that were
made, and calls are only made while the request is open. -/
structure WellFormed (s : State) : Prop where
  aligned : ∀ i, (s.issues i).rest ≠ [] →
    (s.issues i).didx + (s.issues i).rest.length = (s.issues i).size ∧
      (s.issues i).dangling = false
  issued : ∀ i, (s.issues i).rest ≠ [] → i < s.issued
  fresh : ∀ r ∈ s.outstanding, r.issue < s.issued
  isOpen : 0 < s.issued → s.isOpen = true

namespace WellFormed

variable {s : State} {i : Nat} {f : Issue → Issue} {r : Receiver}

theorem append (wf : WellFormed s) (es : List Event) : WellFormed (s.append es) :=
  ⟨wf.aligned, wf.issued, wf.fresh, wf.isOpen⟩

theorem take (wf : WellFormed s) : WellFormed (s.take r) :=
  ⟨wf.aligned, wf.issued, fun r' hr' => wf.fresh r' (List.mem_of_mem_erase hr'), wf.isOpen⟩

theorem await (wf : WellFormed s) (hr : r.issue < s.issued) : WellFormed (s.await r) := by
  refine ⟨wf.aligned, wf.issued, fun r' hr' => ?_, wf.isOpen⟩
  cases List.mem_append.mp hr' with
  | inl h => exact wf.fresh r' h
  | inr h =>
      rw [List.mem_singleton.mp h]
      exact hr

theorem modifyIssue (wf : WellFormed s)
    (hf : (f (s.issues i)).rest ≠ [] → (s.issues i).rest ≠ [] ∧
      (f (s.issues i)).didx + (f (s.issues i)).rest.length = (f (s.issues i)).size ∧
      (f (s.issues i)).dangling = false) : WellFormed (s.modifyIssue i f) := by
  refine ⟨fun j hj => ?_, fun j hj => ?_, wf.fresh, wf.isOpen⟩
  · by_cases hji : j = i
    · subst hji
      rw [State.modifyIssue_self] at hj ⊢
      exact (hf hj).2
    · rw [State.modifyIssue_of_ne _ _ _ hji] at hj ⊢
      exact wf.aligned j hj
  · by_cases hji : j = i
    · subst hji
      rw [State.modifyIssue_self] at hj
      exact wf.issued j (hf hj).1
    · rw [State.modifyIssue_of_ne _ _ _ hji] at hj
      exact wf.issued j hj

/-- Setting the counter and leaving the loop touch nothing the loops depend on. -/
theorem setCounter (wf : WellFormed s) (c : Issue → Int) :
    WellFormed (s.modifyIssue i fun d => d.setCounter (c d)) :=
  wf.modifyIssue fun h => ⟨h, wf.aligned i h⟩

theorem leave (wf : WellFormed s) (hf : (f (s.issues i)).rest = []) :
    WellFormed (s.modifyIssue i f) :=
  wf.modifyIssue fun h => (h hf).elim

theorem advance (wf : WellFormed s) {di : DelegateRequest} {ds : List DelegateRequest}
    (hrest : (s.issues i).rest = di :: ds) (c : Issue → Int) :
    WellFormed (s.modifyIssue i fun d => (d.setCounter (c d)).advance) := by
  apply wf.modifyIssue
  have haligned := wf.aligned i (by simp [hrest])
  rw [hrest, List.length_cons] at haligned
  intro _
  refine ⟨by simp [hrest], ?_, haligned.2⟩
  simp only [Issue.setCounter, Issue.advance, hrest, List.tail_cons]
  omega

theorem issue (wf : WellFormed s) (caller : Caller) (requests : List DelegateRequest)
    (hopen : s.isOpen = true) : WellFormed (s.issue caller requests) := by
  refine ⟨fun j hj => ?_, fun j hj => ?_, fun r' hr' => ?_, fun _ => hopen⟩
  · by_cases hji : j = s.issued
    · subst hji
      simp [State.issue]
    · simp only [State.issue, Function.update_of_ne hji] at hj ⊢
      exact wf.aligned j hj
  · show j < s.issued + 1
    by_cases hji : j = s.issued
    · omega
    · simp only [State.issue, Function.update_of_ne hji] at hj
      have := wf.issued j hj
      omega
  · show r'.issue < s.issued + 1
    have := wf.fresh r' hr'
    omega

theorem awaiting_issued (wf : WellFormed s) : s.awaiting s.issued = 0 := by
  apply List.countP_eq_zero.mpr
  intro r' hr'
  have := wf.fresh r' hr'
  simp only [beq_iff_eq]
  omega

end WellFormed

end StrusWebService.Delegate
