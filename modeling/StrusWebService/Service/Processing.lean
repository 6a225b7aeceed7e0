import StrusWebService.Library.Throwing
import StrusWebService.Service.System
import StrusWebService.Delegate.Context
import Mathlib.Data.List.TakeWhile

/-! # Executing the waiting list

`processWaitingRequests` statement by statement, with the mutex held. Each waiting
request owns an HTTP context that was released by the framework, so it has to be
answered and its response completed here. The loop reports but does not complete,
and an exception leaves it with the list and the flag as they are.
-/

namespace StrusWebService.Service

open Throwing
open Delegate (WebRequestAnswer DelegateRequest Reply)

/-- The calls on a waiting request that may throw. -/
inductive Site where
  | execute
  | getDelegateRequests
  | complete
  | getAnswer
  | report
  deriving DecidableEq, Repr

/-- A `WebRequestWaitingContext`: what the calls on it return, and the one that
throws, if any does. -/
structure WaitingContext where
  fault : Option Site := none
  success : Bool := true
  delegateRequests : List DelegateRequest := []
  answer : WebRequestAnswer := {}

inductive Call where
  /-- `none` if it threw. -/
  | execute (r : Request) (result : Option Bool)
  | getDelegateRequests (r : Request) (requests : List DelegateRequest)
  | complete (r : Request)
  | getAnswer (r : Request) (answer : WebRequestAnswer)
  | report (r : Request) (reply : Reply)
  | completeResponse (r : Request)
  deriving DecidableEq, Repr

structure Processing (Tid : Type) where
  closure : ServiceClosure Tid
  calls : List Call := []

variable {Tid : Type}

namespace Processing

def append (s : Processing Tid) (calls : List Call) : Processing Tid :=
  { s with calls := s.calls ++ calls }

def modifyClosure (s : Processing Tid) (f : ServiceClosure Tid → ServiceClosure Tid) :
    Processing Tid :=
  { s with closure := f s.closure }

end Processing

abbrev Code (Tid : Type) := EStateM Site (Processing Tid)

def emit (call : Call) : Code Tid Unit := modify fun s => s.append [call]

section Program

variable (contexts : Request → WaitingContext) (r : Request)

def call (site : Site) (c : Call) : Code Tid Unit :=
  if (contexts r).fault = some site then throw site else emit c

def execute : Code Tid Bool :=
  if (contexts r).fault = some .execute then do
    emit (.execute r none)
    throw .execute
  else do
    emit (.execute r (some (contexts r).success))
    pure (contexts r).success

/-- The answer of a request executed without delegate requests. -/
def reportAnswer : Code Tid Unit := do
  call contexts r .complete (.complete r)
  call contexts r .getAnswer (.getAnswer r (contexts r).answer)
  call contexts r .report (.report r (.answer (contexts r).answer true))

/-- A waiting request may not delegate. -/
def reportDelegates : Code Tid Unit :=
  call contexts r .report (.report r (.error 500 .logicError
    "no delegate requests allowed in maintenance requests with exclusive access"))

def reportFailure : Code Tid Unit := do
  let answer := (contexts r).answer
  call contexts r .getAnswer (.getAnswer r answer)
  call contexts r .report
    (.report r (.error answer.httpStatus answer.appErrorCode answer.errorStr))

/-- The body of the loop. -/
def processWaitingRequest : Code Tid Unit := do
  if ← execute contexts r then
    call contexts r .getDelegateRequests
      (.getDelegateRequests r (contexts r).delegateRequests)
    if (contexts r).delegateRequests = [] then
      reportAnswer contexts r
    else
      reportDelegates contexts r
  else
    reportFailure contexts r

/-- The loop and the statements behind it. -/
def processWaitingRequestsBody : Code Tid Unit := do
  (← get).closure.waitingContextList.forM (processWaitingRequest contexts)
  modify (·.modifyClosure .clear)
  modify (·.modifyClosure (·.setWaitForExclusiveAccess false))
  modify (·.modifyClosure .unlock)

/-- The lock is left in any case. -/
def processWaitingRequests : Code Tid Unit :=
  tryCatch (processWaitingRequestsBody contexts) fun site => do
    modify (·.modifyClosure .unlock)
    throw site

end Program

/-! ## The requests of the calls -/

namespace Call

def executed? : Call → Option Request
  | .execute r _ => some r
  | _ => none

def replied? : Call → Option Request
  | .report r _ => some r
  | _ => none

def completed? : Call → Option Request
  | .completeResponse r => some r
  | _ => none

/-- The atomic operation on the shared data, or the reply, that a call is. -/
def event? : Call → Option Event
  | .execute r (some success) => some (.executeWaiting r success)
  | .report _ _ => some .reply
  | _ => none

end Call

namespace Processing

variable (s : Processing Tid)

def executed : List Request := s.calls.filterMap Call.executed?

def replied : List Request := s.calls.filterMap Call.replied?

def completed : List Request := s.calls.filterMap Call.completed?

end Processing

/-- The state after `processWaitingRequests`. -/
def processed (contexts : Request → WaitingContext) (c : ServiceClosure Tid) : Processing Tid :=
  finalState (processWaitingRequests contexts) { closure := c }

/-- Each queued request is executed once, gets one reply and one completion; the
list is empty and the flag is cleared. -/
def AnswersEverybody (contexts : Request → WaitingContext) (c : ServiceClosure Tid) : Prop :=
  let s := processed contexts c
  (∀ r, s.executed.count r = c.waitingContextList.count r ∧
    s.replied.count r = c.waitingContextList.count r ∧
    s.completed.count r = c.waitingContextList.count r) ∧
  s.closure.waitingContextList = [] ∧ s.closure.waitForExclusiveAccess = false

/-- One of the calls that are made throws. -/
def WaitingContext.throws (w : WaitingContext) : Bool :=
  match w.fault with
  | none => false
  | some .execute => true
  | some .getDelegateRequests => w.success
  | some .complete => w.success && w.delegateRequests.isEmpty
  | some .getAnswer => !w.success || w.delegateRequests.isEmpty
  | some .report => true

/-! ## One request -/

section Rules

variable {contexts : Request → WaitingContext} {r : Request} {s : Processing Tid}
  {ok : Unit → Processing Tid → Prop} {thrown : Site → Processing Tid → Prop}

@[simp] theorem append_append (calls calls' : List Call) :
    (s.append calls).append calls' = s.append (calls ++ calls') := by
  simp [Processing.append, List.append_assoc]

@[simp] theorem wp_call (site : Site) (c : Call) :
    Wp (call contexts r site c) ok thrown s ↔
      if (contexts r).fault = some site then thrown site s else ok () (s.append [c]) := by
  unfold call
  rw [wp_ite]
  rfl

@[simp] theorem wp_execute {ok : Bool → Processing Tid → Prop} :
    Wp (execute contexts r) ok thrown s ↔
      if (contexts r).fault = some .execute then thrown .execute (s.append [.execute r none])
      else ok (contexts r).success (s.append [.execute r (some (contexts r).success)]) := by
  unfold execute
  rw [wp_ite]
  rfl

end Rules

/-- The position reached by a sequence of operations. -/
def path (p : Position) (events : List Event) : Option Position := events.foldlM control p

/-- What the calls on one request come to: it is executed, not completed, and it
gets its reply unless a call throws. -/
structure Serves (w : WaitingContext) (r : Request) (threw : Bool) (calls : List Call) : Prop where
  throws : w.throws = threw
  executed : calls.filterMap Call.executed? = [r]
  replied : calls.filterMap Call.replied? = if threw then [] else [r]
  completed : calls.filterMap Call.completed? = []
  path : ∀ f waiting, path (.processing f (r :: waiting))
      (calls.filterMap Call.event? ++ if threw then [.throws] else []) =
    some (if threw then f.unwind else .processing f waiting)

/-- What the calls behind the execution come to. -/
structure Reported (r : Request) (threw : Bool) (calls : List Call) : Prop where
  executed : calls.filterMap Call.executed? = []
  replied : calls.filterMap Call.replied? = if threw then [] else [r]
  completed : calls.filterMap Call.completed? = []
  events : calls.filterMap Call.event? = if threw then [] else [.reply]

theorem Serves.of_execute {w : WaitingContext} (h : w.fault = some .execute) (r : Request) :
    Serves w r true [.execute r none] where
  throws := by rw [WaitingContext.throws, h]
  executed := rfl
  replied := rfl
  completed := rfl
  path := fun _ _ => rfl

theorem Serves.of_reported {w : WaitingContext} {r : Request} {threw : Bool} {calls : List Call}
    (hthrows : w.throws = threw) (h : Reported r threw calls) (success : Bool) :
    Serves w r threw (.execute r (some success) :: calls) where
  throws := hthrows
  executed := by simp [Call.executed?, h.executed]
  replied := by simp [List.filterMap_cons, Call.replied?, h.replied]
  completed := by simp [List.filterMap_cons, Call.completed?, h.completed]
  path := by
    intro f waiting
    cases threw with
    | false => simp [Service.path, control, Call.event?, h.events]
    | true => simp [Service.path, control, Call.event?, h.events]

theorem wp_processWaitingRequest (contexts : Request → WaitingContext) (r : Request)
    (s : Processing Tid) :
    Wp (processWaitingRequest contexts r)
      (fun _ t => ∃ calls, Serves (contexts r) r false calls ∧ t = s.append calls)
      (fun _ t => ∃ calls, Serves (contexts r) r true calls ∧ t = s.append calls) s := by
  simp only [processWaitingRequest, reportAnswer, reportDelegates, reportFailure, wp_bind,
    wp_execute, wp_call, wp_ite, append_append]
  cases hfault : (contexts r).fault with
  | none =>
      have hthrows : (contexts r).throws = false := by rw [WaitingContext.throws, hfault]
      cases (contexts r).success with
      | false => exact ⟨_, .of_reported hthrows ⟨rfl, rfl, rfl, rfl⟩ false, rfl⟩
      | true =>
          by_cases hdelegates : (contexts r).delegateRequests = []
          · simp only [hdelegates]
            exact ⟨_, .of_reported hthrows ⟨rfl, rfl, rfl, rfl⟩ true, rfl⟩
          · simp only [hdelegates]
            exact ⟨_, .of_reported hthrows ⟨rfl, rfl, rfl, rfl⟩ true, rfl⟩
  | some site =>
      cases hsuccess : (contexts r).success with
      | false =>
          cases site
          case execute => exact ⟨_, .of_execute hfault r, rfl⟩
          all_goals
            exact ⟨_, .of_reported (by simp [WaitingContext.throws, hfault, hsuccess])
              ⟨rfl, rfl, rfl, rfl⟩ false, rfl⟩
      | true =>
          by_cases hdelegates : (contexts r).delegateRequests = []
          all_goals
            simp only [hdelegates]
            cases site
            case execute => exact ⟨_, .of_execute hfault r, rfl⟩
            all_goals
              exact ⟨_, .of_reported (by simp [WaitingContext.throws, hfault, hsuccess, hdelegates])
                ⟨rfl, rfl, rfl, rfl⟩ true, rfl⟩

/-! ## The loop -/

section Loop

variable {contexts : Request → WaitingContext} {r : Request} {waiting : List Request}
  {threw : Bool} {calls calls' : List Call} {c : ServiceClosure Tid}

/-- The requests up to the first one that throws are answered; that one is still
executed. -/
structure Serving (contexts : Request → WaitingContext) (waiting : List Request) (threw : Bool)
    (calls : List Call) : Prop where
  throws : (waiting.any fun r => (contexts r).throws) = threw
  executed : calls.filterMap Call.executed? =
    (waiting.takeWhile fun r => !(contexts r).throws) ++
      (waiting.dropWhile fun r => !(contexts r).throws).take 1
  replied : calls.filterMap Call.replied? = waiting.takeWhile fun r => !(contexts r).throws
  completed : calls.filterMap Call.completed? = []
  path : ∀ f, path (.processing f waiting)
      (calls.filterMap Call.event? ++ if threw then [.throws] else []) =
    some (if threw then f.unwind else .processing f [])

theorem path_append {p : Position} (events events' : List Event) :
    path p (events ++ events') = (path p events).bind fun q => path q events' :=
  List.foldlM_append

theorem Serving.nil : Serving contexts [] false [] := ⟨rfl, rfl, rfl, rfl, fun _ => rfl⟩

theorem Serving.throw (h : Serves (contexts r) r true calls) :
    Serving contexts (r :: waiting) true calls := by
  have hthrows := h.throws
  refine ⟨?_, ?_, ?_, h.completed, fun f => h.path f waiting⟩
  · rw [List.any_cons, hthrows, Bool.true_or]
  · rw [h.executed, List.takeWhile_cons_of_neg (by simp [hthrows]),
      List.dropWhile_cons_of_neg (by simp [hthrows])]
    rfl
  · rw [h.replied, List.takeWhile_cons_of_neg (by simp [hthrows])]
    rfl

theorem Serving.cons (h : Serves (contexts r) r false calls)
    (rest : Serving contexts waiting threw calls') :
    Serving contexts (r :: waiting) threw (calls ++ calls') := by
  have hthrows := h.throws
  refine ⟨?_, ?_, ?_, ?_, fun f => ?_⟩
  · rw [List.any_cons, hthrows, Bool.false_or, rest.throws]
  · rw [List.filterMap_append, h.executed, rest.executed,
      List.takeWhile_cons_of_pos (by simp [hthrows]), List.dropWhile_cons_of_pos (by simp [hthrows])]
    rfl
  · rw [List.filterMap_append, h.replied, rest.replied,
      List.takeWhile_cons_of_pos (by simp [hthrows])]
    rfl
  · rw [List.filterMap_append, h.completed, rest.completed]
    rfl
  · have hfirst := h.path f waiting
    rw [if_neg (by simp), List.append_nil] at hfirst
    rw [List.filterMap_append, List.append_assoc, path_append, hfirst]
    exact rest.path f

theorem wp_loop (waiting : List Request) (s : Processing Tid) :
    Wp (waiting.forM (processWaitingRequest contexts))
      (fun _ t => ∃ calls, Serving contexts waiting false calls ∧ t = s.append calls)
      (fun _ t => ∃ calls, Serving contexts waiting true calls ∧ t = s.append calls) s := by
  induction waiting generalizing s with
  | nil => exact ⟨[], .nil, by simp [Processing.append]⟩
  | cons r waiting ih =>
      show Wp (processWaitingRequest contexts r >>= fun _ =>
        waiting.forM (processWaitingRequest contexts)) _ _ s
      rw [wp_bind]
      apply (wp_processWaitingRequest contexts r s).mono
      · rintro _ _ ⟨calls, h, rfl⟩
        apply (ih (s.append calls)).mono
        · rintro _ _ ⟨calls', rest, rfl⟩
          exact ⟨_, .cons h rest, append_append calls calls'⟩
        · rintro _ _ ⟨calls', rest, rfl⟩
          exact ⟨_, .cons h rest, append_append calls calls'⟩
      · rintro _ _ ⟨calls, h, rfl⟩
        exact ⟨calls, .throw h, rfl⟩

/-- The list and the flag are reset if no request throws. -/
def Ended (contexts : Request → WaitingContext) (c : ServiceClosure Tid) (t : Processing Tid) :
    Prop :=
  ∃ threw calls, Serving contexts c.waitingContextList threw calls ∧
    t = ⟨if threw then c.unlock else (c.clear.setWaitForExclusiveAccess false).unlock, calls⟩

theorem processed_ended (contexts : Request → WaitingContext) (c : ServiceClosure Tid) :
    Ended contexts c (processed contexts c) := by
  apply finalState_of_wp (p := Ended contexts c)
  unfold processWaitingRequests processWaitingRequestsBody
  rw [wp_tryCatch, wp_bind, wp_get, wp_bind]
  apply (wp_loop c.waitingContextList { closure := c }).mono
  · rintro _ _ ⟨calls, h, rfl⟩
    exact ⟨false, calls, h, rfl⟩
  · rintro _ _ ⟨calls, h, rfl⟩
    exact ⟨true, calls, h, rfl⟩

/-- The loop follows the flow of control of the threads. -/
theorem processed_path (contexts : Request → WaitingContext) (c : ServiceClosure Tid) (f : Frame) :
    path (.processing f c.waitingContextList)
      ((processed contexts c).calls.filterMap Call.event? ++
        if c.waitingContextList.any fun r => (contexts r).throws then [.throws]
        else [.clear, .setWaitForExclusiveAccess false]) =
      some (if c.waitingContextList.any fun r => (contexts r).throws then f.unwind
        else f.resume) := by
  obtain ⟨threw, calls, h, heq⟩ := processed_ended contexts c
  rw [heq, h.throws]
  have hpath := h.path f
  cases threw with
  | true => exact hpath
  | false =>
      simp only [Bool.false_eq_true, if_false, List.append_nil] at hpath ⊢
      rw [path_append, hpath]
      rfl

/-- Where no request throws, each is executed and answered in order. -/
theorem processed_serves_iff (contexts : Request → WaitingContext) (c : ServiceClosure Tid) :
    ((processed contexts c).executed = c.waitingContextList ∧
      (processed contexts c).replied = c.waitingContextList ∧
      (processed contexts c).closure.waitingContextList = [] ∧
      (processed contexts c).closure.waitForExclusiveAccess = false) ↔
    ∀ r ∈ c.waitingContextList, (contexts r).throws = false := by
  obtain ⟨threw, calls, h, heq⟩ := processed_ended contexts c
  constructor
  · rintro ⟨-, hreplied, -, -⟩ r hr
    rw [heq] at hreplied
    have htake := h.replied.symm.trans hreplied
    simpa using List.takeWhile_eq_self_iff.mp htake r hr
  · intro hnone
    have hthrew : threw = false := by
      rw [← h.throws, List.any_eq_false]
      intro r hr
      simp [hnone r hr]
    have htake : (c.waitingContextList.takeWhile fun r => !(contexts r).throws) =
        c.waitingContextList := List.takeWhile_eq_self_iff.mpr fun r hr => by simp [hnone r hr]
    have hdrop : (c.waitingContextList.dropWhile fun r => !(contexts r).throws) = [] :=
      List.dropWhile_eq_nil_iff.mpr fun r hr => by simp [hnone r hr]
    subst hthrew
    rw [heq]
    refine ⟨?_, ?_, rfl, rfl⟩
    · exact h.executed.trans (by rw [htake, hdrop]; simp)
    · exact h.replied.trans htake

theorem completed_eq_nil (contexts : Request → WaitingContext) (c : ServiceClosure Tid) :
    (processed contexts c).completed = [] := by
  obtain ⟨threw, calls, h, heq⟩ := processed_ended contexts c
  rw [heq]
  exact h.completed

end Loop

/-- Only an empty list is dealt with: no response is ever completed. -/
theorem answersEverybody_iff (contexts : Request → WaitingContext) (c : ServiceClosure Tid) :
    AnswersEverybody contexts c ↔ c.waitingContextList = [] := by
  constructor
  · rintro ⟨hcounts, -, -⟩
    apply List.eq_nil_iff_forall_not_mem.mpr
    intro r hr
    have hcount := (hcounts r).2.2
    rw [completed_eq_nil, List.count_nil] at hcount
    exact absurd hcount (Nat.ne_of_lt (List.count_pos_iff.mpr hr))
  · intro hempty
    obtain ⟨hexecuted, hreplied, hlist, hflag⟩ :=
      (processed_serves_iff contexts c).mpr (by simp [hempty])
    refine ⟨fun r => ⟨by rw [hexecuted], by rw [hreplied], ?_⟩, hlist, hflag⟩
    rw [completed_eq_nil, hempty]

/-- The first of two waiting requests throws. -/
def firstThrows (r : Request) : WaitingContext :=
  { fault := if r = 0 then some .execute else none }

/-- A single request is answered but not completed; behind one that throws none is. -/
theorem answersEverybody_fails :
    ¬AnswersEverybody (fun _ => {}) ({ waitingContextList := [0] } : ServiceClosure Unit) ∧
    ¬AnswersEverybody firstThrows ({ waitingContextList := [0, 1] } : ServiceClosure Unit) ∧
    (processed firstThrows ({ waitingContextList := [0, 1] } : ServiceClosure Unit)).executed =
      [0] := by
  refine ⟨fun h => ?_, fun h => ?_, by decide⟩
  · exact absurd (h.1 0).2.2 (by decide)
  · exact absurd (h.1 1).1 (by decide)

end StrusWebService.Service
