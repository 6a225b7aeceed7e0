import StrusWebService.Library.StepSystem
import StrusWebService.Service.Closure
import Mathlib.Logic.Function.Basic

/-! # Worker threads running requests on one service closure

Every thread stands at a program position of `exec_request`, `runRequest`,
`processWaitingRequests` or of a delegated request's termination. `control` is
the flow of control of these functions and `effect` the operation on the shared
data; one step of a thread is one atomic operation. What the request contexts,
the reply functions and the delegate contexts do is chosen by the environment:
each call made inside the `try` block may end normally or throw, and a delegated
request may signal its termination at any time and any number of times.
-/

namespace StrusWebService.Service

/-- Where the statements after a `doneRunRequest` that returned true go on. -/
inductive Frame where
  /-- The end of `runRequest`, after `open = false`. -/
  | tail
  /-- `signalTermination` inside `issueDelegateRequests` called by `runRequest`. -/
  | issuing (r : Request)
  /-- `signalTermination` inside an answer handled by the event loop. -/
  | answering (r : Request)
  deriving DecidableEq, Repr

inductive Position where
  | idle
  | admitted
  | executing (r : Request)
  | executed (r : Request)
  | replying (r : Request)
  | failed (r : Request)
  | flagging (r : Request)
  | pushing (r : Request)
  | closing (r : Request)
  | catching (r : Request)
  | issuing (r : Request)
  | answering (r : Request)
  | testing (f : Frame)
  | locking (f : Frame)
  | processing (f : Frame) (waiting : List Request)
  | reporting (f : Frame) (waiting : List Request)
  | releasing (f : Frame)
  deriving DecidableEq, Repr

/-- An atomic operation of a thread together with the result it observed. -/
inductive Event where
  | haltedForMaintenance (halted : Bool)
  | leave
  | startRunRequest (r : Request)
  | execute (r : Request) (success : Bool)
  | getDelegateRequests (r : Request) (delegates : Bool)
  | reply
  | lock
  | setWaitForExclusiveAccess (value : Bool)
  | pushBack (r : Request)
  | doneRunRequest (r : Request) (zero : Bool)
  | lockList (waiting : List Request)
  | executeWaiting (r : Request) (success : Bool)
  | clear
  | putAnswer (r : Request)
  | returns
  | throws
  deriving DecidableEq, Repr

/-- The position behind the `if` statement that calls `processWaitingRequests`. -/
def Frame.resume : Frame → Position
  | .tail => .idle
  | .issuing r => .issuing r
  | .answering r => .answering r

/-- An exception leaves `processWaitingRequests`. At the end of `runRequest` the
catch blocks find `open` false; in `issueDelegateRequests` they find it true. -/
def Frame.unwind : Frame → Position
  | .tail => .idle
  | .issuing r => .catching r
  | .answering _ => .idle

def control : Position → Event → Option Position
  -- exec_request: the reply 503, or the request context is created
  | .idle, .haltedForMaintenance halted => some (if halted then .idle else .admitted)
  | .admitted, .leave => some .idle
  -- runRequest
  | .admitted, .startRunRequest r => some (.executing r)
  | .executing r, .execute r' success =>
      if r' = r then some (if success then .executed r else .failed r) else none
  | .executing r, .throws => some (.catching r)
  | .executed r, .getDelegateRequests r' delegates =>
      if r' = r then some (if delegates then .issuing r else .replying r) else none
  | .executed r, .throws => some (.catching r)
  | .replying r, .reply => some (.closing r)
  | .replying r, .throws => some (.catching r)
  | .failed r, .reply => some (.closing r)
  | .failed r, .throws => some (.catching r)
  -- pushWaitingRequest
  | .failed r, .lock => some (.flagging r)
  | .flagging r, .setWaitForExclusiveAccess true => some (.pushing r)
  | .pushing r, .pushBack r' => if r' = r then some (.closing r) else none
  | .pushing r, .throws => some (.catching r)
  -- doneRunRequest at the end, in a catch block, in signalTermination
  | .closing r, .doneRunRequest r' zero =>
      if r' = r then some (if zero then .testing .tail else .idle) else none
  | .catching r, .doneRunRequest r' _ => if r' = r then some .idle else none
  | .issuing r, .doneRunRequest r' zero =>
      if r' = r then some (if zero then .testing (.issuing r) else .issuing r) else none
  | .answering r, .doneRunRequest r' zero =>
      if r' = r then some (if zero then .testing (.answering r) else .answering r) else none
  -- issueDelegateRequests called by runRequest
  | .issuing _, .returns => some .idle
  | .issuing r, .throws => some (.catching r)
  -- putAnswer on the event loop
  | .idle, .putAnswer r => some (.answering r)
  | .answering _, .returns => some .idle
  | .answering _, .throws => some .idle
  -- the flag test after doneRunRequest and processWaitingRequests
  | .testing f, .haltedForMaintenance halted => some (if halted then .locking f else f.resume)
  | .locking f, .lockList waiting => some (.processing f waiting)
  | .processing f (r :: waiting), .executeWaiting r' _ =>
      if r' = r then some (.reporting f waiting) else none
  | .processing f (_ :: _), .throws => some f.unwind
  | .reporting f waiting, .reply => some (.processing f waiting)
  | .reporting f _, .throws => some f.unwind
  | .processing f [], .clear => some (.releasing f)
  | .releasing f, .setWaitForExclusiveAccess false => some f.resume
  | _, _ => none

/-- The shared data, the position of every thread, and the history of the run:
which requests were started, stand between `startRunRequest` and
`doneRunRequest`, were delegated, pushed, and executed from the waiting list. -/
structure System (Tid : Type*) where
  closure : ServiceClosure Tid := {}
  position : Tid → Position := fun _ => .idle
  started : Nat := 0
  running : List Request := []
  delegated : List Request := []
  pushed : List Request := []
  executed : List Request := []

variable {Tid : Type*}

def initial (Tid : Type*) : System Tid := {}

def effect [DecidableEq Tid] (s : System Tid) (t : Tid) : Event → Option (System Tid)
  | .haltedForMaintenance halted =>
      if s.closure.haltedForMaintenance = halted then some s else none
  | .startRunRequest r =>
      if r = s.started then
        some { s with
          closure := s.closure.startRunRequest
          started := s.started + 1
          running := s.running ++ [r] }
      else none
  | .getDelegateRequests r delegates =>
      some { s with delegated := if delegates then r :: s.delegated else s.delegated }
  | .lock => (s.closure.lock t).map fun c => { s with closure := c }
  | .setWaitForExclusiveAccess true =>
      some { s with closure := s.closure.setWaitForExclusiveAccess true }
  -- the flag is reset as the last statement before the lock is left
  | .setWaitForExclusiveAccess false =>
      some { s with closure := (s.closure.setWaitForExclusiveAccess false).unlock }
  | .pushBack r =>
      some { s with closure := (s.closure.pushBack r).unlock, pushed := s.pushed ++ [r] }
  | .doneRunRequest r zero =>
      if s.closure.doneRunRequest.2 = zero then
        some { s with closure := s.closure.doneRunRequest.1, running := s.running.erase r }
      else none
  | .lockList waiting =>
      if s.closure.waitingContextList = waiting then
        (s.closure.lock t).map fun c => { s with closure := c }
      else none
  | .executeWaiting r _ => some { s with executed := s.executed ++ [r] }
  | .clear => some { s with closure := s.closure.clear }
  | .putAnswer r => if r ∈ s.delegated then some s else none
  -- unwinding the stack destroys the lock, if this thread holds it
  | .throws =>
      some { s with
        closure := if s.closure.mutexWaitingContextList = some t then s.closure.unlock
          else s.closure }
  | .leave | .execute _ _ | .reply | .returns => some s

def System.goto [DecidableEq Tid] (s : System Tid) (t : Tid) (p : Position) : System Tid :=
  { s with position := Function.update s.position t p }

/-- One atomic step of thread `t`. -/
def step [DecidableEq Tid] (s : System Tid) (a : Tid × Event) : Option (System Tid) :=
  (control (s.position a.1) a.2).bind fun p =>
    (effect s a.1 a.2).map fun s' => s'.goto a.1 p

end StrusWebService.Service
