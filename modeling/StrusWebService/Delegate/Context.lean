import StrusWebService.Library.Throwing
import Mathlib.Logic.Function.Basic

/-! # Delegated requests

`runRequest` and the functions of `WebRequestDelegateContext`, for one request.
The calls they make outside (to the request context, the HTTP context, the
request handler, the logger) are recorded in a trace; their results, and the one
call that throws if any does, are given by an environment. A call of
`issueDelegateRequests` runs its loop while the receivers it has already sent may
be answered, so its local variables are part of the state.
-/

namespace StrusWebService.Delegate

structure DelegateRequest where
  url : Option String
  method : String
  receiverSchema : String
  content : String
  deriving DecidableEq, Repr

/-- A request to another server. -/
def DelegateRequest.remote (url : String) : DelegateRequest :=
  { url := some url, method := "POST", receiverSchema := "", content := "" }

/-- A request without URL, fed to the request context itself. -/
def DelegateRequest.self : DelegateRequest :=
  { url := none, method := "", receiverSchema := "", content := "" }

inductive AppErrorCode where
  | none
  | serviceTemporarilyUnavailable
  | serviceNeedExclusiveAccess
  | notAllowed
  | delegateRequestFailed
  | logicError
  | other (code : Int)
  deriving DecidableEq, Repr

structure WebRequestAnswer where
  ok : Bool := true
  httpStatus : Int := 200
  appErrorCode : AppErrorCode := .none
  errorStr : String := ""
  explanations : List String := []
  deriving DecidableEq, Repr

def WebRequestAnswer.explain (answer : WebRequestAnswer) (msg : String) : WebRequestAnswer :=
  { answer with explanations := msg :: answer.explanations }

/-- What is put into the request context: the answer of another server, or the
content of a delegate request without URL. -/
inductive DelegateAnswer where
  | received (status : WebRequestAnswer)
  | content (charset doctype text : String)
  deriving DecidableEq, Repr

/-- A call of a report function of `RequestContextImpl`. -/
inductive Reply where
  | answer (answer : WebRequestAnswer) (doReplyContent : Bool)
  | error (httpStatus : Int) (appErrorCode : AppErrorCode) (message : String)
  | errorFmt (httpStatus : Int) (appErrorCode : AppErrorCode) (format argument : String)
  | temporalReject
  deriving DecidableEq, Repr

inductive Event where
  | execute (success : Bool)
  | logInfoMessages
  | getDelegateRequests (requests : List DelegateRequest)
  | complete
  | getAnswer (answer : WebRequestAnswer)
  | report (reply : Reply)
  | pushWaitingRequest
  | delegateRequest (url method content : String) (sent : Bool)
  | putDelegateRequestAnswer (schema : String) (answer : DelegateAnswer) (accepted : Bool)
  | completeResponse
  | doneRunRequest
  | processWaitingRequests
  | logConnectionState (state : String) (value : Int)
  deriving DecidableEq, Repr

/-- The places that end a request. -/
inductive Branch where
  /-- `runRequest`, no delegate requests. -/
  | direct
  /-- `runRequest`, the execution failed. -/
  | unsuccessful
  /-- A send is refused. -/
  | refused
  /-- The counter is zero before the last delegate request. -/
  | race
  /-- The answer a request feeds to itself is rejected. -/
  | rejected
  /-- `completeResponse`. -/
  | completed
  /-- `handleFailure`. -/
  | failed
  deriving DecidableEq, Repr

/-- The calls that may throw. -/
inductive Site where
  | execute
  | logInfoMessages
  | getDelegateRequests
  | complete
  | getAnswer (b : Branch)
  | report (b : Branch)
  | pushWaitingRequest
  | releaseContext
  | makeShared
  | contentStr
  | newReceiver
  | delegateRequest
  | putDelegateRequestAnswer
  | completeResponse (b : Branch)
  | processWaitingRequests (b : Branch)
  | logConnectionState (b : Branch)
  deriving DecidableEq, Repr

/-- The results of the calls made in one step. -/
structure Env where
  /-- The call that throws, if it is made. -/
  fault : Option Site := none
  success : Bool := true
  follow : List DelegateRequest := []
  answer : WebRequestAnswer := {}
  sent : Bool := true
  accepted : Bool := true
  /-- `doneRunRequest` returns true and the service is halted for maintenance. -/
  processes : Branch → Bool := fun _ => false
  /-- The logger has `LogConnectionEvents` in its mask. -/
  logs : Bool := false

inductive Caller where
  | runRequest
  | putAnswer
  deriving DecidableEq, Repr

/-- The local variables of one call of `issueDelegateRequests`, and the counter
it shares with its receivers. `rest` is what the iterators still have before them. -/
structure Issue where
  counter : Int := 0
  size : Nat := 0
  requestCount : Int := 0
  rest : List DelegateRequest := []
  didx : Nat := 0
  caller : Caller := .putAnswer
  /-- The iterators point into `followDelegateRequests`. -/
  following : Bool := false
  /-- `followDelegateRequests` was assigned while the iterators pointed into it. -/
  dangling : Bool := false

/-- A `WebRequestDelegateContext` the request handler holds. -/
structure Receiver where
  issue : Nat
  requestCount : Int
  url : String
  schema : String
  deriving DecidableEq, Repr

structure State where
  issues : Nat → Issue := fun _ => {}
  issued : Nat := 0
  outstanding : List Receiver := []
  /-- How often `startRunRequest` was called. -/
  started : Nat := 0
  /-- The variable `open` of `runRequest`. -/
  isOpen : Bool := true
  trace : List Event := []

namespace State

def append (s : State) (events : List Event) : State :=
  { s with trace := s.trace ++ events }

def modifyIssue (s : State) (i : Nat) (f : Issue → Issue) : State :=
  { s with issues := Function.update s.issues i (f (s.issues i)) }

def await (s : State) (r : Receiver) : State :=
  { s with outstanding := s.outstanding ++ [r] }

def start (s : State) : State := { s with started := s.started + 1 }

/-- `open = false`. -/
def close (s : State) : State := { s with isOpen := false }

/-- A new call of `issueDelegateRequests`. -/
def issue (s : State) (caller : Caller) (requests : List DelegateRequest) : State :=
  { s with
    issues := Function.update s.issues s.issued
      { counter := requests.length
        size := requests.length
        requestCount := requests.length
        rest := requests
        caller := caller }
    issued := s.issued + 1 }

end State

namespace Issue

def setCounter (c : Issue) (value : Int) : Issue := { c with counter := value }

/-- `++di, ++didx`. -/
def advance (c : Issue) : Issue := { c with rest := c.rest.tail, didx := c.didx + 1 }

/-- The loop is left. -/
def leave (c : Issue) : Issue := { c with rest := [] }

/-- The assignments before `goto AGAIN`. -/
def again (c : Issue) (follow : List DelegateRequest) : Issue :=
  { c with
    rest := follow
    didx := 0
    requestCount := c.size
    counter := c.size
    following := true }

/-- An empty vector is assigned to `followDelegateRequests`. -/
def clearFollow (c : Issue) : Issue := { c with dangling := c.following }

end Issue

/-- Code that may throw. -/
abbrev Code := EStateM Site State

variable (env : Env)

def mayThrow (site : Site) : Code Unit :=
  if env.fault = some site then throw site else pure ()

def emit (e : Event) : Code Unit := modify fun s => s.append [e]

def call (site : Site) (e : Event) : Code Unit := do
  mayThrow env site
  emit e

def signalTermination (b : Branch) : Code Unit := do
  emit .doneRunRequest
  if env.processes b then
    call env (.processWaitingRequests b) .processWaitingRequests

def logConnectionState (b : Branch) (state : String) (value : Int) : Code Unit := do
  if env.logs then
    call env (.logConnectionState b) (.logConnectionState state value)

def completeResponse (requestCount : Int) : Code Unit := do
  call env .complete .complete
  call env (.getAnswer .completed) (.getAnswer env.answer)
  call env (.report .completed) (.report (.answer env.answer true))
  call env (.completeResponse .completed) .completeResponse
  signalTermination env .completed
  logConnectionState env .completed "completed delegate requests" requestCount

/-- `issueDelegateRequests` up to its loop. -/
def issueDelegateRequests (caller : Caller) (requests : List DelegateRequest) : Code Unit := do
  mayThrow env .makeShared
  modify fun s => s.issue caller requests

/-- A send was refused. -/
def reportRefused (url : String) : Code Unit := do
  call env (.report .refused)
    (.report (.errorFmt 500 .delegateRequestFailed "delegate request send to %s failed" url))
  call env (.completeResponse .refused) .completeResponse
  signalTermination env .refused
  logConnectionState env .refused "failed to send delegate request" 500

/-- The loop body for a request with URL. -/
def sendDelegateRequest (i : Nat) (di : DelegateRequest) (url : String) : Code Unit := do
  mayThrow env .newReceiver
  let counter := ((← get).issues i).counter
  call env .delegateRequest (.delegateRequest url di.method di.content env.sent)
  if env.sent then
    modify fun s => s.await
      { issue := i, requestCount := counter, url := url, schema := di.receiverSchema }
    modify fun s => s.modifyIssue i .advance
  else
    modify fun s => s.modifyIssue i (·.setCounter 0)
    reportRefused env url
    modify fun s => s.modifyIssue i .leave

/-- The counter is zero although this is not the last request of the list. -/
def raceError : Code Unit := do
  call env (.report .race)
    (.report (.error 500 .logicError "race: bad counter value for delegate requests"))
  call env (.completeResponse .race) .completeResponse
  signalTermination env .race

/-- The answer a request feeds to itself was rejected; before the counter is zeroed. -/
def reportRejected : Code Unit := do
  call env (.getAnswer .rejected) (.getAnswer env.answer)
  call env (.report .rejected)
    (.report (.error env.answer.httpStatus env.answer.appErrorCode env.answer.errorStr))

/-- And after. -/
def completeRejected : Code Unit := do
  call env (.completeResponse .rejected) .completeResponse
  signalTermination env .rejected

/-- The loop body for a request without URL. -/
def feedDelegateRequest (i : Nat) (di : DelegateRequest) : Code Unit := do
  call env .putDelegateRequestAnswer (.putDelegateRequestAnswer di.receiverSchema
    (.content "utf-8" "application/json" di.content) env.accepted)
  if env.accepted then
    modify fun s => s.modifyIssue i fun c => c.setCounter (c.counter - 1)
    let c := (← get).issues i
    if c.counter = 0 then
      if c.didx + 1 ≠ c.size then
        raceError env
      call env .getDelegateRequests (.getDelegateRequests env.follow)
      if env.follow = [] then
        completeResponse env c.requestCount
        modify fun s => s.modifyIssue i fun c => c.clearFollow.advance
      else
        modify fun s => s.modifyIssue i (·.again env.follow)
    else
      modify fun s => s.modifyIssue i .advance
  else
    reportRejected env
    modify fun s => s.modifyIssue i (·.setCounter 0)
    completeRejected env
    modify fun s => s.modifyIssue i .leave

/-- One iteration of the loop of call `i`. -/
def issueNext (i : Nat) : Code Unit := do
  match ((← get).issues i).rest with
  | [] => pure ()
  | di :: _ =>
      mayThrow env .contentStr
      match di.url with
      | some url => sendDelegateRequest env i di url
      | none => feedDelegateRequest env i di

def handleSuccess (r : Receiver) : Code Unit := do
  call env .getDelegateRequests (.getDelegateRequests env.follow)
  if env.follow = [] then
    completeResponse env r.requestCount
  else
    issueDelegateRequests env .putAnswer env.follow

def failedMessage (url : String) : String := "delegate request to " ++ url ++ " failed"

def reportFailure (answer : WebRequestAnswer) : Code Unit := do
  call env (.report .failed) (.report (.answer answer true))
  call env (.completeResponse .failed) .completeResponse
  signalTermination env .failed
  logConnectionState env .failed "failed delegate request" answer.httpStatus

def handleFailure (r : Receiver) (status : WebRequestAnswer) : Code Unit := do
  reportFailure env (status.explain (failedMessage r.url))
  modify fun s => s.modifyIssue r.issue (·.setCounter 0)

/-- The condition of `putAnswer` on the status. -/
def WebRequestAnswer.successful (status : WebRequestAnswer) : Bool :=
  status.ok && 200 ≤ status.httpStatus && status.httpStatus < 300

def putAnswer (r : Receiver) (status : WebRequestAnswer) : Code Unit := do
  if ((← get).issues r.issue).counter ≤ 0 then
    pure ()
  else if status.successful then
    call env .putDelegateRequestAnswer
      (.putDelegateRequestAnswer r.schema (.received status) env.accepted)
    if env.accepted then
      modify fun s => s.modifyIssue r.issue fun c => c.setCounter (c.counter - 1)
      if ((← get).issues r.issue).counter = 0 then
        handleSuccess env r
    else
      call env (.getAnswer .failed) (.getAnswer env.answer)
      handleFailure env r env.answer
  else
    call env .putDelegateRequestAnswer
      (.putDelegateRequestAnswer r.schema (.received status) env.accepted)
    handleFailure env r status

/-- The reply of `runRequest` to a request that is not delegated. -/
def replyDirect (doReplyContent : Bool) : Code Unit := do
  call env .complete .complete
  call env (.getAnswer .direct) (.getAnswer env.answer)
  call env (.report .direct) (.report (.answer env.answer doReplyContent))

/-- The reply of `runRequest` to a request whose execution failed. -/
def replyUnsuccessful (doReplyContent : Bool) : Code Unit := do
  call env (.getAnswer .unsuccessful) (.getAnswer env.answer)
  if env.answer.httpStatus = 503
      ∧ env.answer.appErrorCode = .serviceTemporarilyUnavailable then
    call env (.report .unsuccessful) (.report .temporalReject)
  else if env.answer.httpStatus = 503
      ∧ env.answer.appErrorCode = .serviceNeedExclusiveAccess then
    if doReplyContent then
      mayThrow env .releaseContext
      call env .pushWaitingRequest .pushWaitingRequest
    else
      call env (.report .unsuccessful) (.report (.error 405 .notAllowed
        "method HEAD cannot be executed for a resource needing exclusive access"))
  else
    call env (.report .unsuccessful)
      (.report (.error env.answer.httpStatus env.answer.appErrorCode env.answer.errorStr))

/-- The `try` block of `runRequest`, up to the loop of `issueDelegateRequests`. -/
def runRequestBody (doReplyContent : Bool) : Code Unit := do
  call env .execute (.execute env.success)
  if env.success then
    call env .logInfoMessages .logInfoMessages
    call env .getDelegateRequests (.getDelegateRequests env.follow)
    if env.follow = [] then
      replyDirect env doReplyContent
      modify .close
      signalTermination env .direct
    else
      mayThrow env .releaseContext
      issueDelegateRequests env .runRequest env.follow
  else
    replyUnsuccessful env doReplyContent
    modify .close
    signalTermination env .unsuccessful

/-- The catch blocks of `runRequest`. -/
def catchBlock (site : Site) : Code Unit := do
  if (← get).isOpen then
    emit .doneRunRequest
  throw site

def runRequest (doReplyContent : Bool) : Code Unit := do
  modify .start
  tryCatch (runRequestBody env doReplyContent) catchBlock

/-- The loop of call `i` runs on; an exception leaves it, and reaches the catch
blocks of `runRequest` if the call was made there. -/
def issueLoop (i : Nat) : Code Unit :=
  tryCatch (issueNext env i) fun site => do
    modify fun s => s.modifyIssue i .leave
    if ((← get).issues i).caller = .runRequest then
      catchBlock site
    else
      throw site

end StrusWebService.Delegate
