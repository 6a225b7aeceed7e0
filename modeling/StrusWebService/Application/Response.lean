import StrusWebService.Library.Json.Parser
import StrusWebService.Library.CString

/-! # Responses

The report functions of `RequestContextImpl`, as updates of the response. Text
that is written is a sequence of bytes. The calls that change the headers are kept
in their order; what value they give a header is up to the framework.
-/

namespace StrusWebService.Application

open Text (str)

structure WebRequestContent where
  charset : String := ""
  doctype : String := ""
  str : Bytes := []
  deriving DecidableEq

structure WebRequestAnswer where
  httpStatus : Int := 200
  appErrorCode : Int := 0
  errorStr : Option String := none
  messageType : Option String := none
  messageStr : Option String := none
  content : WebRequestContent := {}
  deriving DecidableEq

/-- A call that changes the headers of the response. -/
inductive HeaderCall where
  | contentLength (length : Nat)
  | setContentHeader (contentHeader : Bytes)
  | contentType (type : String)
  | setHeader (name value : String)
  | eraseHeader (name : String)
  deriving DecidableEq

/-- The header a call is about. -/
def HeaderCall.header : HeaderCall → String
  | .contentLength _ => "Content-Length"
  | .setContentHeader _ | .contentType _ => "Content-Type"
  | .setHeader name _ | .eraseHeader name => name

/-- Header names do not distinguish upper and lower case. -/
def sameHeader (name name' : String) : Bool :=
  name.toList.map Char.toLower == name'.toList.map Char.toLower

/-- What the framework makes of the calls: the value of each header of the response. A call
changes no header but its own, and a response starts with no origin allowed. -/
structure HeaderLaws (value : List HeaderCall → String → Option String) : Prop where
  frame : ∀ {calls call name}, sameHeader call.header name = false →
    value (calls ++ [call]) name = value calls name
  setHeader : ∀ {calls name text}, value (calls ++ [.setHeader name text]) name = some text
  start : value [] "Access-Control-Allow-Origin" = none

structure Response where
  status : Int := 200
  headers : List HeaderCall := []
  out : Bytes := []
  finalized : Bool := false
  deriving DecidableEq

namespace Response

variable (r : Response)

def callHeader (call : HeaderCall) : Response := { r with headers := r.headers ++ [call] }

def contentLength (length : Nat) : Response := r.callHeader (.contentLength length)

def setContentHeader (contentHeader : Bytes) : Response :=
  r.callHeader (.setContentHeader contentHeader)

def contentType (type : String) : Response := r.callHeader (.contentType type)

def setHeader (name value : String) : Response := r.callHeader (.setHeader name value)

def eraseHeader (name : String) : Response := r.callHeader (.eraseHeader name)

def write (bytes : Bytes) : Response := { r with out := r.out ++ bytes }

def setStatus (httpstatus : Int) : Response := { r with status := httpstatus }

def finalize : Response := { r with finalized := true }

section Reports

variable (statusToString : Int → String)

def reportError (httpstatus : Int) (message : Option Bytes) : Response :=
  (((r.setStatus httpstatus).write
    ((message.getD (str (statusToString httpstatus))) ++ [10])).finalize)

/-- The message is cut to the size of the buffer. -/
def reportErrorFmt (httpstatus : Int) (message : String) : Response :=
  r.reportError statusToString httpstatus (some ((str message).take 1023))

/-- The content header has to be printed to less than 255 bytes; the length of one that is too
long for an `int` is negative, and the buffer of 256 bytes cuts it. -/
def responseContentHeader (charset doctype : String) (blobsize : Nat) : Response :=
  let contentHeader := str (doctype ++ "; charset=" ++ charset)
  if 255 ≤ CString.printed contentHeader then
    r.reportError statusToString 500 (some (str "bad content header"))
  else
    (r.contentLength blobsize).setContentHeader (contentHeader.take 255)

def responseContent (content : WebRequestContent) (withContent : Bool) : Response :=
  if withContent && !content.str.isEmpty then
    ((r.responseContentHeader statusToString content.charset content.doctype
      (content.str.length + 1)).write content.str).write [10]
  else r

def responseMessage (messagetype messagestr : String) : Response :=
  (r.eraseHeader messagetype).setHeader messagetype messagestr

def reportAnswer (answer : WebRequestAnswer) (withContent : Bool) : Response :=
  if answer.errorStr.isSome || answer.appErrorCode != 0 then
    (r.reportError statusToString answer.httpStatus (answer.errorStr.map str)).finalize
  else
    match answer.messageType, answer.messageStr with
    | some messagetype, some messagestr =>
        ((r.setStatus answer.httpStatus).responseMessage messagetype messagestr).finalize
    | _, _ =>
        ((r.setStatus answer.httpStatus).responseContent statusToString answer.content
          withContent).finalize

/-- The message is the reason phrase of the status line. -/
def reportOk (httpstatus : Int) : Response := (r.setStatus httpstatus).finalize

def reportTemporalReject : Response := r.reportError statusToString 503 none

end Reports

/-! ## What happens to a header -/

section Header

variable {r : Response} {name name' value : String} {statusToString : Int → String}
  {headerValue : List HeaderCall → String → Option String}

/-- A header no report function sets by itself. -/
def IsExtra (name : String) : Prop :=
  sameHeader "Content-Length" name = false ∧ sameHeader "Content-Type" name = false

theorem header_setHeader (laws : HeaderLaws headerValue) (h : sameHeader name' name = false) :
    headerValue (r.setHeader name' value).headers name = headerValue r.headers name :=
  laws.frame h

theorem header_responseContent (laws : HeaderLaws headerValue) (hextra : IsExtra name)
    (content : WebRequestContent) (withContent : Bool) :
    headerValue (r.responseContent statusToString content withContent).headers name =
      headerValue r.headers name := by
  unfold responseContent
  split
  · show headerValue (r.responseContentHeader statusToString content.charset content.doctype
      (content.str.length + 1)).headers name = _
    unfold responseContentHeader
    dsimp only
    split
    · rfl
    · calc headerValue ((r.contentLength _).setContentHeader _).headers name
          = headerValue (r.contentLength _).headers name := laws.frame hextra.2
        _ = headerValue r.headers name := laws.frame hextra.1
  · rfl

theorem header_responseMessage (laws : HeaderLaws headerValue)
    (h : sameHeader name' name = false) :
    headerValue (r.responseMessage name' value).headers name = headerValue r.headers name := by
  calc headerValue (r.responseMessage name' value).headers name
      = headerValue (r.eraseHeader name').headers name := header_setHeader laws h
    _ = headerValue r.headers name := laws.frame h

/-- An answer sets no header but these and the one its message names. -/
theorem header_reportAnswer (laws : HeaderLaws headerValue) (hextra : IsExtra name)
    (answer : WebRequestAnswer)
    (hmessage : ∀ messagetype ∈ answer.messageType, sameHeader messagetype name = false)
    (withContent : Bool) :
    headerValue (r.reportAnswer statusToString answer withContent).headers name =
      headerValue r.headers name := by
  unfold reportAnswer
  split
  · rfl
  · cases htype : answer.messageType with
    | none =>
        exact header_responseContent (r := r.setStatus answer.httpStatus) laws hextra _ _
    | some messagetype =>
        cases answer.messageStr with
        | none =>
            exact header_responseContent (r := r.setStatus answer.httpStatus) laws hextra _ _
        | some messagestr =>
            exact header_responseMessage (r := r.setStatus answer.httpStatus) laws
              (hmessage messagetype htype)

end Header

end Response

end StrusWebService.Application
