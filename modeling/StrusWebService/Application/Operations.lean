import StrusWebService.Application.Response
import StrusWebService.Library.CString

/-! # The operations of a reply

The report functions of `RequestContextImpl` as the sequence of the operations they perform
on the response. An error in the content header is reported where the header is written,
and the functions around it go on.
-/

namespace StrusWebService.Application

open CString
open Text (str)

inductive ReplyOp where
  | status (httpstatus : Int)
  | logError (httpstatus apperrorcode : Int) (message : Option String)
  | write (bytes : Bytes)
  | contentLength (length : Nat)
  | setContentHeader (contentHeader : Bytes)
  | eraseHeader (name : String)
  | setHeader (name value : String)
  | finalize
  deriving DecidableEq

/-- The bytes the operations write to the body. -/
def written (ops : List ReplyOp) : Bytes :=
  ops.flatMap fun
    | .write bytes => bytes
    | _ => []

section Reports

variable (statusToString : Int → String)

def reportErrorOps (httpstatus apperrorcode : Int) (message : Option String) : List ReplyOp :=
  [.status httpstatus, .logError httpstatus apperrorcode message,
    .write (str (message.getD (statusToString httpstatus)) ++ [10]), .finalize]

/-- The buffer for the header has 256 bytes. -/
def responseContentHeaderOps (charset doctype : String) (blobsize : Nat) : List ReplyOp :=
  let contentHeader := str (doctype ++ "; charset=" ++ charset)
  if 255 ≤ printed contentHeader then
    reportErrorOps statusToString 500 (-1) (some "bad content header")
  else [.contentLength blobsize, .setContentHeader (contentHeader.take 255)]

def responseContentOps (content : WebRequestContent) (withContent : Bool) : List ReplyOp :=
  if withContent && !content.str.isEmpty then
    responseContentHeaderOps statusToString content.charset content.doctype
      (content.str.length + 1) ++ [.write content.str, .write [10]]
  else []

def responseMessageOps (messagetype messagestr : String) : List ReplyOp :=
  [.eraseHeader messagetype, .setHeader messagetype messagestr]

def reportAnswerOps (answer : WebRequestAnswer) (withContent : Bool) : List ReplyOp :=
  (if answer.errorStr.isSome || answer.appErrorCode != 0 then
    reportErrorOps statusToString answer.httpStatus answer.appErrorCode answer.errorStr
  else
    match answer.messageType, answer.messageStr with
    | some messagetype, some messagestr =>
        .status answer.httpStatus :: responseMessageOps messagetype messagestr
    | _, _ =>
        .status answer.httpStatus :: responseContentOps statusToString answer.content withContent) ++
    [.finalize]

end Reports

/-- Nothing is written behind an end of the reply. -/
def Quiet (ops : List ReplyOp) : Prop :=
  ∀ before after, ops = before ++ .finalize :: after → written after = []

/-- A reply is a content or an error: nothing is written behind its end, what is written is as
long as announced, and with an error it is the message of the error alone. -/
structure NeverMixes (statusToString : Int → String) (ops : List ReplyOp) : Prop where
  quiet : Quiet ops
  announced : ∀ length, .contentLength length ∈ ops → (written ops).length = length
  error : ∀ httpstatus apperrorcode message, .logError httpstatus apperrorcode message ∈ ops →
    written ops = str (message.getD (statusToString httpstatus)) ++ [10]

/-- The content of an answer without an error or a message is to be sent, and its header does
not fit into the buffer. -/
def BadContentHeader (answer : WebRequestAnswer) (withContent : Bool) : Prop :=
  withContent = true ∧ answer.content.str ≠ [] ∧ answer.errorStr = none ∧
    answer.appErrorCode = 0 ∧ (answer.messageType = none ∨ answer.messageStr = none) ∧
    255 ≤ (str (answer.content.doctype ++ "; charset=" ++ answer.content.charset)).length ∧
    (str (answer.content.doctype ++ "; charset=" ++ answer.content.charset)).length ≤ intMax

section Written

@[simp] theorem written_nil : written [] = [] := rfl

@[simp] theorem written_write (bytes : Bytes) (ops : List ReplyOp) :
    written (.write bytes :: ops) = bytes ++ written ops := rfl

@[simp] theorem written_cons_of_ne {op : ReplyOp} (h : ∀ bytes, op ≠ .write bytes)
    (ops : List ReplyOp) : written (op :: ops) = written ops := by
  cases op with
  | write bytes => exact absurd rfl (h bytes)
  | _ => rfl

theorem quiet_nil : Quiet [] := by
  intro before after h
  cases before with
  | nil => cases h
  | cons op before => cases h

@[simp] theorem quiet_cons {op : ReplyOp} {ops : List ReplyOp} :
    Quiet (op :: ops) ↔ (op = .finalize → written ops = []) ∧ Quiet ops := by
  constructor
  · intro h
    constructor
    · rintro rfl
      exact h [] ops rfl
    · intro before after hsplit
      exact h (op :: before) after (by rw [hsplit, List.cons_append])
  · intro h before after hsplit
    cases before with
    | nil =>
        obtain ⟨rfl, rfl⟩ := List.cons.inj hsplit
        exact h.1 rfl
    | cons first before =>
        obtain ⟨rfl, rfl⟩ := List.cons.inj hsplit
        exact h.2 before after rfl

end Written

section Mixing

variable {statusToString : Int → String} {answer : WebRequestAnswer} {withContent : Bool}

theorem neverMixes_error (httpstatus apperrorcode : Int) (message : Option String) :
    NeverMixes statusToString
      (reportErrorOps statusToString httpstatus apperrorcode message ++ [.finalize]) := by
  constructor
  · simp [reportErrorOps, quiet_nil]
  · simp [reportErrorOps]
  · intro httpstatus' apperrorcode' message' h
    have heq : httpstatus' = httpstatus ∧ apperrorcode' = apperrorcode ∧ message' = message := by
      simpa [reportErrorOps] using h
    rcases heq with ⟨rfl, rfl, rfl⟩
    simp [reportErrorOps]

theorem neverMixes_message (httpstatus : Int) (messagetype messagestr : String) :
    NeverMixes statusToString
      (.status httpstatus :: responseMessageOps messagetype messagestr ++ [.finalize]) := by
  constructor
  · simp [responseMessageOps, quiet_nil]
  · simp [responseMessageOps]
  · simp [responseMessageOps]

theorem neverMixes_no_content (httpstatus : Int) :
    NeverMixes statusToString [.status httpstatus, .finalize] := by
  constructor
  · simp [quiet_nil]
  · simp
  · simp

theorem neverMixes_content (httpstatus : Int) (header blob : Bytes) :
    NeverMixes statusToString [.status httpstatus, .contentLength (blob.length + 1),
      .setContentHeader header, .write blob, .write [10], .finalize] := by
  constructor
  · simp [quiet_nil]
  · simp
  · simp

/-- The content behind an error in its header. -/
theorem not_quiet_content (httpstatus : Int) (blob : Bytes) :
    ¬Quiet (.status httpstatus :: (reportErrorOps statusToString 500 (-1)
      (some "bad content header") ++ [.write blob, .write [10]]) ++ [.finalize]) := by
  intro hquiet
  have hafter := hquiet (.status httpstatus :: (reportErrorOps statusToString 500 (-1)
    (some "bad content header")).take 3) [.write blob, .write [10], .finalize] rfl
  simp at hafter

/-- The two ways the header of a content goes. -/
theorem responseContentHeaderOps_eq (charset doctype : String) (blobsize : Nat) :
    responseContentHeaderOps statusToString charset doctype blobsize =
      if 255 ≤ (str (doctype ++ "; charset=" ++ charset)).length ∧
          (str (doctype ++ "; charset=" ++ charset)).length ≤ intMax then
        reportErrorOps statusToString 500 (-1) (some "bad content header")
      else
        [.contentLength blobsize,
          .setContentHeader ((str (doctype ++ "; charset=" ++ charset)).take 255)] := by
  unfold responseContentHeaderOps
  dsimp only
  generalize str (doctype ++ "; charset=" ++ charset) = header
  by_cases hmax : header.length ≤ intMax
  · have hcast : (255 : Int) ≤ header.length ↔ 255 ≤ header.length := by omega
    simp only [printed_of_le hmax, hmax, and_true, hcast]
  · rw [printed_of_lt (Nat.lt_of_not_le hmax), if_neg (by decide), if_neg (fun h => hmax h.2)]

/-- Of a status and a content only a header that does not fit makes a mix. -/
theorem neverMixes_responseContentOps (httpstatus : Int) (content : WebRequestContent)
    (withContent : Bool) :
    NeverMixes statusToString
        (.status httpstatus :: responseContentOps statusToString content withContent ++
          [.finalize]) ↔
      ¬(withContent = true ∧ content.str ≠ [] ∧
        255 ≤ (str (content.doctype ++ "; charset=" ++ content.charset)).length ∧
        (str (content.doctype ++ "; charset=" ++ content.charset)).length ≤ intMax) := by
  unfold responseContentOps
  by_cases hsend : (withContent && !content.str.isEmpty) = true
  · have hcontent : withContent = true ∧ content.str ≠ [] := by simpa using hsend
    rw [if_pos hsend, responseContentHeaderOps_eq]
    split
    · rename_i hheader
      apply iff_of_false
      · intro h
        exact not_quiet_content httpstatus content.str h.quiet
      · exact fun hno => hno ⟨hcontent.1, hcontent.2, hheader⟩
    · rename_i hheader
      apply iff_of_true (neverMixes_content _ _ _)
      intro hbad
      exact hheader hbad.2.2
  · rw [if_neg hsend]
    apply iff_of_true (neverMixes_no_content _)
    intro hbad
    exact hsend (by simp [hbad.1, hbad.2.1])

/-- A reply is never mixed but for one kind of answer: with a content that is to be sent and
a header that does not fit. -/
theorem neverMixes_iff (statusToString : Int → String) (answer : WebRequestAnswer)
    (withContent : Bool) :
    NeverMixes statusToString (reportAnswerOps statusToString answer withContent) ↔
      ¬BadContentHeader answer withContent := by
  unfold reportAnswerOps
  by_cases herror : (answer.errorStr.isSome || answer.appErrorCode != 0) = true
  · rw [if_pos herror]
    apply iff_of_true (neverMixes_error _ _ _)
    intro hbad
    rcases hbad with ⟨-, -, hstr, hcode, -⟩
    simp [hstr, hcode] at herror
  · rw [if_neg herror]
    have hnoError : answer.errorStr = none ∧ answer.appErrorCode = 0 := by simpa using herror
    split
    · rename_i messagetype messagestr htype hstr
      apply iff_of_true (neverMixes_message _ _ _)
      intro hbad
      rcases hbad with ⟨-, -, -, -, hmessage, -⟩
      simp [htype, hstr] at hmessage
    · rename_i hnoMessage
      have hmissing : answer.messageType = none ∨ answer.messageStr = none := by
        by_contra hboth
        obtain ⟨htype, hstr⟩ := not_or.mp hboth
        obtain ⟨messagetype, htype⟩ := Option.ne_none_iff_exists'.mp htype
        obtain ⟨messagestr, hstr⟩ := Option.ne_none_iff_exists'.mp hstr
        exact hnoMessage messagetype messagestr htype hstr
      rw [neverMixes_responseContentOps, BadContentHeader, and_iff_right hnoError.1,
        and_iff_right hnoError.2, and_iff_right hmissing]

/-- A content of one byte, of a type the name of which fills the buffer. -/
def longType : WebRequestAnswer :=
  { content :=
      { charset := "UTF-8", doctype := String.ofList (List.replicate 250 'a'), str := [120] } }

/-- The content follows the error, and the end of the reply. -/
theorem neverMixes_longType_not :
    reportAnswerOps (fun _ => "") longType true =
        .status 200 :: (reportErrorOps (fun _ => "") 500 (-1) (some "bad content header") ++
          [.write [120], .write [10]]) ++ [.finalize] ∧
      ¬NeverMixes (fun _ => "") (reportAnswerOps (fun _ => "") longType true) := by
  have hlength : 255 ≤ (str (longType.content.doctype ++ "; charset=" ++
      longType.content.charset)).length ∧
      (str (longType.content.doctype ++ "; charset=" ++ longType.content.charset)).length ≤
        intMax := by decide +kernel
  have hops : reportAnswerOps (fun _ => "") longType true =
      .status 200 :: (reportErrorOps (fun _ => "") 500 (-1) (some "bad content header") ++
        [.write [120], .write [10]]) ++ [.finalize] := by
    show .status 200 :: (responseContentHeaderOps (fun _ => "") longType.content.charset
      longType.content.doctype 2 ++ [.write [120], .write [10]]) ++ [.finalize] = _
    rw [responseContentHeaderOps_eq, if_pos hlength]
  refine ⟨hops, ?_⟩
  intro h
  rw [hops] at h
  exact not_quiet_content 200 [120] h.quiet

end Mixing

section Performing

/-- What an operation does to the response. -/
def ReplyOp.perform (r : Response) : ReplyOp → Response
  | .status httpstatus => r.setStatus httpstatus
  | .logError _ _ _ => r
  | .write bytes => r.write bytes
  | .contentLength length => r.contentLength length
  | .setContentHeader contentHeader => r.setContentHeader contentHeader
  | .eraseHeader name => r.eraseHeader name
  | .setHeader name value => r.setHeader name value
  | .finalize => r.finalize

variable {statusToString : Int → String} {r : Response}

theorem perform_responseContentHeaderOps (charset doctype : String) (blobsize : Nat) :
    (responseContentHeaderOps statusToString charset doctype blobsize).foldl ReplyOp.perform r =
      r.responseContentHeader statusToString charset doctype blobsize := by
  unfold responseContentHeaderOps Response.responseContentHeader
  dsimp only
  split
  · rfl
  · rfl

theorem perform_responseContentOps (content : WebRequestContent) (withContent : Bool) :
    (responseContentOps statusToString content withContent).foldl ReplyOp.perform r =
      r.responseContent statusToString content withContent := by
  unfold responseContentOps Response.responseContent
  split
  · rw [List.foldl_append, perform_responseContentHeaderOps]
    rfl
  · rfl

/-- Performed one after the other the operations answer as `reportAnswer` does. -/
theorem perform_reportAnswerOps (answer : WebRequestAnswer) (withContent : Bool) :
    (reportAnswerOps statusToString answer withContent).foldl ReplyOp.perform r =
      r.reportAnswer statusToString answer withContent := by
  have hcontent : (ReplyOp.status answer.httpStatus :: responseContentOps statusToString
      answer.content withContent ++ [ReplyOp.finalize]).foldl ReplyOp.perform r =
      ((r.setStatus answer.httpStatus).responseContent statusToString answer.content
        withContent).finalize := by
    rw [List.foldl_concat, List.foldl_cons, perform_responseContentOps]
    rfl
  unfold reportAnswerOps Response.reportAnswer
  split
  · cases answer.errorStr with
    | none => rfl
    | some message => rfl
  · cases answer.messageType with
    | none => exact hcontent
    | some messagetype =>
        cases answer.messageStr with
        | none => exact hcontent
        | some messagestr => rfl

end Performing

end StrusWebService.Application
