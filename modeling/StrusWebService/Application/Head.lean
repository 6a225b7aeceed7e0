import StrusWebService.Application.Cors
import StrusWebService.Delegate.System

/-! # HEAD and GET

A HEAD request is executed as the GET request, with the content left out of the reply. The
handler decides on the content in a flag that it hands to `runRequest`; what is replied later, to
a request with delegate requests, is decided without the flag. Here `runRequest` of the handler is
the one of the delegated request, and the steps behind it go on with the response it leaves.
-/

namespace StrusWebService.Application

open Throwing StepSystem
open Text (str)

/-- A format with `%s`. -/
def formatted (argument : String) : List Char → List Char
  | '%' :: 's' :: format => argument.toList ++ format
  | c :: format => c :: formatted argument format
  | [] => []

def replies (trace : List Delegate.Event) : List Delegate.Reply :=
  trace.filterMap fun
    | .report reply => some reply
    | _ => none

/-- What a request context does: the results of the calls `runRequest` makes with a content, and
the steps behind it. -/
structure Behaviour where
  first : WebRequestContent → Delegate.Env
  later : List Delegate.Action
  /-- The exception thrown by a call. -/
  thrown : Delegate.Site → Thrown
  /-- What the report functions read of an answer. -/
  read : Delegate.WebRequestAnswer → WebRequestAnswer

namespace Behaviour

variable (b : Behaviour)

/-- An answer without an error has no message to report. -/
def report : Delegate.Reply → Report
  | .answer answer doReplyContent => .answer (b.read answer) doReplyContent
  | .error httpstatus _ message => .error httpstatus (if message = "" then none else some message)
  | .errorFmt httpstatus _ format argument =>
      .errorFmt httpstatus (String.ofList (formatted argument format.toList))
  | .temporalReject => .temporalReject

def reports (trace : List Delegate.Event) : List Report := (replies trace).map b.report

def runRequest (content : WebRequestContent) (doReplyContent : Bool) :
    List Report × Option Thrown :=
  match Delegate.runRequest (b.first content) doReplyContent {} with
  | .ok _ s => (b.reports s.trace, none)
  | .error site s => (b.reports s.trace, some (b.thrown site))

/-- The delegated request that `runRequest` leaves, with a new trace. -/
def delegated (content : WebRequestContent) (doReplyContent : Bool) : Delegate.State :=
  { finalState (Delegate.runRequest (b.first content) doReplyContent) {} with trace := [] }

end Behaviour

/-- The call of `runRequest`, if there was one. -/
def executed (operations : List Operation) : Option (WebRequestContent × Bool) :=
  operations.findSome? fun
    | .runRequest content doReplyContent => some (content, doReplyContent)
    | _ => none

/-- What came of an executed request. -/
structure Outcome where
  response : Response
  replies : List Delegate.Reply
  thrown : Option Thrown
  deriving DecidableEq

section Serving

variable (closure : ServiceClosure) (env : Environment) (b : Behaviour) (request : HttpRequest)
  (path : String)

/-- The response of `exec_request`, changed by the reports of the steps behind it; `none` if the
request is not executed, or a step is not possible. -/
def outcome : Option Outcome :=
  let x := finalState (execRequest closure { env with runRequest := b.runRequest } request path) {}
  (executed x.operations).bind fun (content, doReplyContent) =>
    (run Delegate.step (b.delegated content doReplyContent) b.later).map fun t =>
      { response := (b.reports t.trace).foldl (Report.apply env.statusToString) x.response
        replies := replies (finalState (Delegate.runRequest (b.first content) doReplyContent)
          {}).trace ++ replies t.trace
        thrown := (b.runRequest content doReplyContent).2 }

def HttpRequest.withMethod (method : String) : HttpRequest :=
  { request with requestMethod := method }

/-- The content a request is executed with. -/
def requestContent : Option WebRequestContent :=
  if request.rawPostData = [] then
    if request.get = [] then some {}
    else
      (Form.formToJson Form.jsonValueEncode request.get).map fun contentstr =>
        { charset := "UTF-8", doctype := "application/json", str := contentstr }
  else if request.get ≠ [] then none
  else
    some
      { charset := if request.charset = "" then "UTF-8" else request.charset
        doctype := request.mediaType
        str := request.rawPostData }

end Serving

/-- The answer carries a content and no message. -/
def WebRequestAnswer.Sends (answer : WebRequestAnswer) : Prop :=
  (answer.messageType = none ∨ answer.messageStr = none) ∧ answer.content.str ≠ []

/-- The answer is no error, and its content has a header that fits. -/
structure WebRequestAnswer.Successful (answer : WebRequestAnswer) : Prop where
  errorStr : answer.errorStr = none
  appErrorCode : answer.appErrorCode = 0
  header : answer.Sends → CString.printed
    (str (answer.content.doctype ++ "; charset=" ++ answer.content.charset)) < 255

/-- The request is replied to once, with a successful answer and its content. -/
structure Behaviour.EndsWith (b : Behaviour) (get : Outcome) (answer : Delegate.WebRequestAnswer) :
    Prop where
  returned : get.thrown = none
  replied : get.replies = [.answer answer true]
  successful : (b.read answer).Successful

/-- The response to HEAD is the one to GET without its body and without the headers that
describe a body. -/
structure HeadAgrees (headerValue : List HeaderCall → String → Option String)
    (get head : Response) : Prop where
  status : head.status = get.status
  header : ∀ name, Response.IsExtra name ∨ get.out = [] →
    headerValue head.headers name = headerValue get.headers name
  empty : head.out = []

/-- The request context has no delegate requests behind its execution. -/
def Behaviour.Direct (b : Behaviour) (request : HttpRequest) : Prop :=
  ∀ content ∈ requestContent request, (b.first content).follow = []

/-! ## The handler -/

section Handler

variable {closure : ServiceClosure} {env : Environment} {request : HttpRequest} {path : String}
  {content : WebRequestContent} {doReply : Bool}

theorem executeRequest_eq (hcontent : requestContent request = some content) :
    executeRequest env request = runRequest env request content := by
  unfold requestContent at hcontent
  unfold executeRequest
  split at hcontent
  · rename_i hraw
    rw [if_pos hraw]
    split at hcontent
    · rename_i hget
      obtain rfl := Option.some.inj hcontent
      rw [if_pos hget]
    · rename_i hget
      obtain ⟨contentstr, hjson, rfl⟩ := Option.map_eq_some_iff.mp hcontent
      rw [if_neg hget, hjson]
  · rename_i hraw
    rw [if_neg hraw]
    split at hcontent
    · cases hcontent
    · rename_i hget
      obtain rfl := Option.some.inj hcontent
      rw [if_neg hget]

/-- Without a content for it `runRequest` is not called. -/
theorem executeRequest_refused (hcontent : requestContent request = none) (s : Exchange) :
    Wp (executeRequest env request) (fun _ t => t.operations = s.operations)
      (fun _ t => t.operations = s.operations) s := by
  unfold requestContent at hcontent
  unfold executeRequest
  split at hcontent
  · rename_i hraw
    rw [if_pos hraw]
    split at hcontent
    · cases hcontent
    · rename_i hget
      rw [if_neg hget, Option.map_eq_none_iff.mp hcontent]
      rfl
  · rename_i hraw
    rw [if_neg hraw]
    split at hcontent
    · rename_i hget
      rw [if_pos hget]
      rfl
    · cases hcontent

theorem operations_execRequest {p : List Operation → Prop}
    (h : Wp (requestBody closure env request path) (fun _ t => p t.operations)
      (fun _ t => p t.operations) {}) :
    p (finalState (execRequest closure env request path) {}).operations := by
  apply finalState_of_wp (p := fun t : Exchange => p t.operations)
  unfold execRequest
  rw [wp_tryCatch]
  apply h.mono
  · exact fun _ _ ht => ht
  · intro e t ht
    apply (wp_catchExecError e t).mono
    · exact fun _ u hu => hu ▸ ht
    · exact fun _ u hu => hu ▸ ht

theorem executed_runRequest {operations : List Operation} (h : executed operations = none) :
    executed (operations ++ [.runRequest content doReply]) = some (content, doReply) := by
  unfold executed at h ⊢
  rw [List.findSome?_append, h]
  rfl

/-- The content and the flag are those of the request. -/
theorem executeRequest_executed {s : Exchange} (hs : executed s.operations = none) :
    Wp (executeRequest env request)
      (fun _ t => executed t.operations = some (content, doReply) →
        requestContent request = some content ∧ doReplyContent request = doReply)
      (fun _ t => executed t.operations = some (content, doReply) →
        requestContent request = some content ∧ doReplyContent request = doReply) s := by
  obtain hcontent | ⟨content', hcontent⟩ := Option.eq_none_or_eq_some (requestContent request)
  · apply (executeRequest_refused hcontent s).mono
    · intro _ t ht h
      rw [ht, hs] at h
      cases h
    · intro _ t ht h
      rw [ht, hs] at h
      cases h
  · rw [executeRequest_eq hcontent]
    have hrun : ∀ operations : List Operation,
        operations = s.operations ++ [.runRequest content' (doReplyContent request)] →
        executed operations = some (content, doReply) →
          requestContent request = some content ∧ doReplyContent request = doReply := by
      rintro operations rfl h
      rw [executed_runRequest hs] at h
      obtain ⟨rfl, rfl⟩ := Prod.mk.inj (Option.some.inj h)
      exact ⟨hcontent, rfl⟩
    unfold runRequest
    dsimp only
    cases (env.runRequest content' (doReplyContent request)).2 with
    | none => exact hrun _ rfl
    | some e => exact hrun _ rfl

/-- And the context is created before. -/
theorem execRequest_executed
    (h : executed (finalState (execRequest closure env request path) {}).operations =
      some (content, doReply)) :
    creates closure env request path ∧ requestContent request = some content ∧
      doReplyContent request = doReply := by
  revert h
  apply operations_execRequest (p := fun operations => executed operations =
    some (content, doReply) → creates closure env request path ∧
      requestContent request = some content ∧ doReplyContent request = doReply)
  unfold requestBody
  cases hlocale : env.locale with
  | some e =>
      intro h
      cases h
  | none =>
      dsimp only
      rw [wp_ite]
      split
      · intro h
        cases h
      · rename_i hhalted
        cases hresult : createResult closure env request path with
        | thrown e =>
            intro h
            cases h
        | rejected answer =>
            intro h
            cases h
        | created =>
            have hcreates : creates closure env request path :=
              ⟨hlocale, by simpa using hhalted, hresult⟩
            apply (executeRequest_executed rfl).mono
            · exact fun _ t ht h => ⟨hcreates, ht h⟩
            · exact fun _ t ht h => ⟨hcreates, ht h⟩

/-- Nothing but the reports of `runRequest` changes the response. -/
theorem execRequest_returned (hcreates : creates closure env request path)
    (hcontent : requestContent request = some content)
    (hreturned : (env.runRequest content (doReplyContent request)).2 = none) :
    executed (finalState (execRequest closure env request path) {}).operations =
        some (content, doReplyContent request) ∧
      (finalState (execRequest closure env request path) {}).response =
        (env.runRequest content (doReplyContent request)).1.foldl
          (Report.apply env.statusToString) {} := by
  rcases hcreates with ⟨hlocale, hhalted, hresult⟩
  apply finalState_of_wp (p := fun t : Exchange => executed t.operations = _ ∧ t.response = _)
  unfold execRequest requestBody
  simp only [hlocale, hhalted, hresult, Bool.false_eq_true, if_false, executeRequest_eq hcontent]
  rw [wp_tryCatch, wp_bind]
  unfold runRequest
  dsimp only
  rw [hreturned]
  exact ⟨rfl, rfl⟩

end Handler

/-! ## The two runs -/

section Runs

variable {closure : ServiceClosure} {env : Environment} {b : Behaviour} {request : HttpRequest}
  {path : String} {content : WebRequestContent} {doReply : Bool} {t : Delegate.State}

theorem runRequest_reports :
    (b.runRequest content doReply).1 =
      b.reports (finalState (Delegate.runRequest (b.first content) doReply) {}).trace := by
  unfold Behaviour.runRequest finalState
  cases Delegate.runRequest (b.first content) doReply {} with
  | ok a s => rfl
  | error site s => rfl

/-- What a request is replied, first by `runRequest`, then by the steps to `t`. -/
def repliesTo (b : Behaviour) (content : WebRequestContent) (doReply : Bool)
    (t : Delegate.State) : List Delegate.Reply :=
  replies (finalState (Delegate.runRequest (b.first content) doReply) {}).trace ++ replies t.trace

theorem outcome_eq_some {o : Outcome} (h : outcome closure env b request path = some o) :
    ∃ content t, creates closure env request path ∧ requestContent request = some content ∧
      run Delegate.step (b.delegated content (doReplyContent request)) b.later = some t ∧
      o.replies = repliesTo b content (doReplyContent request) t ∧
      o.thrown = (b.runRequest content (doReplyContent request)).2 := by
  obtain ⟨⟨content, doReply⟩, hexecuted, h⟩ := Option.bind_eq_some_iff.mp h
  obtain ⟨t, hrun, rfl⟩ := Option.map_eq_some_iff.mp h
  obtain ⟨hcreates, hcontent, rfl⟩ := execRequest_executed hexecuted
  exact ⟨content, t, hcreates, hcontent, hrun, rfl, rfl⟩

/-- Unless `runRequest` throws, the response is what the replies make of it. -/
theorem outcome_eq (hcreates : creates closure env request path)
    (hcontent : requestContent request = some content)
    (hreturned : (b.runRequest content (doReplyContent request)).2 = none)
    (hrun : run Delegate.step (b.delegated content (doReplyContent request)) b.later = some t) :
    outcome closure env b request path = some
      { response := ((repliesTo b content (doReplyContent request) t).map b.report).foldl
          (Report.apply env.statusToString) {}
        replies := repliesTo b content (doReplyContent request) t
        thrown := none } := by
  have hexecuted := @execRequest_returned closure { env with runRequest := b.runRequest } request
    path content hcreates hcontent hreturned
  unfold outcome repliesTo
  dsimp only
  rw [hexecuted.1, Option.bind_some]
  dsimp only
  rw [hrun, hexecuted.2, Option.map_some, hreturned, List.map_append, List.foldl_append,
    runRequest_reports]
  rfl

theorem returned_iff_direct (hsuccess : (b.first content).success = true)
    (hfollow : (b.first content).follow = []) :
    (b.runRequest content doReply).2 = none ↔ ¬Delegate.DirectFault (b.first content) := by
  have h := Delegate.wp_runRequest_direct (s := {}) hsuccess hfollow doReply
  unfold Wp at h
  unfold Behaviour.runRequest
  cases hm : Delegate.runRequest (b.first content) doReply {} with
  | ok a s =>
      rw [hm] at h
      exact iff_of_true rfl h.2
  | error site s =>
      rw [hm] at h
      exact iff_of_false (fun hnone => by cases hnone) (not_not.mpr h)

theorem replies_directEvents (env : Delegate.Env) :
    replies (Delegate.directEvents env doReply) = [.answer env.answer doReply] := by
  unfold Delegate.directEvents Delegate.terminationEvents
  split <;> rfl

theorem repliesTo_not_delegated
    (hnot : ¬((b.first content).success = true ∧ (b.first content).follow ≠ []))
    (hrun : run Delegate.step (b.delegated content doReply) b.later = some t) :
    t = b.delegated content doReply := by
  apply Delegate.run_of_quiescent _ hrun
  exact Delegate.quiescent_runRequest hnot doReply

theorem finalState_direct (hsuccess : (b.first content).success = true)
    (hfollow : (b.first content).follow = [])
    (hreturned : ¬Delegate.DirectFault (b.first content)) :
    finalState (Delegate.runRequest (b.first content) doReply) {} =
      (Delegate.State.close (Delegate.State.start {})).append
        (Delegate.directEvents (b.first content) doReply) := by
  apply finalState_of_wp (p := fun t => t = _)
  apply (Delegate.wp_runRequest_direct hsuccess hfollow doReply).mono
  · exact fun _ t h => h.1
  · exact fun _ t h => absurd h hreturned

theorem repliesTo_direct (hsuccess : (b.first content).success = true)
    (hfollow : (b.first content).follow = [])
    (hreturned : ¬Delegate.DirectFault (b.first content)) (ht : t.trace = []) :
    repliesTo b content doReply t = [.answer (b.first content).answer doReply] := by
  unfold repliesTo
  rw [finalState_direct hsuccess hfollow hreturned, ht, Delegate.State.append_trace]
  exact (List.append_nil _).trans (replies_directEvents _)

theorem answer_mem_answersOf {answer : Delegate.WebRequestAnswer} {trace : List Delegate.Event}
    (h : .answer answer doReply ∈ replies trace) : (answer, doReply) ∈ Delegate.answersOf trace := by
  obtain ⟨e, he, hreply⟩ := List.mem_filterMap.mp h
  refine List.mem_filterMap.mpr ⟨e, he, ?_⟩
  cases e with
  | report reply => 
      obtain rfl := Option.some.inj hreply
      rfl
  | _ => cases hreply

theorem success_of_replied {answer : Delegate.WebRequestAnswer} 
    (hrun : run Delegate.step (b.delegated content doReply) b.later = some t)
    (hreplied : repliesTo b content doReply t = [.answer answer true]) :
    (b.first content).success = true := by
  by_contra hnot
  have hfailed : (b.first content).success = false := by simpa using hnot
  have htrace : t.trace = [] := by
    rw [repliesTo_not_delegated (fun h => hnot h.1) hrun]
    rfl
  have hmem : .answer answer true ∈ repliesTo b content doReply t := by
    rw [hreplied]
    exact List.mem_singleton_self _
  unfold repliesTo at hmem
  rw [htrace] at hmem
  have hnone : Delegate.answersOf
      (finalState (Delegate.runRequest (b.first content) doReply) {}).trace = [] :=
    finalState_of_within (Delegate.sameAnswers_runRequest hfailed doReply) {}
  have hanswer := answer_mem_answersOf (by simpa [replies] using hmem)
  rw [hnone] at hanswer
  cases hanswer

/-- The run of HEAD beside the run of GET: the reply is the same but for the flag, which is
reset if there are no delegate requests. -/
theorem replies_head {answer : Delegate.WebRequestAnswer}
    (hreturned : (b.runRequest content true).2 = none)
    (hrun : run Delegate.step (b.delegated content true) b.later = some t)
    (hreplied : repliesTo b content true t = [.answer answer true]) :
    (b.runRequest content false).2 = none ∧
      run Delegate.step (b.delegated content false) b.later = some t ∧
      repliesTo b content false t =
        [.answer answer (decide ((b.first content).follow ≠ []))] := by
  have hsuccess := success_of_replied hrun hreplied
  by_cases hfollow : (b.first content).follow = []
  · have hfault := (returned_iff_direct hsuccess hfollow).mp hreturned
    have htrace : t.trace = [] := by
      rw [repliesTo_not_delegated (fun h => h.2 hfollow) hrun]
      rfl
    have hanswer : (b.first content).answer = answer := by
      rw [repliesTo_direct hsuccess hfollow hfault htrace] at hreplied
      simpa using hreplied
    refine ⟨(returned_iff_direct hsuccess hfollow).mpr hfault, ?_, ?_⟩
    · rw [← hrun]
      unfold Behaviour.delegated
      rw [finalState_direct hsuccess hfollow hfault, finalState_direct hsuccess hfollow hfault]
      rfl
    · rw [repliesTo_direct hsuccess hfollow hfault htrace, hanswer, hfollow]
      rfl
  · have hflag := Delegate.runRequest_flag hsuccess hfollow false true
    unfold Behaviour.runRequest at hreturned ⊢
    unfold Behaviour.delegated at hrun ⊢
    unfold repliesTo at hreplied ⊢
    rw [hflag]
    refine ⟨hreturned, hrun, ?_⟩
    rw [hreplied, decide_eq_true hfollow]

/-- The response to HEAD beside the response to GET. -/
theorem outcome_head {get : Outcome} {answer : Delegate.WebRequestAnswer}
    (hget : outcome closure env b (request.withMethod "GET") path = some get)
    (hends : b.EndsWith get answer) :
    ∃ head withContent, outcome closure env b (request.withMethod "HEAD") path = some head ∧
      get.response = Response.reportAnswer {} env.statusToString (b.read answer) true ∧
      head.response = Response.reportAnswer {} env.statusToString (b.read answer) withContent ∧
      (withContent = false ↔ b.Direct request) := by
  obtain ⟨content, t, hcreates, hcontent, hrun, hreplies, hthrown⟩ := outcome_eq_some hget
  have hreturned := hthrown.symm.trans hends.returned
  have hreplied := hreplies.symm.trans hends.replied
  have hgetEq := outcome_eq hcreates hcontent hreturned hrun
  obtain ⟨hreturned', hrun', hreplied'⟩ := replies_head hreturned hrun hreplied
  have hheadEq := @outcome_eq closure env b (request.withMethod "HEAD") path content t hcreates
    hcontent hreturned' hrun'
  refine ⟨_, decide ((b.first content).follow ≠ []), hheadEq, ?_, ?_, ?_⟩
  · obtain rfl := Option.some.inj (hget.symm.trans hgetEq)
    dsimp only
    rw [hreplied]
    rfl
  · dsimp only
    rw [show doReplyContent (request.withMethod "HEAD") = false from rfl, hreplied']
    rfl
  · rw [decide_eq_false_iff_not, not_not]
    constructor
    · intro hfollow content' hcontent'
      obtain rfl := Option.some.inj (hcontent.symm.trans hcontent')
      exact hfollow
    · intro hdirect
      exact hdirect content hcontent

end Runs

/-! ## The two responses -/

section Responses

variable {r : Response} {statusToString : Int → String} {answer : WebRequestAnswer}
  {withContent : Bool}

theorem reportAnswer_content (h : answer.Successful)
    (hmessage : answer.messageType = none ∨ answer.messageStr = none) :
    r.reportAnswer statusToString answer withContent =
      ((r.setStatus answer.httpStatus).responseContent statusToString answer.content
        withContent).finalize := by
  unfold Response.reportAnswer
  rw [if_neg (by simp [h.errorStr, h.appErrorCode])]
  cases hmessage with
  | inl htype => rw [htype]
  | inr hstr =>
      rw [hstr]
      cases answer.messageType with
      | none => rfl
      | some messagetype => rfl

theorem reportAnswer_message (h : answer.Successful) {messagetype messagestr : String}
    (htype : answer.messageType = some messagetype) (hstr : answer.messageStr = some messagestr) :
    r.reportAnswer statusToString answer withContent =
      ((r.setStatus answer.httpStatus).responseMessage messagetype messagestr).finalize := by
  unfold Response.reportAnswer
  rw [if_neg (by simp [h.errorStr, h.appErrorCode]), htype, hstr]

theorem status_responseContent (h : answer.Successful) (hsends : answer.Sends) :
    (r.responseContent statusToString answer.content true).status = r.status := by
  unfold Response.responseContent Response.responseContentHeader
  rw [if_pos (by simpa using hsends.2)]
  dsimp only
  rw [if_neg (Int.not_le.mpr (h.header hsends))]
  rfl

theorem out_reportAnswer_sends (h : answer.Successful) (hsends : answer.Sends) :
    (r.reportAnswer statusToString answer true).out = r.out ++ answer.content.str ++ [10] := by
  rw [reportAnswer_content h hsends.1]
  unfold Response.responseContent Response.responseContentHeader
  rw [if_pos (by simpa using hsends.2)]
  dsimp only
  rw [if_neg (Int.not_le.mpr (h.header hsends))]
  rfl

theorem reportAnswer_withoutContent (h : answer.Successful)
    (hmessage : answer.messageType = none ∨ answer.messageStr = none)
    (hcontent : withContent = false ∨ answer.content.str = []) :
    r.reportAnswer statusToString answer withContent =
      (r.setStatus answer.httpStatus).finalize := by
  rw [reportAnswer_content h hmessage]
  unfold Response.responseContent
  rw [if_neg]
  cases hcontent with
  | inl hcontent => simp [hcontent]
  | inr hcontent => simp [hcontent]

/-- Without a content to send the flag decides nothing. -/
theorem reportAnswer_not_sends (h : answer.Successful) (hnot : ¬answer.Sends) :
    r.reportAnswer statusToString answer withContent =
        r.reportAnswer statusToString answer false ∧
      (r.reportAnswer statusToString answer false).out = r.out := by
  by_cases hmessage : answer.messageType = none ∨ answer.messageStr = none
  · have hcontent : answer.content.str = [] := by
      by_contra hne
      exact hnot ⟨hmessage, hne⟩
    rw [reportAnswer_withoutContent h hmessage (.inr hcontent),
      reportAnswer_withoutContent h hmessage (.inr hcontent)]
    exact ⟨rfl, rfl⟩
  · obtain ⟨htype, hstr⟩ := not_or.mp hmessage
    obtain ⟨messagetype, htype⟩ := Option.ne_none_iff_exists'.mp htype
    obtain ⟨messagestr, hstr⟩ := Option.ne_none_iff_exists'.mp hstr
    rw [reportAnswer_message h htype hstr, reportAnswer_message h htype hstr]
    exact ⟨rfl, rfl⟩

/-- Reset where the reply is made, the flag leaves out the body and what describes it. -/
theorem headAgrees_reportAnswer {headerValue : List HeaderCall → String → Option String}
    (laws : HeaderLaws headerValue) (h : answer.Successful) :
    HeadAgrees headerValue (Response.reportAnswer {} statusToString answer true)
      (Response.reportAnswer {} statusToString answer false) := by
  by_cases hsends : answer.Sends
  · rw [reportAnswer_withoutContent h hsends.1 (.inl rfl)]
    constructor
    · rw [reportAnswer_content h hsends.1]
      exact (@status_responseContent (Response.setStatus {} answer.httpStatus) _ _ h hsends).symm
    · intro name hname
      have hextra : Response.IsExtra name := by
        apply hname.resolve_right
        rw [out_reportAnswer_sends h hsends]
        simp
      rw [reportAnswer_content h hsends.1]
      exact (@Response.header_responseContent (Response.setStatus {} answer.httpStatus) name _ _
        laws hextra _ _).symm
    · rfl
  · obtain ⟨hsame, hout⟩ := @reportAnswer_not_sends {} statusToString answer true h hsends
    rw [hsame]
    exact ⟨rfl, fun _ _ => rfl, hout⟩

/-- HEAD agrees with GET if there are no delegate requests, and otherwise only if there is no
body. -/
theorem headAgrees_iff (closure : ServiceClosure) (env : Environment)
    (laws : HeaderLaws env.header) (b : Behaviour) (request : HttpRequest) (path : String)
    {get : Outcome} {answer : Delegate.WebRequestAnswer}
    (hget : outcome closure env b (request.withMethod "GET") path = some get)
    (hends : b.EndsWith get answer) :
    (∃ head, outcome closure env b (request.withMethod "HEAD") path = some head ∧
        HeadAgrees env.header get.response head.response) ↔
      b.Direct request ∨ ¬(b.read answer).Sends := by
  obtain ⟨head, withContent, hhead, hgetResponse, hheadResponse, hdirect⟩ :=
    outcome_head hget hends
  rw [hgetResponse]
  constructor
  · rintro ⟨head', hhead', hagrees⟩
    obtain rfl := Option.some.inj (hhead.symm.trans hhead')
    rw [hheadResponse] at hagrees
    by_contra hnot
    obtain ⟨hdelegated, hsends⟩ := not_or.mp hnot
    have hcontent : withContent = true := by
      rw [← hdirect] at hdelegated
      simpa using hdelegated
    have hempty := hagrees.empty
    rw [hcontent, out_reportAnswer_sends hends.successful (not_not.mp hsends)] at hempty
    simp at hempty
  · intro h
    refine ⟨head, hhead, ?_⟩
    rw [hheadResponse]
    have hagrees := @headAgrees_reportAnswer env.statusToString _ _ laws hends.successful
    cases h with
    | inl hb => rwa [hdirect.mpr hb]
    | inr hnot =>
        rwa [(@reportAnswer_not_sends {} env.statusToString _ withContent hends.successful hnot).1]

end Responses

def greeting : WebRequestAnswer :=
  { content := { charset := "UTF-8", doctype := "text/plain", str := [104, 105] } }

def greetingOutcome : Outcome where
  response :=
    { headers := [.contentLength 3, .setContentHeader (str "text/plain; charset=UTF-8")]
      out := [104, 105, 10]
      finalized := true }
  replies := [.answer {} true]
  thrown := none

def greetsDirectly : Behaviour where
  first := fun _ => {}
  later := []
  thrown := fun _ => .other
  read := fun _ => greeting

/-- The greeting is the answer when another server has answered. -/
def greetsDelegated : Behaviour where
  first := fun _ => { follow := [.remote "a"] }
  later := [.issue 0 {}, .answer ⟨0, 1, "a", ""⟩ {} {}]
  thrown := fun _ => .other
  read := fun _ => greeting

theorem greeting_successful : greeting.Successful where
  errorStr := rfl
  appErrorCode := rfl
  header := fun _ => by decide +kernel

theorem outcome_greetsDirectly : outcome {} willing greetsDirectly
    (HttpRequest.withMethod { pathInfo := "/greeting" } "GET") "greeting" = some greetingOutcome := by
  decide +kernel

theorem outcome_greetsDelegated : outcome {} willing greetsDelegated
    (HttpRequest.withMethod { pathInfo := "/greeting" } "GET") "greeting" = some greetingOutcome := by
  decide +kernel

theorem headAgrees_greetsDirectly :
    ∃ head, outcome {} willing greetsDirectly
        (HttpRequest.withMethod { pathInfo := "/greeting" } "HEAD") "greeting" = some head ∧
      HeadAgrees willing.header greetingOutcome.response head.response :=
  (headAgrees_iff {} willing laws_lastHeader greetsDirectly { pathInfo := "/greeting" } "greeting"
    outcome_greetsDirectly ⟨rfl, rfl, greeting_successful⟩).mpr (.inl fun _ _ => rfl)

/-- The body is sent to HEAD as it is to GET. -/
theorem headAgrees_greetsDelegated_not :
    greetsDelegated.EndsWith greetingOutcome {} ∧
      outcome {} willing greetsDelegated
        (HttpRequest.withMethod { pathInfo := "/greeting" } "GET") "greeting" =
          some greetingOutcome ∧
      outcome {} willing greetsDelegated
        (HttpRequest.withMethod { pathInfo := "/greeting" } "HEAD") "greeting" =
          some greetingOutcome ∧
      ¬HeadAgrees willing.header greetingOutcome.response greetingOutcome.response := by
  refine ⟨⟨rfl, rfl, greeting_successful⟩, outcome_greetsDelegated,
    by decide +kernel, ?_⟩
  intro h
  exact absurd h.empty (by decide)

end StrusWebService.Application
