import StrusWebService.Application.Handlers
import StrusWebService.Library.Regex

/-! # The cross-origin policy

A handler has to ask `handle_preflight_cors` before it does anything else. The
handlers with a fixed answer do, `exec_request` does not. Either way no other code
touches the header that allows an origin.
-/

namespace StrusWebService.Application

open Throwing

/-- A request context is created or executed, information is given, or the service
is shut down. -/
def Operation.served : Operation → Bool
  | .createContext _ _ _ _ _ created => created
  | _ => true

/-- The value of the header that allows an origin. -/
def Exchange.origin (env : Environment) (s : Exchange) : Option String :=
  env.header s.response.headers "Access-Control-Allow-Origin"

/-- Nothing is done for an origin that is not in the list, and one that is in the
list is allowed by the reply. -/
def CorsPolicy (closure : ServiceClosure) (env : Environment) (request : HttpRequest) : Prop :=
  (request.httpOrigin ≠ "" → request.httpOrigin ∉ closure.corsHosts →
    (served closure env request).operations.any Operation.served = false) ∧
  (request.httpOrigin ∈ closure.corsHosts →
    (served closure env request).origin env = some request.httpOrigin)

/-- Neither an answer, which may name a header as its message, nor the reply to an unknown URL
changes the header that allows an origin. -/
structure Environment.Plain (env : Environment) : Prop where
  laws : HeaderLaws env.header
  notFound : ∀ r, env.header (env.notFound r).headers "Access-Control-Allow-Origin" =
    env.header r.headers "Access-Control-Allow-Origin"
  simple : ∀ acceptCharset accept href key message answer,
    env.getSimpleRequestAnswer acceptCharset accept href key message = .ok answer →
      ∀ m ∈ answer.messageType, sameHeader m "Access-Control-Allow-Origin" = false
  run : ∀ content doReplyContent answer withContent,
    .answer answer withContent ∈ (env.runRequest content doReplyContent).1 →
      ∀ m ∈ answer.messageType, sameHeader m "Access-Control-Allow-Origin" = false

/-- A request context is created for this request. -/
def creates (closure : ServiceClosure) (env : Environment) (request : HttpRequest)
    (path : String) : Prop :=
  env.locale = none ∧ closure.haltedForMaintenance = false ∧
    createResult closure env request path = .created

/-- The handler reached by the URL asks for the origin, or nothing is asked of it. -/
def Covered (closure : ServiceClosure) (env : Environment) (request : HttpRequest) : Prop :=
  match dispatch closure env request with
  | none => request.httpOrigin ∉ closure.corsHosts
  | some (.request path) =>
      request.httpOrigin ∉ closure.corsHosts ∧
        (request.httpOrigin = "" ∨ ¬creates closure env request path)
  | some _ => request.httpOrigin = "" → request.httpOrigin ∉ closure.corsHosts

/-! ## What the handlers keep -/

/-- The header that allows an origin is as it was. -/
def SameOrigin (env : Environment) (s t : Exchange) : Prop := t.origin env = s.origin env

/-- Operations are only added. -/
def Extends (s t : Exchange) : Prop := s.operations <+: t.operations

section Keeps

variable {closure : ServiceClosure} {env : Environment} {request : HttpRequest}

instance : Std.Refl (SameOrigin env) := ⟨fun _ => rfl⟩

instance : IsTrans Exchange (SameOrigin env) := ⟨fun _ _ _ h h' => h'.trans h⟩

instance : Std.Refl Extends := ⟨fun s => List.prefix_refl s.operations⟩

instance : IsTrans Exchange Extends := ⟨fun _ _ _ => List.IsPrefix.trans⟩

theorem origin_isExtra : Response.IsExtra "Access-Control-Allow-Origin" := by
  constructor <;> decide

theorem respond_sameOrigin {f : Response → Response}
    (h : ∀ r, env.header (f r).headers "Access-Control-Allow-Origin" =
      env.header r.headers "Access-Control-Allow-Origin") : Within (SameOrigin env) (respond f) :=
  Within.modify fun s => h s.response

theorem perform_sameOrigin (o : Operation) : Within (SameOrigin env) (perform o) :=
  Within.modify fun _ => rfl

theorem catchExecError_sameOrigin (e : Thrown) : Within (SameOrigin env) (catchExecError env e) := by
  cases e with
  | runtimeError what => exact respond_sameOrigin fun _ => rfl
  | badAlloc => exact respond_sameOrigin fun _ => rfl
  | other => exact respond_sameOrigin fun _ => rfl
  | undefined => exact Within.throw Thrown.undefined

theorem reportMessage_sameOrigin (plain : env.Plain) (key message : String) :
    Within (SameOrigin env) (reportMessage closure env request key message) := by
  apply Within.bind (perform_sameOrigin _)
  intro _
  split
  · rename_i answer hanswer
    exact respond_sameOrigin fun r =>
      Response.header_reportAnswer plain.laws origin_isExtra answer
        (plain.simple _ _ _ _ _ _ hanswer) true
  · exact Within.throw _

theorem apply_reports (laws : HeaderLaws env.header) {reports : List Report}
    (h : ∀ answer withContent, .answer answer withContent ∈ reports →
      ∀ m ∈ answer.messageType, sameHeader m "Access-Control-Allow-Origin" = false)
    (r : Response) :
    env.header (reports.foldl (Report.apply env.statusToString) r).headers
        "Access-Control-Allow-Origin" =
      env.header r.headers "Access-Control-Allow-Origin" := by
  induction reports generalizing r with
  | nil => rfl
  | cons report reports ih =>
      rw [List.foldl_cons, ih fun a w hmem => h a w (List.mem_cons_of_mem _ hmem)]
      cases report with
      | answer a w =>
          exact Response.header_reportAnswer laws origin_isExtra a (h a w List.mem_cons_self) w
      | error httpstatus message => rfl
      | errorFmt httpstatus message => rfl
      | temporalReject => rfl

theorem runRequest_sameOrigin (plain : env.Plain) (content : WebRequestContent) :
    Within (SameOrigin env) (runRequest env request content) := by
  apply Within.bind (perform_sameOrigin _)
  intro _
  apply Within.bind
    (respond_sameOrigin fun r => apply_reports plain.laws (plain.run content _) r)
  intro _
  split
  · exact Within.pure _
  · exact Within.throw _

theorem executeRequest_sameOrigin (plain : env.Plain) :
    Within (SameOrigin env) (executeRequest env request) := by
  unfold executeRequest
  split
  · split
    · exact runRequest_sameOrigin plain _
    · split
      · exact Within.throw _
      · exact runRequest_sameOrigin plain _
  · split
    · exact respond_sameOrigin fun _ => rfl
    · exact runRequest_sameOrigin plain _

theorem execRequest_sameOrigin (plain : env.Plain) (path : String) :
    Within (SameOrigin env) (execRequest closure env request path) := by
  apply Within.tryCatch _ catchExecError_sameOrigin
  unfold requestBody
  split
  · exact Within.throw _
  · split
    · exact respond_sameOrigin fun _ => rfl
    · split
      · exact Within.throw _
      · exact Within.bind (perform_sameOrigin _) fun _ =>
          respond_sameOrigin fun _ => rfl
      · exact Within.bind (perform_sameOrigin _) fun _ =>
          executeRequest_sameOrigin plain

theorem perform_extends (o : Operation) : Within Extends (perform o) :=
  Within.modify fun s => List.prefix_append s.operations [o]

theorem respond_extends (f : Response → Response) : Within Extends (respond f) :=
  Within.modify fun s => List.prefix_refl s.operations

theorem catchExecError_extends (e : Thrown) : Within Extends (catchExecError env e) := by
  cases e with
  | runtimeError what => exact Within.modify fun s => List.prefix_refl s.operations
  | badAlloc => exact Within.modify fun s => List.prefix_refl s.operations
  | other => exact Within.modify fun s => List.prefix_refl s.operations
  | undefined => exact Within.throw Thrown.undefined

theorem runRequest_extends (content : WebRequestContent) :
    Within Extends (runRequest env request content) := by
  apply Within.bind (perform_extends _)
  intro _
  apply Within.bind (respond_extends _)
  intro _
  split
  · exact Within.pure _
  · exact Within.throw _

theorem executeRequest_extends : Within Extends (executeRequest env request) := by
  unfold executeRequest
  split
  · split
    · exact runRequest_extends _
    · split
      · exact Within.throw _
      · exact runRequest_extends _
  · split
    · exact respond_extends _
    · exact runRequest_extends _

end Keeps

/-! ## The handlers with a fixed answer -/

section Simple

variable {closure : ServiceClosure} {env : Environment} {request : HttpRequest}
  {body : Code Unit}

theorem wp_handlePreflightCors (hcors : closure.corsEnabled = true)
    {ok : Bool → Exchange → Prop} {thrown : Thrown → Exchange → Prop} {s : Exchange} :
    Wp (handlePreflightCors closure request) ok thrown s ↔
      if request.httpOrigin = "" then ok true s
      else if request.httpOrigin ∈ closure.corsHosts then
        ok true { s with response := allowOrigin request.httpOrigin closure.corsAge s.response }
      else ok false s := by
  unfold handlePreflightCors ServiceClosure.hasPreflightCorsOrigin
  simp only [hcors, List.contains_eq_mem, decide_eq_true_eq, wp_ite, wp_pure, wp_bind,
    Bool.true_eq_false, if_false]
  rfl

/-- The request method is checked after the origin, and keeps the header too. -/
theorem checked_sameOrigin (hbody : Within (SameOrigin env) body) : Within (SameOrigin env)
    (do if ← checkRequestMethod env request "GET" then body) := by
  apply Within.bind
  · unfold checkRequestMethod
    split
    · exact Within.bind (respond_sameOrigin fun _ => rfl) fun _ => Within.pure _
    · exact Within.pure _
  · intro b
    split
    · exact hbody
    · exact Within.pure _

theorem origin_allowOrigin (laws : HeaderLaws env.header) (origin age : String) (r : Response) :
    env.header (allowOrigin origin age r).headers "Access-Control-Allow-Origin" = some origin := by
  unfold allowOrigin
  rw [Response.header_setHeader laws (by decide), Response.header_setHeader laws (by decide)]
  exact laws.setHeader

/-- Nothing happens for an origin that is not in the list. -/
theorem execSimple_denied (hcors : closure.corsEnabled = true) (hne : request.httpOrigin ≠ "")
    (hnot : request.httpOrigin ∉ closure.corsHosts) (s : Exchange) :
    finalState (execSimple closure env request body) s = s := by
  apply finalState_of_wp (p := fun t : Exchange => t = s)
  unfold execSimple
  rw [wp_tryCatch, wp_bind, wp_handlePreflightCors hcors, if_neg hne, if_neg hnot]
  rfl

/-- What follows on an origin that passes. -/
theorem wp_execSimple {thrown : Thrown → Exchange → Prop} {ok : Unit → Exchange → Prop}
    {s t : Exchange} (hbody : Within (SameOrigin env) body)
    (hpass : ∀ {ok' thrown'}, Wp (handlePreflightCors closure request) ok' thrown' s ↔ ok' true t)
    (hok : ∀ u, SameOrigin env t u → ok () u) (hthrown : ∀ e u, SameOrigin env t u → thrown e u) :
    Wp (execSimple closure env request body) ok thrown s := by
  unfold execSimple
  rw [wp_tryCatch, wp_bind, hpass]
  have hchecked : Within (SameOrigin env) (do if ← checkRequestMethod env request "GET" then body) :=
    checked_sameOrigin hbody
  apply (hchecked t).mono
  · intro _ u hu
    exact hok u hu
  · intro e u hu
    have hcaught : Within (SameOrigin env) (catchExecError env e) := catchExecError_sameOrigin e
    apply (hcaught u).mono
    · intro _ v hv
      exact hok v (trans_of (SameOrigin env) hu hv)
    · intro e' v hv
      exact hthrown e' v (trans_of (SameOrigin env) hu hv)

theorem execSimple_allowed (plain : env.Plain) (hcors : closure.corsEnabled = true)
    (hne : request.httpOrigin ≠ "") (hmem : request.httpOrigin ∈ closure.corsHosts)
    (hbody : Within (SameOrigin env) body) (s : Exchange) :
    (finalState (execSimple closure env request body) s).origin env =
      some request.httpOrigin := by
  apply finalState_of_wp (p := fun t : Exchange => t.origin env = some request.httpOrigin)
  have hallowed := origin_allowOrigin plain.laws request.httpOrigin closure.corsAge s.response
  apply wp_execSimple hbody
  · intro ok' thrown'
    rw [wp_handlePreflightCors hcors, if_neg hne, if_pos hmem]
  · intro u hu
    exact hu.trans hallowed
  · intro e u hu
    exact hu.trans hallowed

theorem execSimple_sameOrigin (hcors : closure.corsEnabled = true) (hempty : request.httpOrigin = "")
    (hbody : Within (SameOrigin env) body) (s : Exchange) :
    (finalState (execSimple closure env request body) s).origin env = s.origin env := by
  apply finalState_of_wp (p := fun t : Exchange => t.origin env = s.origin env)
  apply wp_execSimple hbody
  · intro ok' thrown'
    rw [wp_handlePreflightCors hcors, if_pos hempty]
  · intro u hu
    exact hu
  · intro e u hu
    exact hu

def Handler.isRequest : Handler → Bool
  | .request _ => true
  | _ => false

/-- The handlers other than `exec_request` are the frame around a body. -/
theorem exec_simple (plain : env.Plain) {handler : Handler} (h : handler.isRequest = false) :
    ∃ body, Within (SameOrigin env) body ∧
      handler.exec closure env request = execSimple closure env request body := by
  cases handler with
  | ping => exact ⟨_, reportMessage_sameOrigin plain _ _, rfl⟩
  | version0 => exact ⟨_, reportMessage_sameOrigin plain _ _, rfl⟩
  | version component =>
      refine ⟨_, ?_, rfl⟩
      unfold versionBody
      split
      · exact reportMessage_sameOrigin plain _ _
      · exact Within.throw Thrown.other
  | serviceIdentifier => exact ⟨_, reportMessage_sameOrigin plain _ _, rfl⟩
  | quit =>
      refine ⟨_, ?_, rfl⟩
      apply Within.bind (perform_sameOrigin _)
      intro _
      exact Within.bind (respond_sameOrigin fun _ => rfl) fun _ => perform_sameOrigin _
  | request path => cases h

end Simple

/-! ## The policy -/

section Policy

variable {closure : ServiceClosure} {env : Environment} {request : HttpRequest}

/-- An error that is caught before a context was created is only reported. -/
theorem wp_catchExecError (e : Thrown) (s : Exchange) :
    Wp (catchExecError env e) (fun _ t => t.operations = s.operations)
      (fun _ t => t.operations = s.operations) s := by
  cases e with
  | runtimeError what => rfl
  | badAlloc => rfl
  | other => rfl
  | undefined => rfl

/-- Without a request context nothing is performed. -/
theorem execRequest_idle {path : String} (hnot : ¬creates closure env request path) :
    (finalState (execRequest closure env request path) {}).operations.any Operation.served =
      false := by
  apply finalState_of_wp (p := fun t : Exchange => t.operations.any Operation.served = false)
  have caught : ∀ e, Wp (catchExecError env e)
      (fun _ t => t.operations.any Operation.served = false)
      (fun _ t => t.operations.any Operation.served = false) {} := by
    intro e
    apply (wp_catchExecError e {}).mono
    · intro _ t ht
      rw [ht]
      rfl
    · intro _ t ht
      rw [ht]
      rfl
  unfold execRequest requestBody
  rw [wp_tryCatch]
  cases hlocale : env.locale with
  | some e => exact caught e
  | none =>
      dsimp only
      rw [wp_ite]
      split
      · rfl
      · rename_i hhalted
        cases hresult : createResult closure env request path with
        | thrown e => exact caught e
        | rejected answer => rfl
        | created => exact absurd ⟨hlocale, by simpa using hhalted, hresult⟩ hnot

/-- Behind the creation of a context operations are only added. -/
theorem execRequest_created {path : String} (h : creates closure env request path) :
    (finalState (execRequest closure env request path) {}).operations.any Operation.served =
      true := by
  apply finalState_of_wp (p := fun t : Exchange => t.operations.any Operation.served = true)
  rcases h with ⟨hlocale, hhalted, hresult⟩
  have kept : ∀ {s t : Exchange}, s.operations.any Operation.served = true → Extends s t →
      t.operations.any Operation.served = true := by
    intro s t hs hext
    obtain ⟨o, ho, hserved⟩ := List.any_eq_true.mp hs
    exact List.any_eq_true.mpr ⟨o, hext.subset ho, hserved⟩
  unfold execRequest requestBody
  simp only [hlocale, hhalted, hresult, Bool.false_eq_true, if_false]
  rw [wp_tryCatch, wp_bind]
  have hexecuted : Within Extends (executeRequest env request) := executeRequest_extends
  apply (hexecuted _).mono
  · intro _ t ht
    exact kept rfl ht
  · intro e t ht
    have hcaught : Within Extends (catchExecError env e) := catchExecError_extends e
    apply (hcaught t).mono
    · intro _ u hu
      exact kept (kept rfl ht) hu
    · intro _ u hu
      exact kept (kept rfl ht) hu

/-- The policy at `exec_request`: the origin is in no list, and nothing is created
for one that is not empty. -/
theorem corsPolicy_request (plain : env.Plain) {path : String}
    (hdispatch : dispatch closure env request = some (.request path)) :
    CorsPolicy closure env request ↔ request.httpOrigin ∉ closure.corsHosts ∧
      (request.httpOrigin = "" ∨ ¬creates closure env request path) := by
  have hserved : served closure env request =
      finalState (execRequest closure env request path) {} := by
    unfold served serve
    rw [hdispatch]
    rfl
  have hnone : (served closure env request).origin env = none := by
    rw [hserved]
    exact (finalState_of_within (execRequest_sameOrigin plain path) {}).trans plain.laws.start
  unfold CorsPolicy
  rw [hnone, hserved]
  constructor
  · intro ⟨hdenied, hallowed⟩
    have hnot : request.httpOrigin ∉ closure.corsHosts := fun hmem => by
      have hsome := hallowed hmem
      cases hsome
    refine ⟨hnot, or_iff_not_imp_left.mpr fun hne hcreates => ?_⟩
    have hidle := hdenied hne hnot
    rw [execRequest_created hcreates] at hidle
    cases hidle
  · intro ⟨hnot, hcreates⟩
    refine ⟨fun hne _ => ?_, fun hmem => absurd hmem hnot⟩
    exact execRequest_idle (hcreates.resolve_left hne)

theorem corsPolicy_simple (hcors : closure.corsEnabled = true) (plain : env.Plain)
    {handler : Handler} (hsimple : handler.isRequest = false)
    (hdispatch : dispatch closure env request = some handler) :
    CorsPolicy closure env request ↔
      (request.httpOrigin = "" → request.httpOrigin ∉ closure.corsHosts) := by
  obtain ⟨body, hbody, hexec⟩ := @exec_simple closure env request plain _ hsimple
  have hserved : served closure env request =
      finalState (execSimple closure env request body) {} := by
    unfold served serve
    rw [hdispatch]
    exact congrArg (fun m => finalState m {}) hexec
  unfold CorsPolicy
  rw [hserved]
  constructor
  · intro ⟨_, hallowed⟩ hempty hmem
    have hsome := hallowed hmem
    rw [execSimple_sameOrigin hcors hempty hbody] at hsome
    exact Option.some_ne_none _ (hsome.symm.trans plain.laws.start)
  · intro hempty
    constructor
    · intro hne hnot
      rw [execSimple_denied hcors hne hnot]
      rfl
    · intro hmem
      have hne : request.httpOrigin ≠ "" := fun h => hempty h hmem
      exact execSimple_allowed plain hcors hne hmem hbody {}

theorem corsPolicy_unmatched (plain : env.Plain)
    (hdispatch : dispatch closure env request = none) :
    CorsPolicy closure env request ↔ request.httpOrigin ∉ closure.corsHosts := by
  have hserved : served closure env request = finalState (respond env.notFound) {} := by
    unfold served serve
    rw [hdispatch]
  have hnone : (finalState (respond env.notFound) {}).origin env = none :=
    (plain.notFound {}).trans plain.laws.start
  unfold CorsPolicy
  rw [hserved]
  constructor
  · intro ⟨_, hallowed⟩ hmem
    have hsome := hallowed hmem
    rw [hnone] at hsome
    cases hsome
  · intro hnot
    exact ⟨fun _ _ => rfl, fun hmem => absurd hmem hnot⟩

end Policy

/-- The policy holds exactly of the requests that are covered. -/
theorem corsPolicy_iff_covered (closure : ServiceClosure) (hcors : closure.corsEnabled = true)
    (env : Environment) (plain : env.Plain) (request : HttpRequest) :
    CorsPolicy closure env request ↔ Covered closure env request := by
  unfold Covered
  cases hdispatch : dispatch closure env request with
  | none => exact corsPolicy_unmatched plain hdispatch
  | some handler =>
      cases handler with
      | request path => exact corsPolicy_request plain hdispatch
      | ping => exact corsPolicy_simple hcors plain rfl hdispatch
      | version0 => exact corsPolicy_simple hcors plain rfl hdispatch
      | version component => exact corsPolicy_simple hcors plain rfl hdispatch
      | serviceIdentifier => exact corsPolicy_simple hcors plain rfl hdispatch
      | quit => exact corsPolicy_simple hcors plain rfl hdispatch

/-- A service with one allowed origin. -/
def oneOrigin : ServiceClosure :=
  ({} : ServiceClosure).loadCorsConfiguration
    { enable := some true, allowedOrigins := ["http://localhost:8000"] }

def HeaderCall.value : HeaderCall → Option String
  | .contentLength length => some (toString length)
  | .setContentHeader contentHeader =>
      some (String.ofList (contentHeader.map fun byte => Char.ofNat byte.toNat))
  | .contentType value | .setHeader _ value => some value
  | .eraseHeader _ => none

/-- Every header has the value it was given last. -/
def lastHeader (calls : List HeaderCall) (name : String) : Option String :=
  calls.foldl (fun value call => if sameHeader call.header name then call.value else value) none

theorem lastHeader_append (calls : List HeaderCall) (call : HeaderCall) (name : String) :
    lastHeader (calls ++ [call]) name =
      if sameHeader call.header name then call.value else lastHeader calls name :=
  List.foldl_append

theorem laws_lastHeader : HeaderLaws lastHeader where
  frame hother := by
    rw [lastHeader_append, if_neg (Bool.eq_false_iff.mp hother)]
  setHeader := by
    intro calls name text
    have hsame : sameHeader name name = true := beq_self_eq_true _
    exact (lastHeader_append calls _ name).trans (if_pos hsame)
  start := rfl

/-- The first expression that matches has the handler. -/
def firstMatch (mappings : List UrlMapping) (url : String) : Option Handler :=
  mappings.findSome? fun mapping => (Regex.match? mapping.1 url).map mapping.2

/-- Every request context is created, and executed with an empty answer. -/
def willing : Environment where
  statusToString := fun _ => "Not Found"
  dispatcher := firstMatch
  notFound := (·.reportError (fun _ => "Not Found") 404 none)
  header := lastHeader
  versions := ⟨"0.17", "0.17", "0.17", "0.17", "0.17", "0.17", "0.17"⟩
  createContext := fun _ _ _ _ _ => .created
  getSimpleRequestAnswer := fun _ _ _ _ _ => .ok {}
  runRequest := fun _ doReplyContent => ([.answer {} doReplyContent], none)

theorem willing_plain : willing.Plain := by
  constructor
  · exact laws_lastHeader
  · exact fun _ => rfl
  · intro _ _ _ _ _ answer h m hm
    cases h
    cases hm
  · intro _ doReplyContent answer withContent h m hm
    cases List.mem_singleton.mp h
    cases hm

theorem corsPolicy_ping : CorsPolicy oneOrigin willing
    { pathInfo := "/ping", httpOrigin := "http://localhost:8000" } := by
  apply (corsPolicy_iff_covered oneOrigin rfl willing willing_plain _).mpr
  intro hempty
  exact absurd hempty (by decide)

theorem corsPolicy_fails :
    ¬CorsPolicy oneOrigin willing
      { pathInfo := "/storage/test", requestMethod := "DELETE",
        httpOrigin := "http://elsewhere.org" } ∧
    ¬CorsPolicy oneOrigin willing
      { pathInfo := "/storage/test", httpOrigin := "http://localhost:8000" } := by
  constructor
  · intro h
    exact absurd (h.1 (by decide) (by decide)) (by decide)
  · intro h
    exact absurd (h.2 (by decide)) (by decide)

end StrusWebService.Application
