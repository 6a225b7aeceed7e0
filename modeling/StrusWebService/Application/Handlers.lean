import StrusWebService.Library.Throwing
import StrusWebService.Application.Response
import StrusWebService.Form.ToJson

/-! # The request handlers

The URL map of `ApplicationImpl` names six handlers. Each runs against one HTTP
exchange: it reads the request, sets the response, and performs operations of the
service, which are recorded. Which handler a URL has, what the request handler of the
service returns, and what executing a request context reports, is given by an
environment.
-/

namespace StrusWebService.Application

open Throwing
open Text (str)

/-! ### The URL map -/

/-- The regular expression of a handler with `nn` arguments, the last of which takes the rest if
there is more; without an argument for it the URL map is refused. -/
def urlRegex (id : String) (nn : Nat) (more : Bool) (_ : more = true → nn ≠ 0) : String :=
  (if id = "" then "" else "/" ++ id) ++
    String.join (List.replicate (if more then nn - 1 else nn) "/(\\w+)") ++
    if more then "/(.*)" else ""

inductive Handler where
  | ping
  | version0
  | version (component : String)
  | serviceIdentifier
  | quit
  | request (path : String)
  deriving DecidableEq, Repr

/-- An expression that is assigned to the dispatcher, and what is called with its groups. -/
abbrev UrlMapping := String × (List String → Handler)

def urlmap0 (dir : String) (handler0 : Handler) : UrlMapping :=
  (urlRegex dir 0 false Bool.noConfusion, fun _ => handler0)

def urlmap1 (dir : String) (handler1 : String → Handler) (more : Bool) : UrlMapping :=
  (urlRegex dir 1 more fun _ => Nat.one_ne_zero, fun groups => handler1 (groups.headD ""))

def initDispatchers (quitEnabled : Bool) : List UrlMapping :=
  [urlmap0 "ping" .ping,
    urlmap0 "version" .version0,
    urlmap1 "version" .version false,
    urlmap0 "id" .serviceIdentifier] ++
  (if quitEnabled then [urlmap0 "quit" .quit] else []) ++
  [urlmap1 "" .request true]

/-- The dispatcher of the framework: the handler for a URL. -/
abbrev UrlDispatcher := List UrlMapping → String → Option Handler

/-! ### The service and its environment -/

structure CorsConfiguration where
  enable : Option Bool := none
  allowedOrigins : List String := []
  age : Option String := none

/-- The members of `ServiceClosure` that the handlers read. -/
structure ServiceClosure where
  corsEnabled : Bool := true
  corsHosts : List String := []
  corsAge : String := ""
  quitEnabled : Bool := false
  haltedForMaintenance : Bool := false
  httpServerUrl : String := ""
  identifier : String := ""

namespace ServiceClosure

def loadCorsConfiguration (c : ServiceClosure) (config : CorsConfiguration) : ServiceClosure :=
  { c with
    corsEnabled := config.enable.getD false
    corsHosts := c.corsHosts ++ config.allowedOrigins
    corsAge := config.age.getD "10" }

def hasPreflightCorsOrigin (c : ServiceClosure) (origin : String) : Bool :=
  c.corsHosts.contains origin

end ServiceClosure

structure HttpRequest where
  pathInfo : String
  requestMethod : String := "GET"
  /-- The environment variable `HTTP_ORIGIN`. -/
  httpOrigin : String := ""
  httpAcceptCharset : String := ""
  httpAccept : String := ""
  httpHost : String := ""
  get : List Form.Entry := []
  rawPostData : Bytes := []
  mediaType : String := ""
  charset : String := ""

/-- Why a handler is left; undefined behaviour cannot be caught. -/
inductive Thrown where
  | runtimeError (what : String)
  | badAlloc
  | other
  | undefined
  deriving DecidableEq, Repr

/-- A call of a report function while a request context is executed. -/
inductive Report where
  | answer (answer : WebRequestAnswer) (doReplyContent : Bool)
  | error (httpstatus : Int) (message : Option String)
  | errorFmt (httpstatus : Int) (message : String)
  | temporalReject

def Report.apply (statusToString : Int → String) (r : Response) : Report → Response
  | .answer a doReplyContent => r.reportAnswer statusToString a doReplyContent
  | .error httpstatus message => r.reportError statusToString httpstatus (message.map str)
  | .errorFmt httpstatus message => r.reportErrorFmt statusToString httpstatus message
  | .temporalReject => r.reportTemporalReject statusToString

inductive CreateResult where
  | created
  | rejected (answer : WebRequestAnswer)
  | thrown (e : Thrown)

structure Versions where
  webservice : String
  module : String
  rpc : String
  trace : String
  analyzer : String
  storage : String
  base : String

structure Environment where
  statusToString : Int → String
  dispatcher : UrlDispatcher
  /-- The reply of the framework to a URL without a handler. -/
  notFound : Response → Response
  /-- The value of a header after these calls. -/
  header : List HeaderCall → String → Option String
  versions : Versions
  /-- Setting the locale throws. -/
  locale : Option Thrown := none
  createContext : (acceptCharset accept htmlBaseHref method path : String) → CreateResult
  getSimpleRequestAnswer :
    (acceptCharset accept htmlBaseHref key message : String) → Except Thrown WebRequestAnswer
  /-- The reports made by `runRequest` on this response, and what it throws at last. -/
  runRequest : (content : WebRequestContent) → (doReplyContent : Bool) →
    List Report × Option Thrown

/-- An operation of the service. -/
inductive Operation where
  | createContext (acceptCharset accept htmlBaseHref method path : String) (created : Bool)
  | runRequest (content : WebRequestContent) (doReplyContent : Bool)
  | reportMessage (key message : String)
  | reportOk (httpstatus : Int) (message : String)
  | shutdown
  deriving DecidableEq

structure Exchange where
  response : Response := {}
  operations : List Operation := []

abbrev Code := EStateM Thrown Exchange

def respond (f : Response → Response) : Code Unit :=
  modify fun s => { s with response := f s.response }

def perform (o : Operation) : Code Unit :=
  modify fun s => { s with operations := s.operations ++ [o] }

/-! ### The handlers -/

section Handlers

variable (closure : ServiceClosure) (env : Environment) (request : HttpRequest)

/-- The headers of an allowed origin. -/
def allowOrigin (origin age : String) (r : Response) : Response :=
  ((((r.contentType "application/json").setHeader
    "Access-Control-Allow-Method" "GET, POST").setHeader
    "Access-Control-Allow-Origin" origin).setHeader
    "Access-Control-Allow-Headers" "content-type").setHeader
    "Access-Control-Max-Age" age

def handlePreflightCors : Code Bool :=
  if closure.corsEnabled = false then pure true
  else if request.httpOrigin = "" then pure true
  else if closure.hasPreflightCorsOrigin request.httpOrigin then do
    respond (allowOrigin request.httpOrigin closure.corsAge)
    pure true
  else pure false

def checkRequestMethod (type : String) : Code Bool :=
  if request.requestMethod ≠ type then do
    respond (·.reportErrorFmt env.statusToString 405 ("expected HTTP method '" ++ type ++ "'"))
    pure false
  else pure true

/-- `CATCH_EXEC_ERROR`. -/
def catchExecError : Thrown → Code Unit
  | .runtimeError what =>
      respond (·.reportErrorFmt env.statusToString 500 ("error in request: " ++ what))
  | .badAlloc => respond (·.reportErrorFmt env.statusToString 500 "out of memory in request")
  | .other => respond (·.reportErrorFmt env.statusToString 500 "uncaught error in request")
  | .undefined => throw .undefined

def baseHref : String :=
  if closure.httpServerUrl ≠ "" then closure.httpServerUrl
  else "http://" ++ request.httpHost ++ "/"

def reportMessage (key message : String) : Code Unit := do
  perform (.reportMessage key message)
  match env.getSimpleRequestAnswer request.httpAcceptCharset request.httpAccept
      (baseHref closure request) key message with
  | .ok answer => respond (·.reportAnswer env.statusToString answer true)
  | .error e => throw e

/-- The handlers other than `exec_request` have one frame. -/
def execSimple (body : Code Unit) : Code Unit :=
  tryCatch
    (do
      if ← handlePreflightCors closure request then
        if ← checkRequestMethod env request "GET" then
          body)
    (catchExecError env)

def quitBody : Code Unit := do
  perform (.reportOk 200 "service to shutdown")
  respond (·.reportOk 200)
  perform .shutdown

def execQuit : Code Unit := execSimple closure env request quitBody

def execPing : Code Unit :=
  execSimple closure env request
    (reportMessage closure env request "reply" "service is up and running")

def versionString (component : String) : Option String :=
  if component = "webservice" then some env.versions.webservice
  else if component = "module" then some env.versions.module
  else if component = "rpc" then some env.versions.rpc
  else if component = "trace" then some env.versions.trace
  else if component = "analyzer" then some env.versions.analyzer
  else if component = "storage" then some env.versions.storage
  else if component = "base" then some env.versions.base
  else none

/-- A string made of a null pointer is a `std::logic_error`. -/
def versionBody (component : String) : Code Unit :=
  match versionString env component with
  | some versionstr => reportMessage closure env request "version" versionstr
  | none => throw .other

def execVersion (component : String) : Code Unit :=
  execSimple closure env request (versionBody closure env request component)

def execVersion0 : Code Unit :=
  execSimple closure env request
    (reportMessage closure env request "version" env.versions.webservice)

def execServiceIdentifier : Code Unit :=
  execSimple closure env request
    (reportMessage closure env request "name" closure.identifier)

def htmlBaseHref (path : String) : String :=
  if path ≠ "" then
    let href := baseHref closure request ++ path
    if path.toList.getLast? = some '/' then href else href ++ "/"
  else baseHref closure request

/-- A HEAD request is executed as a GET without content in the reply. -/
def requestMethod : String :=
  if request.requestMethod = "HEAD" then "GET" else request.requestMethod

def doReplyContent : Bool := request.requestMethod ≠ "HEAD"

def runRequest (content : WebRequestContent) : Code Unit := do
  perform (.runRequest content (doReplyContent request))
  let outcome := env.runRequest content (doReplyContent request)
  respond fun r => outcome.1.foldl (Report.apply env.statusToString) r
  match outcome.2 with
  | none => pure ()
  | some e => throw e

/-- The content of the request, and its execution. -/
def executeRequest : Code Unit :=
  if request.rawPostData = [] then
    if request.get = [] then runRequest env request {}
    else
      match Form.formToJson Form.jsonValueEncode request.get with
      | none => throw .undefined
      | some contentstr =>
          runRequest env request
            { charset := "UTF-8", doctype := "application/json", str := contentstr }
  else if request.get ≠ [] then
    respond (·.reportError env.statusToString 400 (some
      (str "mixing URL parameters passed with non empty request content")))
  else
    runRequest env request
      { charset := if request.charset = "" then "UTF-8" else request.charset
        doctype := request.mediaType
        str := request.rawPostData }

def createResult (path : String) : CreateResult :=
  env.createContext request.httpAcceptCharset request.httpAccept
    (htmlBaseHref closure request path) (requestMethod request) path

def createContext (path : String) (created : Bool) : Code Unit :=
  perform (.createContext request.httpAcceptCharset request.httpAccept
    (htmlBaseHref closure request path) (requestMethod request) path created)

def requestBody (path : String) : Code Unit := do
  match env.locale with
  | some e => throw e
  | none =>
      if closure.haltedForMaintenance then
        respond (·.reportTemporalReject env.statusToString)
      else
        match createResult closure env request path with
        | .thrown e => throw e
        | .rejected answer => do
            createContext closure request path false
            respond (·.reportError env.statusToString answer.httpStatus (answer.errorStr.map str))
        | .created => do
            createContext closure request path true
            executeRequest env request

def execRequest (path : String) : Code Unit :=
  tryCatch (requestBody closure env request path) (catchExecError env)

def Handler.exec : Handler → Code Unit
  | .ping => execPing closure env request
  | .version0 => execVersion0 closure env request
  | .version component => execVersion closure env request component
  | .serviceIdentifier => execServiceIdentifier closure env request
  | .quit => execQuit closure env request
  | .request path => execRequest closure env request path

def dispatch : Option Handler :=
  env.dispatcher (initDispatchers closure.quitEnabled) request.pathInfo

def serve : Code Unit :=
  match dispatch closure env request with
  | some handler => handler.exec closure env request
  | none => respond env.notFound

/-- The exchange once the handler has returned. -/
def served : Exchange := finalState (serve closure env request) {}

end Handlers

end StrusWebService.Application
