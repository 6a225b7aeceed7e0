import StrusWebService.Library.CString
import StrusWebService.Library.Throwing
import Mathlib.Data.List.TakeDrop
import Mathlib.Data.List.TakeWhile

/-! # A request of the client

`Request::issue` builds the list of headers, sets the options of the handle and performs
the request. What libcurl answers to the calls is a parameter, and so are the functions of
the base library. Of the exceptions that leave the calls `issue` catches one.
-/

namespace StrusWebService.CurlClient

open CString Throwing
open Text (str)

/-- The exceptions of the client. -/
inductive Thrown where
  | badAlloc
  | runtimeError
  deriving DecidableEq

abbrev CURLcode := Nat

def CURLE_OK : CURLcode := 0
def CURLE_OUT_OF_MEMORY : CURLcode := 27

structure Request where
  method : List UInt8
  content : List UInt8
  content_type : CStr
  user_agent : List UInt8
  accept : CStr
  accept_charset : CStr

def toupper (ch : UInt8) : UInt8 := if 97 ≤ ch ∧ ch ≤ 122 then ch - 32 else ch

/-- The functions of the base library. A format is filled in with texts; what stands between
the places for them is in the result. -/
structure StrusBase where
  string_format : (format : List UInt8) → (arguments : List CStr) → CStr
  caseInsensitiveEquals : List UInt8 → List UInt8 → Bool
  string_format_ne_nil : ∀ doctype encoding,
    (string_format (str "%s; charset=%s") [doctype, encoding]).bytes ≠ []

/-- `Request::Request`, with the version of libcurl. The content type is not empty, so this does
not throw. -/
def Request.new (base : StrusBase) (version : CStr) (method : List UInt8) (content : List UInt8)
    (doctype encoding : CStr) (http_accept : Option CStr) : Request :=
  let content_type := base.string_format (str "%s; charset=%s") [doctype, encoding]
  { method := method.map toupper
    content := content
    content_type := content_type
    user_agent := (base.string_format (str "libcurl/%s") [version]).bytes
    accept := http_accept.getD content_type
    accept_charset := encoding }

/-- An option of the handle with its value. -/
inductive CurlOption where
  | httpget
  | customrequest (method : List UInt8)
  | post
  | postfieldsize (size : Nat)
  | postfields (content : List UInt8)
  | useragent (user_agent : List UInt8)
  | httpheader (headers : List (List UInt8))
  | writedata
  | writefunction
  | failonerror
  | errorbuffer
  | httpVersion
  | url (url : List UInt8)
  | port (port : Int)
  | verbose
  deriving DecidableEq

/-- What libcurl answers during one call of `issue`: whether there is a handle, whether
another header can be added to as many, what setting an option and the transfer return, and
the status and the content received. -/
structure Curl where
  easyInit : Bool
  slistAppend : Nat → Bool
  setopt : CurlOption → CURLcode
  perform : CURLcode
  responseCode : Int
  received : List UInt8

structure Response where
  httpstatus : Int := 0
  content : List UInt8 := []
  deriving DecidableEq

/-- The local variables of `issue` and its response. -/
structure Session where
  headers : List (List UInt8) := []
  performed : Bool := false
  response : Response := {}
  deriving DecidableEq

abbrev Issuing := EStateM Thrown Session

section Issue

variable (curl : Curl)

def set_curl_opt (opt : CurlOption) : Issuing Unit :=
  if curl.setopt opt = CURLE_OK then pure () else throw .runtimeError

/-- The text of a header. -/
def headerText (name value : CStr) : List UInt8 := name.bytes ++ str ": " ++ value.bytes

/-- What is in the buffer behind the call of `snprintf`, up to the terminating NUL. -/
def headerBuf (name value : CStr) : List UInt8 :=
  (stored 1024 (headerText name value)).takeWhile (· != 0)

def set_http_header (name value : CStr) : Issuing Unit := do
  if 1024 < printed (headerText name value) then throw .badAlloc
  let s ← get
  if curl.slistAppend s.headers.length then
    set { s with headers := s.headers ++ [headerBuf name value] }
  else
    -- The list built so far is no longer reachable.
    set { s with headers := [] }
    throw .badAlloc

def expectName : CStr := ⟨str "Expect", by decide⟩
def contentTypeName : CStr := ⟨str "Content-Type", by decide⟩
def acceptName : CStr := ⟨str "Accept", by decide⟩
def acceptCharsetName : CStr := ⟨str "Accept-Charset", by decide⟩
def noValue : CStr := ⟨[], List.not_mem_nil⟩

variable (base : StrusBase) (request : Request) (url : List UInt8) (port : Int) (verbose : Bool)

def setHeaders : Issuing Unit := do
  set_http_header curl expectName noValue
  set_http_header curl contentTypeName request.content_type
  set_http_header curl acceptName request.accept
  set_http_header curl acceptCharsetName request.accept_charset

def setOptions : Issuing Unit := do
  if request.content.isEmpty && base.caseInsensitiveEquals request.method (str "GET") then
    set_curl_opt curl .httpget
  else
    set_curl_opt curl (.customrequest request.method)
    set_curl_opt curl .post
    set_curl_opt curl (.postfieldsize request.content.length)
    set_curl_opt curl (.postfields request.content)
  set_curl_opt curl (.useragent request.user_agent)
  let s ← get
  set_curl_opt curl (.httpheader s.headers)
  set_curl_opt curl .writedata
  set_curl_opt curl .writefunction
  set_curl_opt curl .failonerror
  set_curl_opt curl .errorbuffer
  set_curl_opt curl .httpVersion
  set_curl_opt curl (.url url)
  if port ≠ 0 then set_curl_opt curl (.port port)
  if verbose then set_curl_opt curl .verbose

/-- The transfer, and the status when there was one. -/
def performRequest : Issuing CURLcode := do
  modify fun s => { s with performed := true
                           response := { s.response with content := curl.received } }
  if curl.perform = CURLE_OK then
    modify fun s => { s with response := { s.response with httpstatus := curl.responseCode } }
  pure curl.perform

def issue : Issuing CURLcode :=
  if curl.easyInit then
    tryCatch
      (do setHeaders curl request
          setOptions curl base request url port verbose
          performRequest curl)
      fun
        | .badAlloc => pure CURLE_OUT_OF_MEMORY
        | .runtimeError => throw .runtimeError
  else pure CURLE_OK

end Issue

section Headers

/-- The four headers. -/
def Request.headers (request : Request) : List (CStr × CStr) :=
  [(expectName, noValue), (contentTypeName, request.content_type), (acceptName, request.accept),
    (acceptCharsetName, request.accept_charset)]

def Request.headerTexts (request : Request) : List (List UInt8) :=
  request.headers.map fun h => headerText h.1 h.2

/-- A text the buffer has no room for, and the length of which says so. -/
def TooLong (text : List UInt8) : Prop := 1024 < text.length ∧ text.length ≤ intMax

instance : DecidablePred TooLong := fun text =>
  inferInstanceAs (Decidable (1024 < text.length ∧ text.length ≤ intMax))

/-- A text the buffer has no room for, though its length does not say so. -/
def Truncated (text : List UInt8) : Prop := text.length = 1024 ∨ intMax < text.length

variable {curl : Curl} {request : Request}

theorem tooLong_iff {text : List UInt8} : 1024 < printed text ↔ TooLong text := by
  unfold TooLong
  by_cases h : text.length ≤ intMax
  · rw [printed_of_le h]
    simp only [h, and_true]
    omega
  · rw [printed_of_lt (Nat.lt_of_not_le h)]
    exact iff_of_false (by decide) fun hboth => h hboth.2

theorem nul_not_mem_headerText (name value : CStr) : 0 ∉ headerText name value := by
  simp only [headerText, List.mem_append, not_or]
  exact ⟨⟨name.nul_not_mem, by decide⟩, value.nul_not_mem⟩

theorem headerBuf_eq (name value : CStr) :
    headerBuf name value = (headerText name value).take 1023 := by
  have hno : ∀ c ∈ (headerText name value).take 1023, (c != 0) = true := by
    intro c hc
    rw [bne_iff_ne]
    intro heq
    exact nul_not_mem_headerText name value (heq ▸ List.mem_of_mem_take hc)
  rw [headerBuf, stored_of_pos (by decide), List.takeWhile_append_of_pos hno]
  simp

/-- Of the texts for which there is no exception the truncated ones are changed. -/
theorem headerBuf_eq_headerText_iff {name value : CStr} (h : ¬TooLong (headerText name value)) :
    headerBuf name value = headerText name value ↔ ¬Truncated (headerText name value) := by
  rw [headerBuf_eq, List.take_eq_self_iff]
  unfold TooLong at h
  unfold Truncated
  have hmax : 1024 < intMax := by decide
  omega

/-- What a call does, by its text and by libcurl. -/
theorem set_http_header_run (name value : CStr) (s : Session) :
    set_http_header curl name value s =
      if TooLong (headerText name value) then .error .badAlloc s
      else if curl.slistAppend s.headers.length then
        .ok () { s with headers := s.headers ++ [headerBuf name value] }
      else .error .badAlloc { s with headers := [] } := by
  unfold set_http_header
  by_cases hlong : TooLong (headerText name value)
  · rw [if_pos hlong, if_pos (tooLong_iff.mpr hlong)]
    rfl
  · rw [if_neg hlong, if_neg (fun h => hlong (tooLong_iff.mp h))]
    show (if curl.slistAppend s.headers.length then _ else _ : Issuing Unit) s = _
    split <;> rfl

/-- The calls for a list of headers. -/
def setEach (curl : Curl) : List (CStr × CStr) → Issuing Unit
  | [] => pure ()
  | h :: headers => do
      set_http_header curl h.1 h.2
      setEach curl headers

theorem setHeaders_eq : setHeaders curl request = setEach curl request.headers := by
  simp [setHeaders, Request.headers, setEach]

/-- Each call made for a header adds its text as it is or throws, and then `issue` returns
without a transfer. -/
structure KeepsHeaders (curl : Curl) (request : Request) : Prop where
  exact : ∀ before h after, request.headers = before ++ h :: after → ∀ s,
    setEach curl before {} = .ok () s →
      Wp (set_http_header curl h.1 h.2) (fun _ t => t.headers = s.headers ++ [headerText h.1 h.2])
        (fun e _ => e = .badAlloc) s
  failed : ∀ e s, setHeaders curl request {} = .error e s → curl.easyInit = true →
    ∀ base url port verbose,
      issue curl base request url port verbose {} = .ok CURLE_OUT_OF_MEMORY s ∧ s.performed = false

theorem setEach_cons (h : CStr × CStr) (headers : List (CStr × CStr)) (s : Session) :
    setEach curl (h :: headers) s =
      match set_http_header curl h.1 h.2 s with
      | .ok _ t => setEach curl headers t
      | .error e t => .error e t := by
  rw [setEach]
  simp only [bind, EStateM.bind]
  cases set_http_header curl h.1 h.2 s with
  | ok u t => rfl
  | error e t => rfl

/-- A header that is too long ends the calls. -/
theorem not_tooLong_of_setEach {headers : List (CStr × CStr)} {s t : Session}
    (h : setEach curl headers s = .ok () t) : ∀ h ∈ headers, ¬TooLong (headerText h.1 h.2) := by
  induction headers generalizing s with
  | nil =>
      intro h hmem
      cases hmem
  | cons header headers ih =>
      rw [setEach_cons, set_http_header_run] at h
      by_cases hlong : TooLong (headerText header.1 header.2)
      · rw [if_pos hlong] at h
        cases h
      · rw [if_neg hlong] at h
        split at h
        · rename_i heq
          intro h' hmem
          cases List.mem_cons.mp hmem with
          | inl hhead => rwa [hhead]
          | inr htail => exact ih h h' htail
        · cases h

/-- Nothing else does when libcurl takes every header. -/
theorem exists_setEach_eq_ok {headers : List (CStr × CStr)} (happend : ∀ n, curl.slistAppend n = true)
    (h : ∀ h ∈ headers, ¬TooLong (headerText h.1 h.2)) (s : Session) :
    ∃ t, setEach curl headers s = .ok () t := by
  induction headers generalizing s with
  | nil => exact ⟨s, rfl⟩
  | cons header headers ih =>
      rw [setEach_cons, set_http_header_run, if_neg (h header List.mem_cons_self),
        if_pos (happend _)]
      exact ih (fun h' hmem => h h' (List.mem_cons_of_mem header hmem)) _

/-- The exception is always the same, and no transfer has been made. -/
theorem setEach_error {headers : List (CStr × CStr)} {s t : Session} {e : Thrown}
    (h : setEach curl headers s = .error e t) : e = .badAlloc ∧ t.performed = s.performed := by
  induction headers generalizing s with
  | nil => cases h
  | cons header headers ih =>
      rw [setEach_cons, set_http_header_run] at h
      by_cases hlong : TooLong (headerText header.1 header.2)
      · rw [if_pos hlong] at h
        cases h
        exact ⟨rfl, rfl⟩
      · rw [if_neg hlong] at h
        by_cases happend : curl.slistAppend s.headers.length = true
        · rw [if_pos happend] at h
          exact ih (s := { s with headers := s.headers ++ [headerBuf header.1 header.2] }) h
        · rw [if_neg happend] at h
          cases h
          exact ⟨rfl, rfl⟩

theorem issue_of_setHeaders_error {e : Thrown} {s : Session}
    (h : setHeaders curl request {} = .error e s) (hinit : curl.easyInit = true)
    (base : StrusBase) (url : List UInt8) (port : Int) (verbose : Bool) :
    issue curl base request url port verbose {} = .ok CURLE_OUT_OF_MEMORY s ∧ s.performed = false := by
  have hthrown := h
  rw [setHeaders_eq] at hthrown
  obtain ⟨rfl, hperformed⟩ := setEach_error hthrown
  refine ⟨?_, hperformed⟩
  rw [issue, if_pos hinit]
  show EStateM.tryCatch _ _ _ = _
  have hbody : (do
      setHeaders curl request
      setOptions curl base request url port verbose
      performRequest curl : Issuing CURLcode) {} = .error .badAlloc s := by
    show EStateM.bind _ _ _ = _
    rw [EStateM.bind, h]
  rw [EStateM.tryCatch, hbody]
  rfl

/-- A libcurl that refuses nothing. -/
def acceptingCurl : Curl :=
  { easyInit := true
    slistAppend := fun _ => true
    setopt := fun _ => CURLE_OK
    perform := CURLE_OK
    responseCode := 200
    received := [] }

theorem slistAppend_acceptingCurl (n : Nat) : acceptingCurl.slistAppend n = true := rfl

/-- The texts up to one that is too long, as headers with those before them. -/
theorem split_of_mem {text : List UInt8}
    (h : text ∈ request.headerTexts.takeWhile fun text => ¬TooLong text) :
    ∃ before header after, request.headers = before ++ header :: after ∧
      text = headerText header.1 header.2 ∧ ∀ h ∈ before, ¬TooLong (headerText h.1 h.2) := by
  rw [Request.headerTexts, List.takeWhile_map] at h
  obtain ⟨header, hmem, rfl⟩ := List.mem_map.mp h
  obtain ⟨before, behind, hsplit⟩ := List.mem_iff_append.mp hmem
  have hprefix := List.takeWhile_prefix (l := request.headers)
    ((fun text => decide ¬TooLong text) ∘ fun h => headerText h.1 h.2)
  rcases hprefix with ⟨rest, hrest⟩
  refine ⟨before, header, behind ++ rest, ?_, rfl, ?_⟩
  · rw [← hrest, hsplit]
    simp
  · intro h' hbefore
    have hin := List.mem_takeWhile_imp (hsplit ▸ List.mem_append_left _ hbefore)
    simpa using hin

theorem mem_of_split {before after : List (CStr × CStr)} {header : CStr × CStr}
    (h : request.headers = before ++ header :: after)
    (hbefore : ∀ h ∈ before, ¬TooLong (headerText h.1 h.2))
    (hlong : ¬TooLong (headerText header.1 header.2)) :
    headerText header.1 header.2 ∈ request.headerTexts.takeWhile fun text => ¬TooLong text := by
  rw [Request.headerTexts, h, List.map_append, List.map_cons, List.takeWhile_append_of_pos]
  · simp [hlong]
  · intro text hmem
    obtain ⟨h', hmem', rfl⟩ := List.mem_map.mp hmem
    simpa using hbefore h' hmem'

/-- Which headers are kept, whatever libcurl answers: up to the first text that is too long,
none may be truncated. -/
theorem keepsHeaders_iff (request : Request) :
    (∀ curl, KeepsHeaders curl request) ↔
      ∀ text ∈ request.headerTexts.takeWhile (fun text => ¬TooLong text), ¬Truncated text := by
  constructor
  · intro h text htext
    obtain ⟨before, header, after, hheaders, rfl, hbefore⟩ := split_of_mem htext
    have hlong : ¬TooLong (headerText header.1 header.2) := by
      simpa using List.mem_takeWhile_imp htext
    obtain ⟨s, hs⟩ := @exists_setEach_eq_ok acceptingCurl _ slistAppend_acceptingCurl hbefore {}
    have hexact := (h acceptingCurl).exact before header after hheaders s hs
    rw [Wp, set_http_header_run, if_neg hlong, if_pos (slistAppend_acceptingCurl _)] at hexact
    rw [← headerBuf_eq_headerText_iff hlong]
    exact List.singleton_inj.mp (List.append_cancel_left hexact)
  · intro h curl
    refine ⟨?_, fun e s herror hinit => issue_of_setHeaders_error herror hinit⟩
    intro before header after hheaders s hs
    have hbefore := not_tooLong_of_setEach hs
    rw [Wp, set_http_header_run]
    by_cases hlong : TooLong (headerText header.1 header.2)
    · rw [if_pos hlong]
    · have hkept := h _ (mem_of_split hheaders hbefore hlong)
      rw [← headerBuf_eq_headerText_iff hlong] at hkept
      rw [if_neg hlong]
      split
      · rename_i heq
        split at heq
        · cases heq
          rw [hkept]
        · cases heq
      · rename_i heq
        split at heq
        · cases heq
        · cases heq
          rfl

/-- A content type the header of which has just the size of the buffer is not kept. -/
theorem not_keepsHeaders_of_length
    (hlength : (headerText contentTypeName request.content_type).length = 1024) :
    ¬KeepsHeaders acceptingCurl request := by
  intro h
  have hlong : ¬TooLong (headerText contentTypeName request.content_type) := by
    intro hlong
    exact absurd hlong.1 (by rw [hlength]; decide)
  obtain ⟨s, hs⟩ := @exists_setEach_eq_ok acceptingCurl [(expectName, noValue)]
    slistAppend_acceptingCurl (by decide) {}
  have hexact := h.exact [(expectName, noValue)] (contentTypeName, request.content_type)
    [(acceptName, request.accept), (acceptCharsetName, request.accept_charset)] rfl s hs
  rw [Wp, set_http_header_run, if_neg hlong, if_pos (slistAppend_acceptingCurl _)] at hexact
  have hkept := List.singleton_inj.mp (List.append_cancel_left hexact)
  rw [headerBuf_eq_headerText_iff hlong] at hkept
  exact hkept (Or.inl hlength)

/-- A content type the header of which has the size of the buffer. -/
def longDoctype : CStr :=
  ⟨List.replicate 995 97, fun h => absurd (List.eq_of_mem_replicate h) (by decide)⟩

def charsetAttribute : CStr := ⟨str "; charset=", by decide⟩

/-- The two formats filled in, and the comparison of upper case letters. -/
def sampleBase : StrusBase where
  string_format _ arguments :=
    match arguments with
    | [doctype, encoding] => doctype ++ charsetAttribute ++ encoding
    | arguments => arguments.foldl (· ++ ·) ⟨str "libcurl/", by decide⟩
  caseInsensitiveEquals text text' := text.map toupper == text'.map toupper
  string_format_ne_nil doctype encoding := by
    show doctype.bytes ++ charsetAttribute.bytes ++ encoding.bytes ≠ []
    exact List.append_ne_nil_of_left_ne_nil
      (List.append_ne_nil_of_right_ne_nil _ (by decide)) _

def sampleVersion : CStr := ⟨str "7.58.0", by decide⟩

def longRequest : Request :=
  Request.new sampleBase sampleVersion (str "PUT") (str "x") longDoctype
    ⟨str "UTF-8", by decide⟩ none

theorem length_longRequest :
    (headerText contentTypeName longRequest.content_type).length = 1024 := by
  show (str "Content-Type" ++ str ": " ++ (List.replicate 995 97 ++ str "; charset=" ++
    str "UTF-8")).length = 1024
  simp only [List.length_append, List.length_replicate]
  decide

/-- The last byte of the header is lost. -/
theorem keepsHeaders_longRequest_not :
    (headerText contentTypeName longRequest.content_type).length = 1024 ∧
      ¬KeepsHeaders acceptingCurl longRequest :=
  ⟨length_longRequest, not_keepsHeaders_of_length length_longRequest⟩

end Headers

end StrusWebService.CurlClient
