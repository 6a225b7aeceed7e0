import StrusWebService.CurlClient.Request

/-! # The files of the client

`RequestInput::process` issues one request for each file and counts it. An exception that
`issue` does not catch leaves the loop and the counts.
-/

namespace StrusWebService.CurlClient

open CString Throwing
open Text (str)

/-- An input file: its content if it can be read, and what libcurl answers to its request. -/
structure InputFile where
  content : Option (List UInt8)
  curl : Curl

/-- The arguments of `process` and the members it reads, with the global settings. -/
structure RequestInput where
  base : StrusBase
  version : CStr
  method : List UInt8
  url : List UInt8
  port : Int
  verbose : Bool
  errorsAccepted : Int
  doctype : CStr
  encoding : CStr
  http_accept : Option CStr

/-- The counters, and the files whose turn in the loop has begun. -/
structure Counts where
  nofRequestsProcessed : Nat := 0
  nofRequestsFailed : Nat := 0
  attempted : List InputFile := []

abbrev Processing := EStateM Thrown Counts

namespace Counts

variable (s : Counts)

def attempt (file : InputFile) : Counts := { s with attempted := s.attempted ++ [file] }

def succeed : Counts := { s with nofRequestsProcessed := s.nofRequestsProcessed + 1 }

def fail : Counts := { s with nofRequestsFailed := s.nofRequestsFailed + 1 }

end Counts

namespace RequestInput

variable (input : RequestInput)

def request (content : List UInt8) : Request :=
  Request.new input.base input.version input.method content input.doctype input.encoding
    input.http_accept

/-- `issueRequest`, with a response of its own. -/
def issueRequest (curl : Curl) (request : Request) : Processing Bool := fun s =>
  match issue curl input.base request input.url input.port input.verbose {} with
  | .ok res session =>
      .ok (res = CURLE_OK ∧ 200 ≤ session.response.httpstatus ∧ session.response.httpstatus ≤ 299) s
  | .error e _ => .error e s

/-- The loop over the files. A request that is constructed has no error code. -/
def processLoop : List InputFile → Bool → Processing Bool
  | [], rt => pure rt
  | file :: files, rt => do
      let s ← get
      if 0 ≤ input.errorsAccepted ∧ input.errorsAccepted < s.nofRequestsFailed then pure false
      else
        modify fun s => s.attempt file
        match file.content with
        | none =>
            modify Counts.fail
            processLoop files false
        | some filecontent =>
            let ok ← input.issueRequest file.curl (input.request filecontent)
            if ok then
              modify Counts.succeed
              processLoop files rt
            else
              modify Counts.fail
              processLoop files false

/-- `process`: for the argument itself when there are no files, with its content. -/
def process (argument : InputFile) (filelist : List InputFile) : Processing Bool :=
  match filelist with
  | [] => do
      if ← input.issueRequest argument.curl (input.request (argument.content.getD [])) then
        modify Counts.succeed
        pure true
      else
        modify Counts.fail
        pure false
  | _ :: _ => input.processLoop filelist true

end RequestInput

section Options

variable {curl : Curl} (base : StrusBase) (request : Request) (url : List UInt8) (port : Int)
  (verbose : Bool)

/-- The options `issue` sets, in their order. -/
def Request.optionsBefore : List CurlOption :=
  (if request.content.isEmpty && base.caseInsensitiveEquals request.method (str "GET") then
    [.httpget]
    else [.customrequest request.method, .post, .postfieldsize request.content.length,
      .postfields request.content]) ++ [.useragent request.user_agent]

def Request.optionsBehind (headers : List (List UInt8)) : List CurlOption :=
  [.httpheader headers, .writedata, .writefunction, .failonerror, .errorbuffer, .httpVersion,
    .url url] ++ (if port ≠ 0 then [.port port] else []) ++ (if verbose then [.verbose] else [])

def setEachOption (curl : Curl) : List CurlOption → Issuing Unit
  | [] => pure ()
  | opt :: opts => do
      set_curl_opt curl opt
      setEachOption curl opts

theorem setOptions_eq :
    setOptions curl base request url port verbose =
      setEachOption curl (request.optionsBefore base) >>= fun _ =>
        get >>= fun s => setEachOption curl (Request.optionsBehind url port verbose s.headers) := by
  unfold setOptions Request.optionsBefore Request.optionsBehind
  by_cases hget : (request.content.isEmpty &&
      base.caseInsensitiveEquals request.method (str "GET")) = true
  · by_cases hport : port ≠ 0
    · cases verbose <;> simp [hget, hport, setEachOption]
    · cases verbose <;> simp [hget, hport, setEachOption]
  · by_cases hport : port ≠ 0
    · cases verbose <;> simp [hget, hport, setEachOption]
    · cases verbose <;> simp [hget, hport, setEachOption]

theorem setEachOption_run (opts : List CurlOption) (s : Session) :
    setEachOption curl opts s =
      if ∀ opt ∈ opts, curl.setopt opt = CURLE_OK then .ok () s else .error .runtimeError s := by
  induction opts with
  | nil =>
      rw [if_pos (fun opt h => absurd h List.not_mem_nil)]
      rfl
  | cons opt opts ih =>
      have hbind : setEachOption curl (opt :: opts) s =
          if curl.setopt opt = CURLE_OK then setEachOption curl opts s
          else .error .runtimeError s := by
        rw [setEachOption, set_curl_opt]
        split <;> rfl
      rw [hbind, ih]
      by_cases hopt : curl.setopt opt = CURLE_OK
      · simp only [hopt, if_true, List.forall_mem_cons, true_and]
      · simp only [hopt, if_false, List.forall_mem_cons, false_and]

def Request.options (headers : List (List UInt8)) : List CurlOption :=
  request.optionsBefore base ++ Request.optionsBehind url port verbose headers

theorem setOptions_run (s : Session) :
    setOptions curl base request url port verbose s =
      if ∀ opt ∈ request.options base url port verbose s.headers, curl.setopt opt = CURLE_OK then
        .ok () s
      else .error .runtimeError s := by
  rw [setOptions_eq, Request.options]
  simp only [bind, EStateM.bind, setEachOption_run, List.forall_mem_append]
  by_cases hbefore : ∀ opt ∈ request.optionsBefore base, curl.setopt opt = CURLE_OK
  · rw [if_pos hbefore]
    simp only [and_iff_right hbefore]
    rfl
  · rw [if_neg hbefore, if_neg (fun h => hbefore h.1)]

end Options

section Issue

variable {curl : Curl} {request : Request} (base : StrusBase) (url : List UInt8) (port : Int)
  (verbose : Bool)

/-- All headers get into the list. -/
def HeadersSet (curl : Curl) (request : Request) : Prop :=
  (∀ text ∈ request.headerTexts, ¬TooLong text) ∧ ∀ n < 4, curl.slistAppend n = true

instance : Decidable (HeadersSet curl request) :=
  inferInstanceAs (Decidable ((∀ text ∈ request.headerTexts, ¬TooLong text) ∧
    ∀ n < 4, curl.slistAppend n = true))

def Request.headerBufs (request : Request) : List (List UInt8) :=
  request.headers.map fun h => headerBuf h.1 h.2

theorem setEach_ok_iff {headers : List (CStr × CStr)} {s : Session} :
    (∃ t, setEach curl headers s = .ok () t) ↔
      (∀ h ∈ headers, ¬TooLong (headerText h.1 h.2)) ∧
        ∀ n < headers.length, curl.slistAppend (s.headers.length + n) = true := by
  induction headers generalizing s with
  | nil => exact iff_of_true ⟨s, rfl⟩ ⟨by simp, by simp⟩
  | cons header headers ih =>
      rw [setEach_cons, set_http_header_run, List.forall_mem_cons]
      by_cases hlong : TooLong (headerText header.1 header.2)
      · simp [hlong]
      · by_cases happend : curl.slistAppend s.headers.length = true
        · rw [if_neg hlong, if_pos happend]
          have hstep := ih (s := { s with headers := s.headers ++ [headerBuf header.1 header.2] })
          rw [and_iff_right hlong]
          refine hstep.trans (and_congr_right fun _ => ?_)
          simp only [List.length_append, List.length_cons, List.length_nil, Nat.zero_add]
          constructor
          · intro h n hn
            cases n with
            | zero => exact happend
            | succ n =>
                have := h n (Nat.lt_of_succ_lt_succ hn)
                rwa [Nat.add_assoc, Nat.add_comm 1 n] at this
          · intro h n hn
            have := h (n + 1) (Nat.succ_lt_succ hn)
            rwa [Nat.add_comm n 1, ← Nat.add_assoc] at this
        · rw [if_neg hlong, if_neg happend]
          apply iff_of_false
          · intro h
            rcases h with ⟨t, ht⟩
            cases ht
          · intro h
            exact happend (h.2 0 (Nat.succ_pos _))

theorem setEach_ok {headers : List (CStr × CStr)} {s t : Session}
    (h : setEach curl headers s = .ok () t) :
    t = { s with headers := s.headers ++ headers.map fun h => headerBuf h.1 h.2 } := by
  induction headers generalizing s with
  | nil =>
      cases h
      simp
  | cons header headers ih =>
      rw [setEach_cons, set_http_header_run] at h
      by_cases hlong : TooLong (headerText header.1 header.2)
      · rw [if_pos hlong] at h
        cases h
      · by_cases happend : curl.slistAppend s.headers.length = true
        · rw [if_neg hlong, if_pos happend] at h
          have := ih (s := { s with headers := s.headers ++ [headerBuf header.1 header.2] }) h
          rw [this]
          simp
        · rw [if_neg hlong, if_neg happend] at h
          cases h

theorem headersSet_iff : HeadersSet curl request ↔ ∃ t, setHeaders curl request {} = .ok () t := by
  rw [setHeaders_eq, setEach_ok_iff, HeadersSet, Request.headerTexts, List.forall_mem_map]
  have hzero : ∀ n, ([] : List (List UInt8)).length + n = n := fun n => Nat.zero_add n
  simp only [hzero]
  rfl

theorem setHeaders_of_headersSet (h : HeadersSet curl request) :
    setHeaders curl request {} = .ok () { headers := request.headerBufs } := by
  obtain ⟨t, ht⟩ := headersSet_iff.mp h
  rw [ht]
  rw [setHeaders_eq] at ht
  rw [setEach_ok ht]
  rfl

/-- The options of the request once its headers are set. -/
def Request.allOptions (request : Request) : List CurlOption :=
  request.options base url port verbose request.headerBufs

/-- The session behind a transfer. -/
def Curl.performed (curl : Curl) (s : Session) : Session :=
  { s with
    performed := true
    response :=
      { httpstatus := if curl.perform = CURLE_OK then curl.responseCode else s.response.httpstatus
        content := curl.received } }

theorem performRequest_run (s : Session) :
    performRequest curl s = .ok curl.perform (curl.performed s) := by
  unfold performRequest Curl.performed
  by_cases h : curl.perform = CURLE_OK
  · rw [if_pos h, if_pos h]
    rfl
  · rw [if_neg h, if_neg h]
    rfl

/-- What `issue` does when there is a handle and the headers are set. -/
theorem issue_of_headersSet (hinit : curl.easyInit = true) (h : HeadersSet curl request) :
    issue curl base request url port verbose {} =
      if ∀ opt ∈ request.allOptions base url port verbose, curl.setopt opt = CURLE_OK then
        .ok curl.perform (curl.performed { headers := request.headerBufs })
      else .error .runtimeError { headers := request.headerBufs } := by
  have hrun : setOptions curl base request url port verbose { headers := request.headerBufs } =
      if ∀ opt ∈ request.allOptions base url port verbose, curl.setopt opt = CURLE_OK then
        .ok () { headers := request.headerBufs }
      else .error .runtimeError { headers := request.headerBufs } :=
    setOptions_run base request url port verbose _
  have hbody : (setHeaders curl request >>= fun _ =>
      setOptions curl base request url port verbose >>= fun _ => performRequest curl) {} =
      if ∀ opt ∈ request.allOptions base url port verbose, curl.setopt opt = CURLE_OK then
        .ok curl.perform (curl.performed { headers := request.headerBufs })
      else .error .runtimeError { headers := request.headerBufs } := by
    simp only [bind, EStateM.bind, setHeaders_of_headersSet h]
    by_cases hopts : ∀ opt ∈ request.allOptions base url port verbose, curl.setopt opt = CURLE_OK
    · rw [if_pos hopts] at hrun ⊢
      simp only [hrun, performRequest_run]
    · rw [if_neg hopts] at hrun ⊢
      simp only [hrun]
  rw [issue, if_pos hinit]
  show EStateM.tryCatch _ _ _ = _
  rw [EStateM.tryCatch, hbody]
  by_cases hopts : ∀ opt ∈ request.allOptions base url port verbose, curl.setopt opt = CURLE_OK
  · rw [if_pos hopts]
  · rw [if_neg hopts]
    rfl

/-- Without a handle nothing is done, and without the headers there is no transfer. -/
theorem issue_of_not_headersSet (h : ¬HeadersSet curl request) (hinit : curl.easyInit = true) :
    ∃ s, issue curl base request url port verbose {} = .ok CURLE_OUT_OF_MEMORY s := by
  cases hheaders : setHeaders curl request {} with
  | ok u t => exact absurd (headersSet_iff.mpr ⟨t, hheaders⟩) h
  | error e t => exact ⟨t, (issue_of_setHeaders_error hheaders hinit base url port verbose).1⟩

end Issue

section Files

variable (input : RequestInput) (file : InputFile)

/-- The options for the request of a content. -/
def RequestInput.options (content : List UInt8) : List CurlOption :=
  (input.request content).allOptions input.base input.url input.port input.verbose

/-- Setting an option fails when the handle is there and has its headers. -/
def Throws : Prop :=
  ∃ content ∈ file.content, file.curl.easyInit = true ∧
    HeadersSet file.curl (input.request content) ∧
    ∃ opt ∈ input.options content, file.curl.setopt opt ≠ CURLE_OK

/-- No step of the request fails, and the answer is a success. -/
def Succeeds : Prop :=
  ∃ content ∈ file.content, file.curl.easyInit = true ∧
    HeadersSet file.curl (input.request content) ∧
    (∀ opt ∈ input.options content, file.curl.setopt opt = CURLE_OK) ∧
    file.curl.perform = CURLE_OK ∧ 200 ≤ file.curl.responseCode ∧ file.curl.responseCode ≤ 299

instance : Decidable (Throws input file) := by
  unfold Throws
  infer_instance

instance : Decidable (Succeeds input file) := by
  unfold Succeeds
  infer_instance

variable {file}

theorem throws_iff {content : List UInt8} (h : file.content = some content) :
    Throws input file ↔ file.curl.easyInit = true ∧
      HeadersSet file.curl (input.request content) ∧
      ∃ opt ∈ input.options content, file.curl.setopt opt ≠ CURLE_OK := by
  simp [Throws, h]

theorem succeeds_iff {content : List UInt8} (h : file.content = some content) :
    Succeeds input file ↔ file.curl.easyInit = true ∧
      HeadersSet file.curl (input.request content) ∧
      (∀ opt ∈ input.options content, file.curl.setopt opt = CURLE_OK) ∧
      file.curl.perform = CURLE_OK ∧ 200 ≤ file.curl.responseCode ∧
      file.curl.responseCode ≤ 299 := by
  simp [Succeeds, h]

/-- What becomes of a request that has a handle and its headers. -/
theorem issueRequest_of_headersSet {content : List UInt8} (hcontent : file.content = some content)
    (hinit : file.curl.easyInit = true) (hset : HeadersSet file.curl (input.request content))
    (s : Counts) :
    input.issueRequest file.curl (input.request content) s =
      if Throws input file then .error .runtimeError s
      else .ok (decide (Succeeds input file)) s := by
  have hthrows := throws_iff input hcontent
  have hsucceeds := succeeds_iff input hcontent
  simp only [hinit, hset, true_and] at hthrows hsucceeds
  let session := file.curl.performed { headers := (input.request content).headerBufs }
  have hissue : issue file.curl input.base (input.request content) input.url input.port input.verbose {} =
      if ∀ opt ∈ input.options content, file.curl.setopt opt = CURLE_OK then
        .ok file.curl.perform session
      else .error .runtimeError { headers := (input.request content).headerBufs } :=
    issue_of_headersSet input.base input.url input.port input.verbose hinit hset
  unfold RequestInput.issueRequest
  by_cases hopts : ∀ opt ∈ input.options content, file.curl.setopt opt = CURLE_OK
  · have hno : ¬Throws input file := by
      rw [hthrows]
      rintro ⟨opt, hopt, hfail⟩
      exact hfail (hopts opt hopt)
    have hcode : (file.curl.perform = CURLE_OK ∧ 200 ≤ session.response.httpstatus ∧
        session.response.httpstatus ≤ 299) ↔ Succeeds input file := by
      rw [hsucceeds, and_iff_right hopts]
      apply and_congr_right
      intro hperform
      simp only [session, Curl.performed, if_pos hperform]
    rw [if_pos hopts] at hissue
    rw [hissue, if_neg hno]
    simp only [hcode]
  · have hyes : Throws input file := by
      rw [hthrows]
      simpa using hopts
    rw [if_neg hopts] at hissue
    rw [hissue, if_pos hyes]

/-- What becomes of the request for a file. -/
theorem issueRequest_run {content : List UInt8} (hcontent : file.content = some content)
    (s : Counts) :
    input.issueRequest file.curl (input.request content) s =
      if Throws input file then .error .runtimeError s
      else .ok (decide (Succeeds input file)) s := by
  have hthrows := throws_iff input hcontent
  have hsucceeds := succeeds_iff input hcontent
  by_cases hinit : file.curl.easyInit = true
  · by_cases hset : HeadersSet file.curl (input.request content)
    · exact issueRequest_of_headersSet input hcontent hinit hset s
    · obtain ⟨session, hissue⟩ :=
        issue_of_not_headersSet input.base input.url input.port input.verbose hset hinit
      have hno : ¬Throws input file := fun h => hset (hthrows.mp h).2.1
      have hfails : ¬Succeeds input file := fun h => hset (hsucceeds.mp h).2.1
      rw [RequestInput.issueRequest, hissue, if_neg hno, decide_eq_false hfails]
      rfl
  · have hno : ¬Throws input file := fun h => hinit (hthrows.mp h).1
    have hfails : ¬Succeeds input file := fun h => hinit (hsucceeds.mp h).1
    rw [RequestInput.issueRequest, issue, if_neg hinit, if_neg hno, decide_eq_false hfails]
    rfl

end Files

section Process

variable (input : RequestInput)

/-- How many of the files fail. -/
def failures (files : List InputFile) : Nat := files.countP fun file => ¬Succeeds input file

/-- The loop does not begin another turn behind these files. -/
def StopsBehind (files : List InputFile) : Prop :=
  0 ≤ input.errorsAccepted ∧ input.errorsAccepted < failures input files

/-- Every file attempted is counted once, as processed or as failed. -/
structure Counted (s : Counts) : Prop where
  failed : s.nofRequestsFailed = failures input s.attempted
  processed : s.nofRequestsProcessed = s.attempted.countP fun file => Succeeds input file

/-- What `process` has to have done with the files when it returns. -/
structure Accounts (files : List InputFile) (result : Bool) (s : Counts) : Prop where
  ordered : s.attempted <+: files
  counted : Counted input s
  once : s.nofRequestsProcessed + s.nofRequestsFailed = s.attempted.length
  stopped : s.attempted ≠ files →
    0 ≤ input.errorsAccepted ∧ input.errorsAccepted < s.nofRequestsFailed
  result : result = true ↔ ∀ file ∈ s.attempted, Succeeds input file

/-- The client accounts for every file: `process` returns, and all files are accounted for. -/
def AccountsForFiles (argument : InputFile) (files : List InputFile) : Prop :=
  Wp (input.process argument files) (Accounts input files) (fun _ _ => False) {}

variable {input}

theorem Counted.once {s : Counts} (h : Counted input s) :
    s.nofRequestsProcessed + s.nofRequestsFailed = s.attempted.length := by
  rw [h.processed, h.failed, failures]
  have := List.length_eq_countP_add_countP (fun file => decide (Succeeds input file)) (l := s.attempted)
  simpa using this.symm

/-- A turn of the loop. -/
theorem processLoop_go {file : InputFile} {files : List InputFile} {rt : Bool} {s : Counts}
    (hgo : ¬(0 ≤ input.errorsAccepted ∧ input.errorsAccepted < s.nofRequestsFailed)) :
    input.processLoop (file :: files) rt s =
      if Throws input file then .error .runtimeError (s.attempt file)
      else if Succeeds input file then input.processLoop files rt (s.attempt file).succeed
      else input.processLoop files false (s.attempt file).fail := by
  rw [RequestInput.processLoop]
  show (if 0 ≤ input.errorsAccepted ∧ _ then pure false else _ : Processing Bool) s = _
  rw [if_neg hgo]
  cases hcontent : file.content with
  | none =>
      have hno : ¬Throws input file := by simp [Throws, hcontent]
      have hfails : ¬Succeeds input file := by simp [Succeeds, hcontent]
      rw [if_neg hno, if_neg hfails]
      rfl
  | some content =>
      have hrun := issueRequest_run input hcontent (s.attempt file)
      show (input.issueRequest file.curl (input.request content) >>= _ : Processing Bool)
        (s.attempt file) = _
      simp only [bind, EStateM.bind, hrun]
      by_cases hthrows : Throws input file
      · simp only [if_pos hthrows]
      · by_cases hsucceeds : Succeeds input file
        · simp only [if_neg hthrows, hsucceeds, decide_true, if_true]
          rfl
        · simp only [if_neg hthrows, hsucceeds, decide_false, if_false, Bool.false_eq_true]
          rfl

theorem processLoop_stop {file : InputFile} {files : List InputFile} {rt : Bool} {s : Counts}
    (hstop : 0 ≤ input.errorsAccepted ∧ input.errorsAccepted < s.nofRequestsFailed) :
    input.processLoop (file :: files) rt s = .ok false s := by
  rw [RequestInput.processLoop]
  show (if 0 ≤ input.errorsAccepted ∧ _ then pure false else _ : Processing Bool) s = _
  rw [if_pos hstop]
  rfl

theorem counted_succeed {s : Counts} {file : InputFile} (h : Counted input s)
    (hsucceeds : Succeeds input file) : Counted input (s.attempt file).succeed := by
  constructor
  · show s.nofRequestsFailed = failures input (s.attempted ++ [file])
    rw [h.failed, failures, failures, List.countP_append]
    simp [hsucceeds]
  · show s.nofRequestsProcessed + 1 = List.countP _ (s.attempted ++ [file])
    rw [h.processed, List.countP_append]
    simp [hsucceeds]

theorem counted_fail {s : Counts} {file : InputFile} (h : Counted input s)
    (hfails : ¬Succeeds input file) : Counted input (s.attempt file).fail := by
  constructor
  · show s.nofRequestsFailed + 1 = failures input (s.attempted ++ [file])
    rw [h.failed, failures, failures, List.countP_append]
    simp [hfails]
  · show s.nofRequestsProcessed = List.countP _ (s.attempted ++ [file])
    rw [h.processed, List.countP_append]
    simp [hfails]

theorem failures_append (files files' : List InputFile) :
    failures input (files ++ files') = failures input files + failures input files' :=
  List.countP_append

/-- The files of a loop that stops are accounted for, and one of them failed. -/
theorem accounts_stop {s : Counts} (hcounted : Counted input s)
    (hstop : 0 ≤ input.errorsAccepted ∧ input.errorsAccepted < s.nofRequestsFailed)
    (files : List InputFile) : Accounts input (s.attempted ++ files) false s := by
  refine ⟨List.prefix_append _ _, hcounted, hcounted.once, fun _ => hstop, ?_⟩
  rw [iff_false_left Bool.false_ne_true]
  intro hall
  have hzero : failures input s.attempted = 0 := by
    rw [failures, List.countP_eq_zero]
    intro file hfile
    simpa using hall file hfile
  rw [hcounted.failed, hzero] at hstop
  omega

/-- In a run in which no file throws that is reached, all files are accounted for. -/
theorem processLoop_accounts {files : List InputFile} {rt : Bool} {s : Counts}
    (hcounted : Counted input s) (hrt : rt = true ↔ ∀ file ∈ s.attempted, Succeeds input file)
    (h : ∀ before file after, files = before ++ file :: after →
      ¬StopsBehind input (s.attempted ++ before) → ¬Throws input file) :
    Wp (input.processLoop files rt) (Accounts input (s.attempted ++ files)) (fun _ _ => False) s := by
  induction files generalizing rt s with
  | nil =>
      show Accounts input (s.attempted ++ []) rt s
      rw [List.append_nil]
      exact ⟨List.prefix_rfl, hcounted, hcounted.once, fun hne => absurd rfl hne, hrt⟩
  | cons file files ih =>
      by_cases hstop : 0 ≤ input.errorsAccepted ∧ input.errorsAccepted < s.nofRequestsFailed
      · rw [Wp, processLoop_stop hstop]
        exact accounts_stop hcounted hstop (file :: files)
      · have hgo := hstop
        rw [hcounted.failed] at hgo
        have hthrows : ¬Throws input file := h [] file files rfl (by rwa [List.append_nil])
        have happend : s.attempted ++ file :: files = (s.attempted ++ [file]) ++ files := by simp
        have hlater : ∀ before file' after, files = before ++ file' :: after →
            ¬StopsBehind input ((s.attempted ++ [file]) ++ before) → ¬Throws input file' := by
          intro before file' after hsplit hgo'
          apply h (file :: before) file' after (by rw [hsplit, List.cons_append])
          simpa using hgo'
        rw [Wp, processLoop_go hstop, if_neg hthrows, happend]
        by_cases hsucceeds : Succeeds input file
        · rw [if_pos hsucceeds]
          apply ih (counted_succeed hcounted hsucceeds) _ hlater
          show rt = true ↔ ∀ file' ∈ s.attempted ++ [file], Succeeds input file'
          rw [hrt, List.forall_mem_append]
          simp [hsucceeds]
        · rw [if_neg hsucceeds]
          apply ih (counted_fail hcounted hsucceeds) _ hlater
          show false = true ↔ ∀ file' ∈ s.attempted ++ [file], Succeeds input file'
          rw [List.forall_mem_append]
          simp [hsucceeds]

/-- A file that throws and is reached ends the run. -/
theorem processLoop_error {before after : List InputFile} {file : InputFile} {rt : Bool} {s : Counts}
    (hcounted : Counted input s) (hgo : ¬StopsBehind input (s.attempted ++ before))
    (hthrows : Throws input file) :
    ∃ t, input.processLoop (before ++ file :: after) rt s = .error .runtimeError t := by
  induction before generalizing rt s with
  | nil =>
      rw [List.append_nil, StopsBehind, ← hcounted.failed] at hgo
      exact ⟨_, by rw [List.nil_append, processLoop_go hgo, if_pos hthrows]⟩
  | cons first before ih =>
      have hbegin : ¬(0 ≤ input.errorsAccepted ∧ input.errorsAccepted < s.nofRequestsFailed) := by
        intro hstop
        apply hgo
        refine ⟨hstop.1, ?_⟩
        rw [failures_append, ← hcounted.failed]
        omega
      have hnext : ¬StopsBehind input ((s.attempted ++ [first]) ++ before) := by
        rwa [List.append_assoc, List.singleton_append]
      rw [List.cons_append, processLoop_go hbegin]
      by_cases hfirst : Throws input first
      · exact ⟨_, if_pos hfirst⟩
      · rw [if_neg hfirst]
        by_cases hsucceeds : Succeeds input first
        · rw [if_pos hsucceeds]
          exact ih (counted_succeed hcounted hsucceeds) hnext
        · rw [if_neg hsucceeds]
          exact ih (counted_fail hcounted hsucceeds) hnext

/-- The client accounts for every file just if setting an option fails for no file that is
reached. -/
theorem accountsForFiles_iff (input : RequestInput) (argument first : InputFile)
    (files : List InputFile) :
    AccountsForFiles input argument (first :: files) ↔
      ∀ before file after, first :: files = before ++ file :: after →
        ¬StopsBehind input before → ¬Throws input file := by
  have hcounted : Counted input {} := ⟨rfl, rfl⟩
  constructor
  · intro h before file after hsplit hgo hthrows
    obtain ⟨t, herror⟩ := @processLoop_error _ before after file true _ hcounted hgo hthrows
    rw [AccountsForFiles, Wp, RequestInput.process, hsplit, herror] at h
    exact h
  · intro h
    have hrt : true = true ↔ ∀ file ∈ ({} : Counts).attempted, Succeeds input file := by simp
    exact processLoop_accounts hcounted hrt h

theorem nul_not_mem_textPlain : (0 : UInt8) ∉ str "text/plain" := by decide

theorem nul_not_mem_utf8 : (0 : UInt8) ∉ str "UTF-8" := by decide

def sampleInput : RequestInput :=
  { base := sampleBase
    version := sampleVersion
    method := str "PUT"
    url := str "http://localhost/"
    port := 80
    verbose := false
    errorsAccepted := -1
    doctype := ⟨str "text/plain", nul_not_mem_textPlain⟩
    encoding := ⟨str "UTF-8", nul_not_mem_utf8⟩
    http_accept := none }

/-- A file for which the URL is refused. -/
def refusedFile : InputFile :=
  { content := some (str "x")
    curl := { acceptingCurl with setopt := fun | .url _ => 43 | _ => CURLE_OK } }

/-- The second file is not attempted, and nothing is counted. -/
theorem accountsForFiles_refusedFile_not :
    (∃ t, sampleInput.process refusedFile [refusedFile, { refusedFile with curl := acceptingCurl }] {} =
        .error .runtimeError t ∧ t.nofRequestsFailed = 0 ∧ t.attempted.length = 1) ∧
      ¬AccountsForFiles sampleInput refusedFile
        [refusedFile, { refusedFile with curl := acceptingCurl }] := by
  have hthrows : Throws sampleInput refusedFile := by decide
  have hrun : sampleInput.process refusedFile
      [refusedFile, { refusedFile with curl := acceptingCurl }] {} =
        .error .runtimeError (({} : Counts).attempt refusedFile) := by
    rw [RequestInput.process, processLoop_go (by decide), if_pos hthrows]
  refine ⟨⟨_, hrun, rfl, rfl⟩, ?_⟩
  intro h
  rw [AccountsForFiles, Wp, hrun] at h
  exact h

end Process

end StrusWebService.CurlClient
