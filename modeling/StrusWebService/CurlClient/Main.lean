import StrusWebService.CurlClient.Process
import StrusWebService.CurlClient.Url

/-! # The client program

`main` reads the options in front of its arguments, builds the input of the requests from
the arguments behind them, and makes its exit code from what `process` says.
-/

namespace StrusWebService.CurlClient

open CString Throwing
open Text (str)

/-! ### Options -/

structure Options where
  http_accept : Option CStr := none
  verbose : Bool := false
  errorsAccepted : Int := -1

/-- How the program ends in the loop over the options. -/
inductive Ended where
  | help
  | thrown
  deriving DecidableEq

/-- The loop over the options; `touint` is the conversion of a number. The element behind
the last argument is a null pointer, which is an exception for both options with a value. -/
def parseOptions (touint : List UInt8 → Option Nat) :
    Options → List CStr → Except Ended (Options × List CStr)
  | o, [] => .ok (o, [])
  | o, arg :: args =>
      if arg.bytes.head? ≠ some 45 then .ok (o, arg :: args)
      else if arg.bytes = str "--" then .ok (o, args)
      else if arg.bytes = str "-h" ∨ arg.bytes = str "--help" then .error .help
      else if arg.bytes = str "-A" ∨ arg.bytes = str "--accept" then
        match args with
        | [] => .error .thrown
        | value :: args => parseOptions touint { o with http_accept := some value } args
      else if arg.bytes = str "-V" ∨ arg.bytes = str "--verbose" then
        parseOptions touint { o with verbose := true } args
      else if arg.bytes = str "-E" ∨ arg.bytes = str "--errors" then
        match args with
        | [] => .error .thrown
        | value :: args =>
            match touint value.bytes with
            | none => .error .thrown
            | some n => parseOptions touint { o with errorsAccepted := n } args
      else .error .thrown

/-- An option as it is written. -/
inductive Item where
  | accept (long : Bool) (value : CStr)
  | verbose (long : Bool)
  | errors (long : Bool) (value : CStr) (n : Nat)

def dashes : CStr := ⟨str "--", by decide⟩

def acceptWord (long : Bool) : CStr :=
  if long then ⟨str "--accept", by decide⟩ else ⟨str "-A", by decide⟩

def verboseWord (long : Bool) : CStr :=
  if long then ⟨str "--verbose", by decide⟩ else ⟨str "-V", by decide⟩

def errorsWord (long : Bool) : CStr :=
  if long then ⟨str "--errors", by decide⟩ else ⟨str "-E", by decide⟩

def helpWord (long : Bool) : CStr :=
  if long then ⟨str "--help", by decide⟩ else ⟨str "-h", by decide⟩

namespace Item

/-- The arguments of an option. -/
def words : Item → List CStr
  | .accept long value => [acceptWord long, value]
  | .verbose long => [verboseWord long]
  | .errors long value _ => [errorsWord long, value]

/-- A number is what the value is converted to. -/
def Valid (touint : List UInt8 → Option Nat) : Item → Prop
  | .errors _ value n => touint value.bytes = some n
  | _ => True

def apply (o : Options) : Item → Options
  | .accept _ value => { o with http_accept := some value }
  | .verbose _ => { o with verbose := true }
  | .errors _ _ n => { o with errorsAccepted := n }

end Item

section Parse

variable {touint : List UInt8 → Option Nat} {o : Options} {args rest : List CStr}

theorem parseOptions_accept (long : Bool) (value : CStr) :
    parseOptions touint o (acceptWord long :: value :: args) =
      parseOptions touint { o with http_accept := some value } args := by
  rw [parseOptions]
  cases long <;> rfl

theorem parseOptions_verbose (long : Bool) :
    parseOptions touint o (verboseWord long :: args) =
      parseOptions touint { o with verbose := true } args := by
  rw [parseOptions.eq_def]
  cases long <;> rfl

theorem parseOptions_errors (long : Bool) {value : CStr} {n : Nat}
    (h : touint value.bytes = some n) :
    parseOptions touint o (errorsWord long :: value :: args) =
      parseOptions touint { o with errorsAccepted := n } args := by
  rw [parseOptions]
  simp only [h]
  cases long <;> rfl

theorem parseOptions_help (long : Bool) :
    parseOptions touint o (helpWord long :: args) = .error .help := by
  rw [parseOptions.eq_def]
  cases long <;> rfl

theorem parseOptions_dashes : parseOptions touint o (dashes :: args) = .ok (o, args) := by
  rw [parseOptions.eq_def]
  rfl

theorem parseOptions_rest (h : ∀ first ∈ args.head?, first.bytes.head? ≠ some 45) :
    parseOptions touint o args = .ok (o, args) := by
  cases args with
  | nil => rfl
  | cons arg args =>
      rw [parseOptions.eq_def]
      exact if_pos (h arg rfl)

theorem parseOptions_item {item : Item} (h : item.Valid touint) :
    parseOptions touint o (item.words ++ args) = parseOptions touint (item.apply o) args := by
  cases item with
  | accept long value => exact parseOptions_accept long value
  | verbose long => exact parseOptions_verbose long
  | errors long value n => exact parseOptions_errors long h

theorem parseOptions_items {items : List Item} (h : ∀ item ∈ items, item.Valid touint) :
    parseOptions touint o (items.flatMap Item.words ++ args) =
      parseOptions touint (items.foldl Item.apply o) args := by
  induction items generalizing o with
  | nil => rfl
  | cons item items ih =>
      rw [List.flatMap_cons, List.append_assoc, parseOptions_item (h item List.mem_cons_self),
        ih fun item' hitem => h item' (List.mem_cons_of_mem item hitem)]
      rfl

/-- The arguments are options that are taken over, and then these. -/
def Leads (touint : List UInt8 → Option Nat) (o o' : Options) (args behind : List CStr) : Prop :=
  ∃ items : List Item, (∀ item ∈ items, item.Valid touint) ∧
    args = items.flatMap Item.words ++ behind ∧ o' = items.foldl Item.apply o

/-- The options end in front of these arguments, with the dashes or without. -/
def EndsBefore (behind rest : List CStr) : Prop :=
  behind = dashes :: rest ∨ behind = rest ∧ ∀ first ∈ rest.head?, first.bytes.head? ≠ some 45

theorem parseOptions_leads {o' : Options} {behind : List CStr} (h : Leads touint o o' args behind) :
    parseOptions touint o args = parseOptions touint o' behind := by
  rcases h with ⟨items, hvalid, rfl, rfl⟩
  exact parseOptions_items hvalid

theorem Leads.cons {item : Item} {o' : Options} {behind : List CStr} (hitem : item.Valid touint)
    (h : Leads touint (item.apply o) o' args behind) :
    Leads touint o o' (item.words ++ args) behind := by
  rcases h with ⟨items, hvalid, rfl, rfl⟩
  refine ⟨item :: items, ?_, ?_, rfl⟩
  · exact List.forall_mem_cons.mpr ⟨hitem, hvalid⟩
  · rw [List.flatMap_cons, List.append_assoc]

theorem Leads.refl : Leads touint o o args args := ⟨[], by simp, rfl, rfl⟩

theorem cstr_eq {arg word : CStr} (h : arg.bytes = word.bytes) : arg = word := by
  cases arg
  cases word
  cases h
  rfl

theorem eq_word {arg short long : CStr} (h : arg.bytes = short.bytes ∨ arg.bytes = long.bytes) :
    ∃ isLong : Bool, arg = if isLong then long else short := by
  rcases h with h | h
  · exact ⟨false, cstr_eq h⟩
  · exact ⟨true, cstr_eq h⟩

/-- What the arguments are for what the loop over the options ends with. -/
def Explains (touint : List UInt8 → Option Nat) (o : Options) (args : List CStr) :
    Except Ended (Options × List CStr) → Prop
  | .ok (o', rest) => ∃ behind, Leads touint o o' args behind ∧ EndsBefore behind rest
  | .error .help => ∃ o' long rest, Leads touint o o' args (helpWord long :: rest)
  | .error .thrown => True

theorem Explains.cons {item : Item} {result : Except Ended (Options × List CStr)}
    (hitem : item.Valid touint) (h : Explains touint (item.apply o) args result) :
    Explains touint o (item.words ++ args) result := by
  cases result with
  | ok parsed =>
      rcases h with ⟨behind, hleads, hends⟩
      exact ⟨behind, hleads.cons hitem, hends⟩
  | error ended =>
      cases ended with
      | help =>
          rcases h with ⟨o', long, rest, hleads⟩
          exact ⟨o', long, rest, hleads.cons hitem⟩
      | thrown => trivial

theorem parseOptions_explains (touint : List UInt8 → Option Nat) (o : Options) (args : List CStr) :
    Explains touint o args (parseOptions touint o args) := by
  fun_induction parseOptions touint o args with
  | case1 o => exact ⟨[], Leads.refl, .inr ⟨rfl, by simp⟩⟩
  | case2 o arg args h => exact ⟨arg :: args, Leads.refl, .inr ⟨rfl, by simpa using h⟩⟩
  | case3 o arg args _ hdashes =>
      have harg : arg = dashes := cstr_eq hdashes
      exact ⟨arg :: args, Leads.refl, .inl (by rw [harg])⟩
  | case4 o arg args _ _ hhelp =>
      obtain ⟨long, harg⟩ := @eq_word arg ⟨str "-h", by decide⟩ ⟨str "--help", by decide⟩ hhelp
      subst harg
      exact ⟨o, long, args, Leads.refl⟩
  | case6 o arg _ _ _ haccept value args ih =>
      obtain ⟨long, harg⟩ :=
        @eq_word arg ⟨str "-A", by decide⟩ ⟨str "--accept", by decide⟩ haccept
      subst harg
      exact @Explains.cons _ _ _ (.accept long value) _ trivial ih
  | case7 o arg args _ _ _ _ hverbose ih =>
      obtain ⟨long, harg⟩ :=
        @eq_word arg ⟨str "-V", by decide⟩ ⟨str "--verbose", by decide⟩ hverbose
      subst harg
      exact @Explains.cons _ _ _ (.verbose long) _ trivial ih
  | case10 o arg _ _ _ _ _ herrors value args n hvalue ih =>
      obtain ⟨long, harg⟩ :=
        @eq_word arg ⟨str "-E", by decide⟩ ⟨str "--errors", by decide⟩ herrors
      subst harg
      exact @Explains.cons _ _ _ (.errors long value n) _ hvalue ih
  | case5 => trivial
  | case8 => trivial
  | case9 => trivial
  | case11 => trivial

/-- The options are taken over just if they are spelled out, each with its value, up to the
dashes or to an argument that is no option; and the help is printed just if an option for it
stands behind such options. -/
theorem parseOptions_iff (touint : List UInt8 → Option Nat) (o : Options) (args : List CStr) :
    (∀ o' rest, parseOptions touint o args = .ok (o', rest) ↔
      ∃ behind, Leads touint o o' args behind ∧ EndsBefore behind rest) ∧
    (parseOptions touint o args = .error .help ↔
      ∃ o' long rest, Leads touint o o' args (helpWord long :: rest)) := by
  have hexplains := parseOptions_explains touint o args
  refine ⟨?_, ?_⟩
  · intro o' rest
    constructor
    · intro h
      rwa [h] at hexplains
    · intro h
      rcases h with ⟨behind, hleads, hends⟩
      rw [parseOptions_leads hleads]
      rcases hends with rfl | ⟨rfl, hrest⟩
      · exact parseOptions_dashes
      · exact parseOptions_rest hrest
  · constructor
    · intro h
      rwa [h] at hexplains
    · intro h
      rcases h with ⟨o', long, rest, hleads⟩
      rw [parseOptions_leads hleads]
      exact parseOptions_help long

end Parse

/-! ### The requests -/

section Requests

variable {input : RequestInput}

/-- What holds of the counters and the result between two turns of the loop. -/
structure Going (input : RequestInput) (rt : Bool) (s : Counts) : Prop where
  counted : Counted input s
  result : rt = true ↔ failures input s.attempted = 0
  unthrown : ∀ file ∈ s.attempted, ¬Throws input file
  bound : 0 ≤ input.errorsAccepted → failures input s.attempted ≤ input.errorsAccepted + 1

theorem going_begin : Going input true {} := by
  refine ⟨⟨rfl, rfl⟩, ?_, ?_, ?_⟩
  · exact iff_of_true rfl rfl
  · exact List.forall_mem_nil _
  · intro haccepted
    show ((0 : Nat) : Int) ≤ _
    omega

theorem failures_singleton (file : InputFile) :
    failures input [file] = if Succeeds input file then 0 else 1 := by
  by_cases h : Succeeds input file
  · simp [failures, h]
  · simp [failures, h]

theorem Going.succeed {rt : Bool} {s : Counts} {file : InputFile} (h : Going input rt s)
    (hsucceeds : Succeeds input file) (hthrows : ¬Throws input file) :
    Going input rt (s.attempt file).succeed := by
  have hfailures : failures input (s.attempted ++ [file]) = failures input s.attempted := by
    rw [failures_append, failures_singleton, if_pos hsucceeds, Nat.add_zero]
  refine ⟨counted_succeed h.counted hsucceeds, ?_, ?_, ?_⟩
  · show _ ↔ failures input (s.attempted ++ [file]) = 0
    rw [hfailures, h.result]
  · exact List.forall_mem_append.mpr ⟨h.unthrown, by simpa using hthrows⟩
  · show _ → (failures input (s.attempted ++ [file]) : Int) ≤ _
    rw [hfailures]
    exact h.bound

theorem Going.fail {rt : Bool} {s : Counts} {file : InputFile} (h : Going input rt s)
    (hfails : ¬Succeeds input file) (hthrows : ¬Throws input file)
    (hgo : ¬StopsBehind input s.attempted) : Going input false (s.attempt file).fail := by
  have hfailures : failures input (s.attempted ++ [file]) = failures input s.attempted + 1 := by
    rw [failures_append, failures_singleton, if_neg hfails]
  refine ⟨counted_fail h.counted hfails, ?_, ?_, ?_⟩
  · show _ ↔ failures input (s.attempted ++ [file]) = 0
    rw [hfailures]
    exact iff_of_false Bool.false_ne_true (Nat.succ_ne_zero _)
  · exact List.forall_mem_append.mpr ⟨h.unthrown, by simpa using hthrows⟩
  · show _ → (failures input (s.attempted ++ [file]) : Int) ≤ _
    intro haccepted
    have hle : ¬input.errorsAccepted < failures input s.attempted := fun hlt => hgo ⟨haccepted, hlt⟩
    rw [hfailures]
    omega

/-- The loop has come so far: to the end, or to the first file behind too many failures. -/
def Through (input : RequestInput) (files : List InputFile) (rt : Bool) (s : Counts) : Prop :=
  Going input rt s ∧ ∃ behind, files = s.attempted ++ behind ∧
    (behind ≠ [] → StopsBehind input s.attempted)

/-- A file that is reached throws. -/
def ReachesThrowing (input : RequestInput) (files : List InputFile) : Prop :=
  ∃ before file after, files = before ++ file :: after ∧ ¬StopsBehind input before ∧
    Throws input file

/-- The loop leaves by an exception only at a file that throws. -/
theorem processLoop_through {files : List InputFile} {rt : Bool} {s : Counts}
    (h : Going input rt s) :
    Wp (input.processLoop files rt) (Through input (s.attempted ++ files))
      (fun _ _ => ReachesThrowing input (s.attempted ++ files)) s := by
  induction files generalizing rt s with
  | nil => exact ⟨h, [], rfl, fun hne => absurd rfl hne⟩
  | cons file files ih =>
      have happend : s.attempted ++ file :: files = (s.attempted ++ [file]) ++ files := by simp
      by_cases hstop : 0 ≤ input.errorsAccepted ∧ input.errorsAccepted < s.nofRequestsFailed
      · have hstops : StopsBehind input s.attempted := by
          rw [StopsBehind, ← h.counted.failed]
          exact hstop
        have hresult : rt = false := by
          cases rt with
          | false => rfl
          | true =>
              have hzero := h.result.mp rfl
              rw [h.counted.failed, hzero] at hstop
              omega
        rw [Wp, processLoop_stop hstop]
        rw [hresult] at h
        exact ⟨h, file :: files, rfl, fun _ => hstops⟩
      · have hgo : ¬StopsBehind input s.attempted := by
          rw [StopsBehind, ← h.counted.failed]
          exact hstop
        rw [Wp, processLoop_go hstop]
        by_cases hthrows : Throws input file
        · rw [if_pos hthrows]
          exact ⟨s.attempted, file, files, rfl, hgo, hthrows⟩
        · rw [if_neg hthrows, happend]
          by_cases hsucceeds : Succeeds input file
          · rw [if_pos hsucceeds]
            exact ih (h.succeed hsucceeds hthrows)
          · rw [if_neg hsucceeds]
            exact ih (h.fail hsucceeds hthrows hgo)

end Requests

/-! ### The program -/

/-- What the program reads, and what libcurl answers to the request for the argument. -/
structure World where
  touint : List UInt8 → Option Nat
  base : StrusBase
  version : CStr
  expandFilePattern : List UInt8 → Option (List InputFile)
  guessContentType : List UInt8 → Option CStr
  guessCharsetEncoding : List UInt8 → Option CStr
  curl : Curl

/-- `RequestInput` behind its constructor, with the arguments of `process`. -/
structure Prepared where
  input : RequestInput
  argument : InputFile
  filelist : List InputFile

inductive Outcome where
  | help
  | usage
  | error
  | failed (nofRequestsFailed nofRequests : Nat)
  | ok (nofRequestsProcessed : Nat)
  deriving DecidableEq

def Outcome.code : Outcome → Int
  | .help => 0
  | .usage => -1
  | .error => -1
  | .failed _ _ => -2
  | .ok _ => 0

def textPlain : CStr := ⟨str "text/plain", nul_not_mem_textPlain⟩
def utf8 : CStr := ⟨str "UTF-8", nul_not_mem_utf8⟩

section Main

variable (w : World) (args : List CStr)

/-- `RequestInput::RequestInput`: the files, the content, the document type and the encoding. -/
def requestInput (arg : CStr) (http_accept : Option CStr) :
    Option (List InputFile × List UInt8 × CStr × CStr) :=
  match arg.bytes with
  | 64 :: pattern => do
      let filelist ← w.expandFilePattern pattern
      let first ← filelist.head?
      let content ← first.content
      let doctype ← w.guessContentType content
      let encoding ← w.guessCharsetEncoding content
      some (filelist, content, doctype, encoding)
  | content => some ([], content, http_accept.getD textPlain, utf8)

/-- `main` up to the call of `process`. -/
def prepare : Except Outcome Prepared :=
  match parseOptions w.touint {} args with
  | .error .help => .error .help
  | .error .thrown => .error .error
  | .ok (o, method :: url :: parameters) =>
      match requestInput w (parameters.head?.getD noValue) o.http_accept with
      | none => .error .error
      | some (filelist, content, doctype, encoding) =>
          .ok
            { input :=
                { base := w.base
                  version := w.version
                  method := method.bytes
                  url := getUrl url.bytes
                  port := getPort url.bytes
                  verbose := o.verbose
                  errorsAccepted := o.errorsAccepted
                  doctype := doctype
                  encoding := encoding
                  http_accept := o.http_accept }
              argument := ⟨some content, w.curl⟩
              filelist := filelist }
  | .ok _ => .error .usage

def main : Outcome :=
  match prepare w args with
  | .error outcome => outcome
  | .ok p =>
      match p.input.process p.argument p.filelist {} with
      | .ok true s => .ok s.nofRequestsProcessed
      | .ok false s => .failed s.nofRequestsFailed (s.nofRequestsProcessed + s.nofRequestsFailed)
      | .error _ _ => .error

/-- The requests to issue, one for each file, or else the one for the argument. -/
def Prepared.requests (p : Prepared) : List InputFile :=
  if p.filelist = [] then [p.argument] else p.filelist

variable {w args}

theorem prepare_argument {p : Prepared} (h : prepare w args = .ok p) :
    ∃ content, p.argument.content = some content := by
  unfold prepare at h
  split at h
  · cases h
  · cases h
  · split at h
    · cases h
    · cases h
      exact ⟨_, rfl⟩
  · cases h

/-- What is counted for the requests. -/
structure Reported (p : Prepared) (rt : Bool) (s : Counts) : Prop where
  result : rt = true ↔ s.nofRequestsFailed = 0
  reaches : ∃ attempted behind, p.requests = attempted ++ behind ∧
    s.nofRequestsFailed = failures p.input attempted ∧
    s.nofRequestsProcessed + s.nofRequestsFailed = attempted.length ∧
    (∀ file ∈ attempted, ¬Throws p.input file) ∧
    (behind ≠ [] → StopsBehind p.input attempted) ∧
    (0 ≤ p.input.errorsAccepted → s.nofRequestsFailed ≤ p.input.errorsAccepted + 1)

theorem Through.reported {p : Prepared} {rt : Bool} {s : Counts}
    (h : Through p.input p.requests rt s) : Reported p rt s := by
  rcases h with ⟨hgoing, behind, hrequests, hstops⟩
  refine ⟨?_, s.attempted, behind, hrequests, hgoing.counted.failed, hgoing.counted.once,
    hgoing.unthrown, hstops, ?_⟩
  · rw [hgoing.result, hgoing.counted.failed]
  · rw [hgoing.counted.failed]
    exact hgoing.bound

/-- The request for the argument, when there are no files. -/
theorem process_argument {input : RequestInput} {argument : InputFile} {content : List UInt8}
    (hcontent : argument.content = some content) :
    input.process argument [] {} =
      if Throws input argument then .error .runtimeError {}
      else if Succeeds input argument then .ok true ({} : Counts).succeed
      else .ok false ({} : Counts).fail := by
  have hrun := issueRequest_run input hcontent {}
  show (input.issueRequest argument.curl (input.request (argument.content.getD [])) >>= _ :
    Processing Bool) {} = _
  rw [hcontent, Option.getD_some]
  simp only [bind, EStateM.bind, hrun]
  by_cases hthrows : Throws input argument
  · simp only [if_pos hthrows]
  · by_cases hsucceeds : Succeeds input argument
    · simp only [if_neg hthrows, hsucceeds, decide_true, if_true]
      rfl
    · simp only [if_neg hthrows, hsucceeds, decide_false, if_false, Bool.false_eq_true]
      rfl

theorem not_stopsBehind_nil {input : RequestInput} : ¬StopsBehind input [] := by
  intro h
  rcases h with ⟨haccepted, hfailures⟩
  rw [failures, List.countP_nil] at hfailures
  omega

theorem process_reported {p : Prepared} (h : ∃ content, p.argument.content = some content) :
    Wp (p.input.process p.argument p.filelist) (Reported p)
      (fun _ _ => ReachesThrowing p.input p.requests) {} := by
  rcases h with ⟨content, hcontent⟩
  cases hfiles : p.filelist with
  | nil =>
      have hrequests : p.requests = [] ++ [p.argument] := if_pos hfiles
      rw [Wp, process_argument hcontent]
      by_cases hthrows : Throws p.input p.argument
      · rw [if_pos hthrows]
        exact ⟨[], p.argument, [], hrequests, not_stopsBehind_nil, hthrows⟩
      · have hunthrown : ∀ file ∈ [p.argument], ¬Throws p.input file := by simpa using hthrows
        have hone := @failures_singleton p.input p.argument
        rw [if_neg hthrows]
        by_cases hsucceeds : Succeeds p.input p.argument
        · rw [if_pos hsucceeds] at hone ⊢
          refine ⟨iff_of_true rfl rfl, [p.argument], [], hrequests, hone.symm, rfl, hunthrown,
            fun hne => absurd rfl hne, ?_⟩
          show _ → ((0 : Nat) : Int) ≤ _
          omega
        · rw [if_neg hsucceeds] at hone ⊢
          refine ⟨iff_of_false Bool.false_ne_true (Nat.succ_ne_zero 0), [p.argument], [], hrequests,
            hone.symm, rfl, hunthrown, fun hne => absurd rfl hne, ?_⟩
          show _ → ((1 : Nat) : Int) ≤ _
          omega
  | cons first files =>
      have hrequests : p.requests = first :: files := by
        rw [Prepared.requests, hfiles, if_neg (List.cons_ne_nil first files)]
      have hloop := @processLoop_through p.input (first :: files) true {} going_begin
      rw [List.nil_append, ← hrequests] at hloop
      show Wp (p.input.processLoop (first :: files) true) _ _ {}
      rw [← hrequests]
      exact hloop.mono (fun _ _ h => h.reported) (fun _ _ h => h)

theorem failures_eq_zero_iff {input : RequestInput} {files : List InputFile} :
    failures input files = 0 ↔ ∀ file ∈ files, Succeeds input file := by
  rw [failures, List.countP_eq_zero]
  simp

theorem not_throws_of_succeeds {input : RequestInput} {file : InputFile} (h : Succeeds input file) :
    ¬Throws input file := by
  rcases h with ⟨content, hcontent, -, -, hopts, -⟩
  intro h
  rcases h with ⟨content', hcontent', -, -, opt, hopt, hfail⟩
  rw [hcontent] at hcontent'
  cases hcontent'
  exact hfail (hopts opt hopt)

theorem StopsBehind.append {input : RequestInput} {files : List InputFile}
    (h : StopsBehind input files) (behind : List InputFile) :
    StopsBehind input (files ++ behind) := by
  refine ⟨h.1, ?_⟩
  rw [failures_append]
  have := h.2
  omega

/-- A loop that came so far reaches no file that throws. -/
theorem not_reachesThrowing {input : RequestInput} {attempted behind : List InputFile}
    (hunthrown : ∀ file ∈ attempted, ¬Throws input file)
    (hstops : behind ≠ [] → StopsBehind input attempted) :
    ¬ReachesThrowing input (attempted ++ behind) := by
  intro h
  rcases h with ⟨before, file, after, hsplit, hgo, hthrows⟩
  rcases List.append_eq_append_iff.mp hsplit with ⟨more, hbefore, hbehind⟩ | ⟨more, hbefore, hbehind⟩
  · have hne : behind ≠ [] := by
      rw [hbehind]
      simp
    rw [hbefore] at hgo
    exact hgo ((hstops hne).append more)
  · cases more with
    | nil =>
        rw [List.nil_append] at hbehind
        rw [List.append_nil] at hbefore
        rw [hbefore] at hstops
        exact hgo (hstops (by rw [← hbehind]; exact List.cons_ne_nil file after))
    | cons first more =>
        rw [List.cons_append] at hbehind
        cases hbehind
        exact hunthrown file (by rw [hbefore]; simp) hthrows

/-- The loop does not stop before the first failure. -/
theorem behind_eq_nil {input : RequestInput} {attempted behind : List InputFile}
    (hstops : behind ≠ [] → StopsBehind input attempted) (h : failures input attempted = 0) :
    behind = [] := by
  by_contra hne
  have hstop := (hstops hne).2
  have haccepted := (hstops hne).1
  rw [h] at hstop
  omega

theorem Reported.result_iff {p : Prepared} {rt : Bool} {s : Counts} (h : Reported p rt s) :
    rt = true ↔ ∀ file ∈ p.requests, Succeeds p.input file := by
  obtain ⟨attempted, behind, hrequests, hfailed, -, -, hstops, -⟩ := h.reaches
  rw [h.result, hfailed, hrequests, List.forall_mem_append, failures_eq_zero_iff]
  constructor
  · intro hall
    have hbehind := behind_eq_nil hstops (failures_eq_zero_iff.mpr hall)
    exact ⟨hall, by simp [hbehind]⟩
  · exact And.left

theorem Reported.processed {p : Prepared} {s : Counts} (h : Reported p true s) :
    s.nofRequestsProcessed = p.requests.length := by
  obtain ⟨attempted, behind, hrequests, hfailed, honce, -, hstops, -⟩ := h.reaches
  have hzero := h.result.mp rfl
  rw [hzero, Nat.add_zero] at honce
  rw [hzero] at hfailed
  rw [hrequests, behind_eq_nil hstops hfailed.symm, List.append_nil, honce]

theorem Reported.not_reachesThrowing {p : Prepared} {rt : Bool} {s : Counts}
    (h : Reported p rt s) : ¬ReachesThrowing p.input p.requests := by
  obtain ⟨attempted, behind, hrequests, -, -, hunthrown, hstops, -⟩ := h.reaches
  rw [hrequests]
  exact CurlClient.not_reachesThrowing hunthrown hstops

theorem prepare_error {outcome : Outcome} (h : prepare w args = .error outcome) :
    (outcome.code = 0 ↔ parseOptions w.touint {} args = .error .help) ∧ outcome.code ≠ -2 := by
  unfold prepare at h
  split at h
  · cases h
    exact ⟨iff_of_true rfl (by assumption), by decide⟩
  · rename_i hparse
    cases h
    rw [hparse]
    exact ⟨by simp [Outcome.code], by decide⟩
  · rename_i hparse
    rw [hparse]
    split at h
    · cases h
      exact ⟨by simp [Outcome.code], by decide⟩
    · cases h
  · rename_i hparse
    cases h
    rw [hparse]
    exact ⟨by simp [Outcome.code], by decide⟩

theorem not_forall_succeeds {input : RequestInput} {files : List InputFile}
    (h : ReachesThrowing input files) : ¬∀ file ∈ files, Succeeds input file := by
  rcases h with ⟨before, file, after, hfiles, -, hthrows⟩
  intro hall
  have hmem : file ∈ files := by
    rw [hfiles]
    exact List.mem_append_right before List.mem_cons_self
  exact not_throws_of_succeeds (hall file hmem) hthrows

theorem prepare_help (h : parseOptions w.touint {} args = .error .help) :
    prepare w args = .error .help := by
  rw [prepare, h]

/-- What the program says, for the requests it has prepared. -/
def Says (p : Prepared) : Outcome → Prop
  | .ok nofRequestsProcessed => nofRequestsProcessed = p.requests.length ∧
      ∀ file ∈ p.requests, Succeeds p.input file
  | .failed nofRequestsFailed nofRequests =>
      (∃ file ∈ p.requests, ¬Succeeds p.input file) ∧
      ¬ReachesThrowing p.input p.requests ∧
      ∃ attempted behind, p.requests = attempted ++ behind ∧ nofRequests = attempted.length ∧
        nofRequestsFailed = failures p.input attempted ∧
        (behind ≠ [] → nofRequestsFailed = p.input.errorsAccepted + 1) ∧
        (0 ≤ p.input.errorsAccepted → nofRequestsFailed ≤ p.input.errorsAccepted + 1)
  | .error => ReachesThrowing p.input p.requests
  | .help => False
  | .usage => False

theorem says_of_prepare {p : Prepared} (h : prepare w args = .ok p) : Says p (main w args) := by
  have hreported := process_reported (prepare_argument h)
  unfold Wp at hreported
  unfold main
  rw [h]
  show Says p (match p.input.process p.argument p.filelist {} with
    | .ok true s => .ok s.nofRequestsProcessed
    | .ok false s => .failed s.nofRequestsFailed (s.nofRequestsProcessed + s.nofRequestsFailed)
    | .error _ _ => .error)
  cases hrun : p.input.process p.argument p.filelist {} with
  | error e s =>
      rw [hrun] at hreported
      exact hreported
  | ok rt s =>
      rw [hrun] at hreported
      have hreached : Reported p rt s := hreported
      obtain ⟨attempted, behind, hrequests, hfailed, honce, hunthrown, hstops, hbound⟩ :=
        hreached.reaches
      cases rt with
      | true =>
          exact ⟨hreached.processed, hreached.result_iff.mp rfl⟩
      | false =>
          have hfails := mt hreached.result_iff.mpr Bool.false_ne_true
          refine ⟨by simpa using hfails, hreached.not_reachesThrowing, attempted, behind, hrequests,
            honce, hfailed, ?_, hbound⟩
          intro hne
          have hstop := hstops hne
          have := hbound hstop.1
          have := hstop.2
          rw [← hfailed] at this
          omega

theorem code_of_says {p : Prepared} {outcome : Outcome} (hsaid : Says p outcome) :
    (outcome.code = 0 ↔ ∀ file ∈ p.requests, Succeeds p.input file) ∧
    (outcome.code = -2 ↔ (∃ file ∈ p.requests, ¬Succeeds p.input file) ∧
      ¬ReachesThrowing p.input p.requests) := by
  cases outcome with
  | help =>
      exact hsaid.elim
  | usage =>
      exact hsaid.elim
  | error =>
      refine ⟨iff_of_false (by decide) (not_forall_succeeds hsaid), iff_of_false (by decide) ?_⟩
      exact fun h => h.2 hsaid
  | failed nofRequestsFailed nofRequests =>
      refine ⟨iff_of_false (by simp [Outcome.code]) ?_, iff_of_true rfl ⟨hsaid.1, hsaid.2.1⟩⟩
      rcases hsaid.1 with ⟨file, hfile, hfails⟩
      exact fun hall => hfails (hall file hfile)
  | ok nofRequestsProcessed =>
      refine ⟨iff_of_true rfl hsaid.2, iff_of_false (by simp [Outcome.code]) ?_⟩
      intro h
      rcases h with ⟨⟨file, hfile, hfails⟩, -⟩
      exact hfails (hsaid.2 file hfile)

/-- The program ends with 0 just if the help is asked for or if all requests succeed, and
with -2 just if one of them fails and none throws that is reached. The failures it reports
are those of the first requests, of all of them or up to the first one too many. -/
theorem code_iff (w : World) (args : List CStr) :
    ((main w args).code = 0 ↔ parseOptions w.touint {} args = .error .help ∨
      ∃ p, prepare w args = .ok p ∧ ∀ file ∈ p.requests, Succeeds p.input file) ∧
    ((main w args).code = -2 ↔ ∃ p, prepare w args = .ok p ∧
      (∃ file ∈ p.requests, ¬Succeeds p.input file) ∧ ¬ReachesThrowing p.input p.requests) ∧
    (∀ nofRequestsFailed nofRequests, main w args = .failed nofRequestsFailed nofRequests →
      ∃ p attempted behind, prepare w args = .ok p ∧ p.requests = attempted ++ behind ∧
        nofRequests = attempted.length ∧ nofRequestsFailed = failures p.input attempted ∧
        (behind ≠ [] → nofRequestsFailed = p.input.errorsAccepted + 1)) := by
  cases hprepare : prepare w args with
  | error outcome =>
      have hmain : main w args = outcome := by rw [main, hprepare]
      have hcode := prepare_error hprepare
      rw [hmain, hcode.1]
      refine ⟨by simp, by simp [hcode.2], ?_⟩
      intro nofRequestsFailed nofRequests houtcome
      rw [houtcome] at hcode
      exact absurd rfl hcode.2
  | ok p =>
      have hsaid := says_of_prepare hprepare
      have hnohelp : parseOptions w.touint {} args ≠ .error .help := by
        intro hhelp
        rw [prepare_help hhelp] at hprepare
        cases hprepare
      simp only [hnohelp, false_or, Except.ok.injEq, exists_eq_left']
      rw [← and_assoc]
      refine ⟨?_, fun nofRequestsFailed nofRequests houtcome => ?_⟩
      · exact code_of_says hsaid
      · rw [houtcome] at hsaid
        obtain ⟨-, -, attempted, behind, hrequests, hcount, hfailed, hstops, -⟩ := hsaid
        exact ⟨p, attempted, behind, rfl, hrequests, hcount, hfailed, hstops⟩

end Main

end StrusWebService.CurlClient
