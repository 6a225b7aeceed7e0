import StrusWebService.Library.Text

/-! # The public URL of the service

`ServiceClosure::init` composes the URL all links start with from the configured server and
script. Whether the server has a scheme is decided by a scan of its first letters.
-/

namespace StrusWebService.BaseUrl

open Text (colon slash str)

/-- `((ch|32) >= 'a' && (ch|32) <= 'z')` -/
def isAlpha (ch : UInt8) : Bool := 97 ≤ (ch ||| 32) && (ch ||| 32) ≤ 122

/-- The scan over the letters ends at a colon. -/
def url_has_protocol_prefix (url : List UInt8) : Bool :=
  (url.dropWhile isAlpha).head? == some colon

def http : List UInt8 := str "http"

def schemeMark : List UInt8 := str "://"

/-- `m_http_server_url` behind the composition. A script that starts with a slash is appended
as a C string, up to its first NUL byte. -/
def http_server_url (http_server_name http_script_name : List UInt8) : List UInt8 :=
  if http_server_name = [] then []
  else
    (if url_has_protocol_prefix http_server_name then [] else http ++ schemeMark) ++
      http_server_name ++ [slash] ++
      (if http_script_name = [] then []
      else
        (if http_script_name.head? = some slash then
          (http_script_name.drop 1).takeWhile (· != 0)
        else http_script_name) ++ [slash])

def Letter (ch : UInt8) : Prop := 65 ≤ ch ∧ ch ≤ 90 ∨ 97 ≤ ch ∧ ch ≤ 122

instance : DecidablePred Letter := fun ch =>
  inferInstanceAs (Decidable (65 ≤ ch ∧ ch ≤ 90 ∨ 97 ≤ ch ∧ ch ≤ 122))

def Digit (ch : UInt8) : Prop := 48 ≤ ch ∧ ch ≤ 57

instance : DecidablePred Digit := fun ch => inferInstanceAs (Decidable (48 ≤ ch ∧ ch ≤ 57))

/-- A configured server in its parts. -/
structure ServerName where
  scheme : Option (List UInt8)
  host : List UInt8
  port : Option (List UInt8)
  scheme_letters : ∀ s ∈ scheme, s ≠ [] ∧ ∀ c ∈ s, Letter c
  host_ne_nil : host ≠ []
  host_colon : colon ∉ host
  host_slash : slash ∉ host
  port_digits : ∀ p ∈ port, p ≠ [] ∧ ∀ c ∈ p, Digit c

namespace ServerName

variable (server : ServerName)

/-- The host and the port. -/
def authority : List UInt8 :=
  match server.port with
  | none => server.host
  | some port => server.host ++ colon :: port

/-- The value of `http.server`. -/
def name : List UInt8 :=
  match server.scheme with
  | none => server.authority
  | some scheme => scheme ++ schemeMark ++ server.authority

/-- The scheme that is given, or the one for none. -/
def schemeOrHttp : List UInt8 := server.scheme.getD http

end ServerName

/-- The script with its slash behind it, and without one in front. -/
def scriptPart (script : List UInt8) : List UInt8 :=
  if script = [] then []
  else (if script.head? = some slash then script.drop 1 else script) ++ [slash]

/-- The URL every link starts with is the one with the scheme, the host and the script. -/
def IsAbsolute (server : ServerName) (script : List UInt8) : Prop :=
  http_server_url server.name script =
    server.schemeOrHttp ++ schemeMark ++ server.authority ++ [slash] ++ scriptPart script

section Prefix

theorem isAlpha_iff {ch : UInt8} : isAlpha ch = true ↔ Letter ch := by
  have hall : ∀ n < 256, isAlpha (UInt8.ofNat n) = true ↔ Letter (UInt8.ofNat n) := by
    decide +kernel
  have := hall ch.toNat ch.toNat_lt
  rwa [UInt8.ofNat_toNat] at this

/-- A scheme is found. -/
theorem prefix_of_letters {letters : List UInt8} (h : ∀ c ∈ letters, Letter c) (rest : List UInt8) :
    url_has_protocol_prefix (letters ++ colon :: rest) = true := by
  have hstop : ∀ c ∈ (colon :: rest).head?, isAlpha c = false := by
    intro c hc
    cases hc
    decide
  rw [ url_has_protocol_prefix, dropWhile_append_stop (fun c hc => isAlpha_iff.mpr (h c hc)) hstop]
  rfl

/-- A host with another character is not taken for a scheme. -/
theorem prefix_of_not_letter {host : List UInt8} (hcolon : colon ∉ host) (h : ∃ c ∈ host, ¬Letter c)
    (rest : List UInt8) : url_has_protocol_prefix (host ++ rest) = false := by
  induction host with
  | nil => simp at h
  | cons c host ih =>
      by_cases hc : Letter c
      · have hmore : ∃ d ∈ host, ¬Letter d := by
          rcases h with ⟨d, hd, hno⟩
          cases List.mem_cons.mp hd with
          | inl heq => exact absurd hc (heq ▸ hno)
          | inr hmem => exact ⟨d, hmem, hno⟩
        have hrest := ih (fun hmem => hcolon (List.mem_cons_of_mem c hmem)) hmore
        rwa [ url_has_protocol_prefix, List.cons_append,
          List.dropWhile_cons_of_pos (isAlpha_iff.mpr hc)]
      · have hno : ¬isAlpha c = true := fun hyes => hc (isAlpha_iff.mp hyes)
        have hne : c ≠ colon := fun heq => hcolon (heq ▸ List.mem_cons_self)
        rw [ url_has_protocol_prefix, List.cons_append, List.dropWhile_cons_of_neg hno]
        simpa using hne

theorem prefix_of_host {host : List UInt8} (hcolon : colon ∉ host) :
    url_has_protocol_prefix host = false := by
  by_cases h : ∃ c ∈ host, ¬Letter c
  · have hfalse := prefix_of_not_letter hcolon h []
    rwa [List.append_nil] at hfalse
  · have hall : ∀ c ∈ host, isAlpha c = true := by
      intro c hc
      by_contra hno
      exact h ⟨c, hc, fun hletter => hno (isAlpha_iff.mpr hletter)⟩
    rw [ url_has_protocol_prefix, List.dropWhile_eq_nil_iff.mpr hall]
    rfl

/-- When the scan says of a server whether it has a scheme. -/
theorem prefix_iff (server : ServerName) :
    url_has_protocol_prefix server.name = server.scheme.isSome ↔
      server.scheme.isSome ∨ server.port = none ∨ ∃ c ∈ server.host, ¬Letter c := by
  unfold ServerName.name ServerName.authority
  cases hscheme : server.scheme with
  | some scheme =>
      have hletters := (server.scheme_letters scheme hscheme).2
      apply iff_of_true _ (Or.inl rfl)
      show url_has_protocol_prefix (scheme ++ [colon, slash, slash] ++ _) = true
      rw [List.append_assoc]
      exact prefix_of_letters hletters _
  | none =>
      rw [Option.isSome_none, or_iff_right Bool.false_ne_true]
      cases hport : server.port with
      | none => exact iff_of_true (prefix_of_host server.host_colon) (Or.inl rfl)
      | some port =>
          rw [or_iff_right (by simp)]
          constructor
          · intro hfalse
            by_contra hno
            have hall : ∀ c ∈ server.host, Letter c := by
              intro c hc
              by_contra hletter
              exact hno ⟨c, hc, hletter⟩
            exact Bool.false_ne_true (hfalse.symm.trans (prefix_of_letters hall port))
          · intro h
            exact prefix_of_not_letter server.host_colon h _

end Prefix

section Composition

/-- The part of the URL that comes from the script. -/
def scriptTail (script : List UInt8) : List UInt8 :=
  if script = [] then []
  else
    (if script.head? = some slash then (script.drop 1).takeWhile (· != 0) else script) ++ [slash]

/-- A script is kept but for what is behind a NUL byte of one that starts with a slash. -/
theorem scriptTail_eq_iff {script : List UInt8} :
    scriptTail script = scriptPart script ↔ (script.head? = some slash → 0 ∉ script) := by
  unfold scriptTail scriptPart
  cases script with
  | nil => simp
  | cons c script =>
      rw [if_neg (List.cons_ne_nil _ _), if_neg (List.cons_ne_nil _ _), List.append_left_inj]
      by_cases hc : (c :: script).head? = some slash
      · have hzero : c ≠ 0 := by
          rintro rfl
          exact absurd hc (by simp [slash])
        rw [if_pos hc, if_pos hc, List.takeWhile_eq_self_iff]
        simp only [List.drop_one, List.tail_cons, bne_iff_ne, ne_eq, hc, true_imp_iff, List.mem_cons,
          not_or, Ne.symm hzero, not_false_eq_true, true_and]
        exact ⟨fun h hmem => h 0 hmem rfl, fun h x hx heq => h (heq ▸ hx)⟩
      · rw [if_neg hc, if_neg hc]
        exact iff_of_true rfl fun h => absurd h hc

theorem length_scriptTail_le (script : List UInt8) :
    (scriptTail script).length ≤ (scriptPart script).length := by
  unfold scriptTail scriptPart
  split
  · exact Nat.le_refl _
  · split
    · simp only [List.length_append, List.length_singleton]
      exact Nat.add_le_add_right (List.takeWhile_prefix _).length_le 1
    · exact Nat.le_refl _

theorem http_server_url_eq {name : List UInt8} (hname : name ≠ []) (script : List UInt8) :
    http_server_url name script =
      (if url_has_protocol_prefix name then [] else http ++ schemeMark) ++ name ++ [slash] ++
        scriptTail script := if_neg hname

theorem name_ne_nil (server : ServerName) : server.name ≠ [] := by
  have hhost := server.host_ne_nil
  have hauthority : server.authority ≠ [] := by
    unfold ServerName.authority
    cases server.port with
    | none => exact hhost
    | some port => exact List.append_ne_nil_of_left_ne_nil hhost _
  unfold ServerName.name
  cases server.scheme with
  | none => exact hauthority
  | some scheme => exact List.append_ne_nil_of_right_ne_nil _ hauthority

/-- The URL is composed well just if a host of letters has no port behind it when there is
no scheme, and a script that starts with a slash has no NUL byte. -/
theorem isAbsolute_iff (server : ServerName) (script : List UInt8) :
    IsAbsolute server script ↔
      (server.scheme.isSome ∨ server.port = none ∨ ∃ c ∈ server.host, ¬Letter c) ∧
        (script.head? = some slash → 0 ∉ script) := by
  rw [← prefix_iff, ← scriptTail_eq_iff, IsAbsolute, http_server_url_eq (name_ne_nil server)]
  by_cases hstart : url_has_protocol_prefix server.name = server.scheme.isSome
  · have hfront : (if url_has_protocol_prefix server.name then [] else http ++ schemeMark) ++
        server.name = server.schemeOrHttp ++ schemeMark ++ server.authority := by
      rw [hstart]
      unfold ServerName.name ServerName.schemeOrHttp
      cases server.scheme with
      | none => rfl
      | some scheme => rfl
    rw [hfront, List.append_right_inj, and_iff_right hstart]
  · have hnone : server.scheme = none := by
      cases hscheme : server.scheme with
      | none => rfl
      | some scheme =>
          exact absurd ((prefix_iff server).mpr (Or.inl (by rw [hscheme]; rfl))) hstart
    have htrue : url_has_protocol_prefix server.name = true := by
      rw [hnone] at hstart
      simpa using hstart
    apply iff_of_false
    · intro heq
      have hlength := congrArg List.length heq
      have hle := length_scriptTail_le script
      rw [htrue] at hlength
      simp only [ServerName.name, ServerName.schemeOrHttp, hnone, Option.getD_none, if_true,
        List.nil_append, List.length_append] at hlength
      have hhttp : http.length = 4 := by decide
      omega
    · intro h
      exact hstart h.1

theorem colon_not_mem_localhost : colon ∉ str "localhost" := by decide

theorem slash_not_mem_localhost : slash ∉ str "localhost" := by decide

/-- A host and a port, without a scheme. -/
def localhostPort : ServerName where
  scheme := none
  host := str "localhost"
  port := some (str "8080")
  scheme_letters := fun s hs => absurd hs (Option.not_mem_none s)
  host_ne_nil := by decide
  host_colon := colon_not_mem_localhost
  host_slash := slash_not_mem_localhost
  port_digits := by decide

/-- The links start with the name of the host as their scheme. -/
theorem isAbsolute_localhostPort_not :
    http_server_url localhostPort.name (str "strus") =
        str "localhost:8080/strus/" ∧
      ¬IsAbsolute localhostPort (str "strus") := by
  have hurl : http_server_url localhostPort.name (str "strus") =
      str "localhost:8080/strus/" := by decide
  refine ⟨hurl, ?_⟩
  intro h
  rw [IsAbsolute, hurl] at h
  exact absurd h (by decide)

end Composition

end StrusWebService.BaseUrl
