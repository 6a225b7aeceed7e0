import StrusWebService.Library.Text
import Mathlib.Algebra.Ring.Int.Defs
import Mathlib.Algebra.Ring.Nat

/-! # The port in a URL of the client

`getPort` and `getUrl` both look for the colon of the port. A pointer into the URL is the
part of the string it points to.
-/

namespace StrusWebService.CurlClient

open Text (colon slash isDigit str)

/-- `std::strchr` -/
def strchr (ch : UInt8) : List UInt8 → Option (List UInt8)
  | [] => none
  | c :: s => if c = ch then some (c :: s) else strchr ch s

/-- The number a string of digits denotes. -/
def digitsValue (digits : List UInt8) : Nat :=
  digits.foldl (fun value ch => 10 * value + (ch.toNat - 48)) 0

/-- The number at the start of a string, before it is converted to a type. -/
def number (s : List UInt8) : Int :=
  match s.dropWhile fun ch => ch == 32 || (9 ≤ ch && ch ≤ 13) with
  | 45 :: s => -(digitsValue (s.takeWhile isDigit))
  | 43 :: s => digitsValue (s.takeWhile isDigit)
  | s => digitsValue (s.takeWhile isDigit)

/-- A `long` is clipped to its range, and converted to an `int`. -/
def atoi (s : List UInt8) : Int := (max (-2 ^ 63) (min (2 ^ 63 - 1) (number s))).bmod (2 ^ 32)

/-- The pointer `ri` of both functions: to the colon taken for that of the port. -/
def portColon (url : List UInt8) : Option (List UInt8) :=
  (strchr colon url).bind fun ri =>
    if ri[1]? = some slash then strchr colon (ri.drop 1) else some ri

def getPort (url : List UInt8) : Int :=
  match portColon url with
  | some ri => atoi (ri.drop 1)
  | none => 0

def getUrl (url : List UInt8) : List UInt8 :=
  match portColon url with
  | some ri => url.take (url.length - ri.length) ++ (ri.drop 1).dropWhile isDigit
  | none => url

/-- A URL in its parts. -/
structure Parts where
  scheme : Option (List UInt8)
  host : List UInt8
  digits : Option (List UInt8)
  rest : List UInt8
  scheme_colon : ∀ s ∈ scheme, colon ∉ s
  host_colon : colon ∉ host
  host_slash : slash ∉ host
  digits_valid : ∀ d ∈ digits, d ≠ [] ∧ (∀ c ∈ d, isDigit c = true) ∧ digitsValue d < 2 ^ 31
  rest_head : ∀ c ∈ rest.head?, c = slash

namespace Parts

variable (p : Parts)

def front : List UInt8 :=
  match p.scheme with
  | none => p.host
  | some scheme => scheme ++ colon :: slash :: slash :: p.host

def port : Int :=
  match p.digits with
  | none => 0
  | some digits => digitsValue digits

def url : List UInt8 :=
  match p.digits with
  | none => p.front ++ p.rest
  | some digits => p.front ++ colon :: digits ++ p.rest

/-- The URL without its port. -/
def bare : List UInt8 := p.front ++ p.rest

/-- The client gets the port, and the URL without it and with every other byte. -/
def Splits : Prop := getPort p.url = p.port ∧ getUrl p.url = p.bare

/-- In the rest no colon is taken for that of a port. -/
def RestSafe : Prop :=
  match p.scheme with
  | some _ => colon ∉ p.rest
  | none => colon ∉ p.rest ∨ ∃ before behind, p.rest = before ++ colon :: slash :: behind ∧
      colon ∉ before ∧ colon ∉ behind

end Parts

section Search

theorem strchr_append {ch : UInt8} {before : List UInt8} (h : ch ∉ before) (s : List UInt8) :
    strchr ch (before ++ s) = strchr ch s := by
  induction before with
  | nil => rfl
  | cons c before ih =>
      have hc : c ≠ ch := fun heq => h (heq ▸ List.mem_cons_self)
      rw [List.cons_append, strchr, if_neg hc]
      exact ih fun hmem => h (List.mem_cons_of_mem c hmem)

theorem strchr_cons (ch : UInt8) (s : List UInt8) : strchr ch (ch :: s) = some (ch :: s) :=
  if_pos rfl

/-- The pointer found divides the string. -/
theorem strchr_eq_some {ch : UInt8} {s ri : List UInt8} (h : strchr ch s = some ri) :
    ∃ before behind, s = before ++ ri ∧ ri = ch :: behind ∧ ch ∉ before := by
  induction s with
  | nil => cases h
  | cons c s ih =>
      rw [strchr] at h
      by_cases hc : c = ch
      · rw [if_pos hc] at h
        cases h
        exact ⟨[], s, rfl, by rw [hc], List.not_mem_nil⟩
      · rw [if_neg hc] at h
        obtain ⟨before, behind, rfl, rfl, hbefore⟩ := ih h
        refine ⟨c :: before, behind, rfl, rfl, ?_⟩
        rw [List.mem_cons, not_or]
        exact ⟨Ne.symm hc, hbefore⟩

theorem strchr_eq_none_iff {ch : UInt8} {s : List UInt8} : strchr ch s = none ↔ ch ∉ s := by
  constructor
  · intro h hmem
    obtain ⟨before, behind, rfl, hbefore⟩ := List.eq_append_cons_of_mem hmem
    rw [strchr_append hbefore, strchr_cons] at h
    cases h
  · intro h
    cases hs : strchr ch s with
    | none => rfl
    | some ri =>
        obtain ⟨before, behind, rfl, rfl, -⟩ := strchr_eq_some hs
        exact absurd (by simp) h

/-- A colon of a scheme is passed over. -/
theorem portColon_scheme {scheme : List UInt8} (h : colon ∉ scheme) (s : List UInt8) :
    portColon (scheme ++ colon :: slash :: s) = strchr colon s := by
  rw [portColon, strchr_append h, strchr_cons, Option.bind_some,
    if_pos (by rfl : (colon :: slash :: s)[1]? = some slash)]
  exact @strchr_append colon [slash] (by decide) s

/-- Any other colon is taken. -/
theorem portColon_port {before : List UInt8} {c : UInt8} (h : colon ∉ before) (hc : c ≠ slash)
    (s : List UInt8) : portColon (before ++ colon :: c :: s) = some (colon :: c :: s) := by
  rw [portColon, strchr_append h, strchr_cons, Option.bind_some, if_neg]
  intro heq
  exact hc (Option.some.inj heq)

theorem portColon_append {before : List UInt8} (h : colon ∉ before) (s : List UInt8) :
    portColon (before ++ s) = portColon s := by
  rw [portColon, strchr_append h, portColon]

theorem portColon_eq_some {url ri : List UInt8} (h : portColon url = some ri) :
    ∃ before behind, url = before ++ ri ∧ ri = colon :: behind := by
  obtain ⟨first, hfirst, hri⟩ := Option.bind_eq_some_iff.mp h
  obtain ⟨before, behind, rfl, rfl, -⟩ := strchr_eq_some hfirst
  split at hri
  · obtain ⟨before', behind', hsplit, rfl, -⟩ := strchr_eq_some hri
    refine ⟨before ++ colon :: before', behind', ?_, rfl⟩
    rw [List.drop_one, List.tail_cons] at hsplit
    rw [hsplit]
    simp
  · cases hri
    exact ⟨before, behind, rfl, rfl⟩

/-- When no colon is found: there is none, or just that of a scheme. -/
theorem portColon_eq_none_iff {s : List UInt8} :
    portColon s = none ↔ colon ∉ s ∨ ∃ before behind, s = before ++ colon :: slash :: behind ∧
      colon ∉ before ∧ colon ∉ behind := by
  constructor
  · intro h
    cases hs : strchr colon s with
    | none => exact Or.inl (strchr_eq_none_iff.mp hs)
    | some ri =>
        obtain ⟨before, behind, rfl, rfl, hbefore⟩ := strchr_eq_some hs
        right
        cases behind with
        | nil =>
            rw [portColon, hs, Option.bind_some, if_neg (by simp)] at h
            cases h
        | cons c behind =>
            by_cases hc : c = slash
            · rw [hc] at h ⊢
              rw [portColon_scheme hbefore, strchr_eq_none_iff] at h
              exact ⟨before, behind, rfl, hbefore, h⟩
            · rw [portColon_port hbefore hc] at h
              cases h
  · intro h
    cases h with
    | inl hnone => rw [portColon, strchr_eq_none_iff.mpr hnone, Option.bind_none]
    | inr hscheme =>
        rcases hscheme with ⟨before, behind, rfl, hbefore, hbehind⟩
        rw [portColon_scheme hbefore, strchr_eq_none_iff.mpr hbehind]

/-- Where a colon is found it is removed. -/
theorem getUrl_ne {url ri : List UInt8} (h : portColon url = some ri) : getUrl url ≠ url := by
  obtain ⟨before, behind, rfl, rfl⟩ := portColon_eq_some h
  intro heq
  rw [getUrl, h] at heq
  have hlength := congrArg List.length heq
  have hdrop := (List.dropWhile_suffix isDigit : behind.dropWhile isDigit <:+ behind).length_le
  simp only [List.length_append, List.length_take, List.drop_one, List.tail_cons,
    List.length_cons] at hlength
  omega

end Search

section Numbers

variable {digits rest : List UInt8}

theorem stop_of_slash (h : ∀ c ∈ rest.head?, c = slash) : ∀ c ∈ rest.head?, isDigit c = false := by
  intro c hc
  rw [h c hc]
  decide

/-- A port is read up to its end. -/
theorem number_digits (hne : digits ≠ []) (hdigits : ∀ c ∈ digits, isDigit c = true)
    (hrest : ∀ c ∈ rest.head?, c = slash) : number (digits ++ rest) = digitsValue digits := by
  have htake := takeWhile_append_stop hdigits (stop_of_slash hrest)
  obtain ⟨c, digits, rfl⟩ := List.exists_cons_of_ne_nil hne
  have hc := hdigits c List.mem_cons_self
  have hspace : (c == 32 || (9 ≤ c && c ≤ 13)) = false := by
    simp only [isDigit, Bool.and_eq_true, decide_eq_true_eq, UInt8.le_iff_toNat_le] at hc
    simp only [Bool.or_eq_false_iff, Bool.and_eq_false_imp, decide_eq_true_eq, decide_eq_false_iff_not,
      beq_eq_false_iff_ne, ne_eq, UInt8.le_iff_toNat_le, ← UInt8.toNat_inj]
    have h48 : (48 : UInt8).toNat = 48 := rfl
    have h32 : (32 : UInt8).toNat = 32 := rfl
    have h13 : (13 : UInt8).toNat = 13 := rfl
    omega
  have hdrop : (c :: digits ++ rest).dropWhile (fun ch => ch == 32 || (9 ≤ ch && ch ≤ 13)) =
      c :: digits ++ rest := by
    rw [List.cons_append, List.dropWhile_cons_of_neg]
    rw [hspace]
    exact Bool.false_ne_true
  unfold number
  rw [hdrop]
  split
  · rename_i heq
    rw [List.cons_append] at heq
    obtain ⟨rfl, -⟩ := List.cons.inj heq
    exact absurd hc (by decide)
  · rename_i heq
    rw [List.cons_append] at heq
    obtain ⟨rfl, -⟩ := List.cons.inj heq
    exact absurd hc (by decide)
  · rw [htake]

theorem atoi_digits (hne : digits ≠ []) (hdigits : ∀ c ∈ digits, isDigit c = true)
    (hrest : ∀ c ∈ rest.head?, c = slash) (hvalue : digitsValue digits < 2 ^ 31) :
    atoi (digits ++ rest) = digitsValue digits := by
  rw [atoi, number_digits hne hdigits hrest, Int.min_eq_right (by omega),
    Int.max_eq_right (by omega)]
  apply Int.bmod_eq_of_le
  · omega
  · omega

end Numbers

section Parts

variable (p : Parts)

/-- The colon search starts behind the front of the URL. -/
theorem portColon_front (s : List UInt8) :
    portColon (p.front ++ s) = if p.scheme.isSome then strchr colon s else portColon s := by
  have hhost := p.host_colon
  unfold Parts.front
  cases hscheme : p.scheme with
  | none => exact portColon_append hhost s
  | some scheme =>
      have hslash : colon ∉ slash :: p.host := by
        rw [List.mem_cons, not_or]
        exact ⟨by decide, hhost⟩
      rw [List.append_assoc, List.cons_append, List.cons_append,
        portColon_scheme (p.scheme_colon scheme hscheme), List.cons_append]
      exact strchr_append hslash s

theorem restSafe_iff : p.RestSafe ↔ portColon (p.front ++ p.rest) = none := by
  rw [portColon_front]
  unfold Parts.RestSafe
  cases p.scheme with
  | none => exact portColon_eq_none_iff.symm
  | some scheme => exact strchr_eq_none_iff.symm

/-- A port that is there is found. -/
theorem splits_of_digits {digits : List UInt8} (h : p.digits = some digits) : p.Splits := by
  obtain ⟨hne, hdigits, hvalue⟩ := p.digits_valid digits h
  have hfound : portColon (p.front ++ colon :: digits ++ p.rest) =
      some (colon :: digits ++ p.rest) := by
    rw [List.append_assoc, portColon_front]
    obtain ⟨c, digits', rfl⟩ := List.exists_cons_of_ne_nil hne
    have hc : c ≠ slash := by
      intro heq
      exact absurd (hdigits c List.mem_cons_self) (by rw [heq]; decide)
    split
    · exact strchr_cons colon _
    · exact @portColon_port [] c List.not_mem_nil hc _
  unfold Parts.Splits Parts.port Parts.url Parts.bare
  rw [h]
  constructor
  · show getPort (p.front ++ colon :: digits ++ p.rest) = digitsValue digits
    rw [getPort, hfound]
    exact atoi_digits hne hdigits p.rest_head hvalue
  · show getUrl (p.front ++ colon :: digits ++ p.rest) = p.front ++ p.rest
    have hlength : (p.front ++ colon :: digits ++ p.rest).length -
        (colon :: digits ++ p.rest).length = p.front.length := by
      rw [List.append_assoc, List.length_append, Nat.add_sub_cancel]
    rw [getUrl, hfound]
    dsimp only
    rw [hlength, List.append_assoc, List.take_left]
    congr 1
    exact dropWhile_append_stop hdigits (stop_of_slash p.rest_head)

/-- The port and the URL are split well just if there is a port, or no colon in the rest is
taken for its colon. -/
theorem splits_iff : p.Splits ↔ p.digits.isSome ∨ p.RestSafe := by
  cases h : p.digits with
  | some digits => exact iff_of_true (splits_of_digits p h) (Or.inl rfl)
  | none =>
      rw [restSafe_iff, Option.isSome_none, or_iff_right Bool.false_ne_true]
      unfold Parts.Splits Parts.port Parts.url Parts.bare
      rw [h]
      dsimp only
      constructor
      · intro hsplits
        cases hfound : portColon (p.front ++ p.rest) with
        | none => rfl
        | some ri => exact absurd hsplits.2 (getUrl_ne hfound)
      · intro hnone
        rw [getPort, getUrl, hnone]
        exact ⟨rfl, rfl⟩

/-- A URL without a port, and with a time in its query. -/
def timeQuery : Parts :=
  { scheme := some (str "http")
    host := str "localhost"
    digits := none
    rest := str "/query?t=12:30&u=7"
    scheme_colon := by decide
    host_colon := by decide
    host_slash := by decide
    digits_valid := by decide
    rest_head := by decide }

theorem splits_timeQuery_not :
    getPort timeQuery.url = 30 ∧
      getUrl timeQuery.url = str "http://localhost/query?t=12&u=7" ∧
      ¬timeQuery.Splits := by
  have hport : getPort timeQuery.url = 30 := by decide
  refine ⟨hport, by decide, ?_⟩
  intro h
  have hzero := h.1
  rw [hport] at hzero
  exact absurd hzero (by decide)

end Parts

end StrusWebService.CurlClient
