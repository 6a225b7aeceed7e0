import StrusWebService.Library.CString
import StrusWebService.Library.Utf8

/-! # Content reduced for the log

`reduceContentSize` cuts content that is longer than a limit. It looks back from the
limit for a byte that is no continuation byte and cuts behind it, and a long item of
base64 characters that reaches this end is cut again.
-/

namespace StrusWebService.Logger

open CString
open Text (str)

def utf8midchr (ch : UInt8) : Bool := ch &&& 0xC0 == 0x80

/-- The characters `g_base64Character` is made of. -/
def base64Characters : List UInt8 :=
  str "ABCDEFGHIJKLMNOPQRSTUVWXYZabcdefghijklmnopqrstuvwxyz0123456789+/"

def g_base64Character (ch : UInt8) : Bool := base64Characters.contains ch

/-- `for (;endidx > low && test( content[ endidx-1]); --endidx){}` -/
def scanBack (test : UInt8 → Bool) (low : Nat) (content : List UInt8) : Nat → Option Nat
  | 0 => some 0
  | endidx + 1 =>
      if low < endidx + 1 then
        content[endidx]?.bind fun ch =>
          if test ch then scanBack test low content endidx else some (endidx + 1)
      else some (endidx + 1)

/-- The pointer returned: the one to the content, or one to the buffer filled. -/
inductive Reduced where
  | content
  | contentbuf (contentbuf : List UInt8)
  deriving DecidableEq

def ellipsis : List UInt8 := [32, 46, 46, 46]

def reduceContentSize (contentbuf content : List UInt8) (contentsize maxsize : Nat) :
    Option Reduced :=
  if contentsize > maxsize then
    (scanBack utf8midchr 0 content maxsize).bind fun endidx =>
      let mid := endidx / 8
      (scanBack g_base64Character mid content endidx).bind fun ei =>
        let endidx := if ei ≤ mid * 4 then ei + min (endidx - ei) 40 else endidx
        (readBytes content endidx).bind fun kept =>
          some (.contentbuf (contentbuf ++ kept ++ ellipsis))
  else some .content

section Scan

/-- `e` is where a scan back from `start` ends: at its lower bound, or behind the first
byte from there that fails the test. -/
structure ScannedBack (test : UInt8 → Bool) (low start : Nat) (content : List UInt8) (e : Nat) :
    Prop where
  low_le : low ≤ e
  le_start : e ≤ start
  passed : ∀ i, e ≤ i → i < start → ∃ ch, content[i]? = some ch ∧ test ch = true
  stopped : low < e → ∃ ch, content[e - 1]? = some ch ∧ test ch = false

variable (test : UInt8 → Bool) {low start : Nat} {content : List UInt8}

theorem scanBack_spec (hlow : low ≤ start) (hstart : start ≤ content.length) :
    ∃ e, scanBack test low content start = some e ∧ ScannedBack test low start content e := by
  induction start with
  | zero => exact ⟨0, rfl, hlow, Nat.le_refl 0, fun i _ hi => absurd hi (Nat.not_lt_zero i),
      fun hlt => absurd hlt (Nat.not_lt_zero low)⟩
  | succ start ih =>
      by_cases hend : low < start + 1
      · have hch := List.getElem?_eq_getElem (Nat.lt_of_succ_le hstart)
        rw [scanBack, if_pos hend, hch, Option.bind_some]
        cases htest : test content[start] with
        | true =>
            obtain ⟨e, he, hspec⟩ := ih (Nat.le_of_lt_succ hend) (Nat.le_of_succ_le hstart)
            refine ⟨e, he, hspec.low_le, Nat.le_succ_of_le hspec.le_start, ?_, hspec.stopped⟩
            intro i hei hi
            cases Nat.lt_succ_iff_lt_or_eq.mp hi with
            | inl hlt => exact hspec.passed i hei hlt
            | inr heq =>
                rw [heq]
                exact ⟨content[start], hch, htest⟩
        | false =>
            refine ⟨start + 1, rfl, hlow, Nat.le_refl _, ?_, fun _ => ⟨content[start], hch, htest⟩⟩
            intro i hei hi
            exact absurd hi (Nat.not_lt_of_le hei)
      · have heq : low = start + 1 := Nat.le_antisymm hlow (Nat.le_of_not_lt hend)
        rw [scanBack, if_neg hend]
        refine ⟨start + 1, rfl, hlow, Nat.le_refl _, ?_, fun hlt => absurd hlt hend⟩
        intro i hei hi
        exact absurd hi (Nat.not_lt_of_le hei)

theorem scanBack_congr {content' : List UInt8} {limit : Nat}
    (h : content'.take limit = content.take limit) (hstart : start ≤ limit) :
    scanBack test low content' start = scanBack test low content start := by
  induction start with
  | zero => rfl
  | succ start ih =>
      have hread : content'[start]? = content[start]? := by
        have hget := congrArg (fun l => l[start]?) h
        simpa [List.getElem?_take, Nat.lt_of_succ_le hstart] using hget
      rw [scanBack, scanBack, hread, ih (Nat.le_of_succ_le hstart)]

end Scan

section Reduce

variable {contentbuf content : List UInt8} {contentsize maxsize : Nat}

def keptLength (e s : Nat) : Nat := if s ≤ 4 * (e / 8) then s + min (e - s) 40 else e

theorem keptLength_le {e s : Nat} (h : s ≤ e) : keptLength e s ≤ e := by
  unfold keptLength
  split <;> omega

theorem reduceContentSize_of_le (h : contentsize ≤ maxsize) :
    reduceContentSize contentbuf content contentsize maxsize = some .content :=
  if_neg (Nat.not_lt_of_le h)

variable (contentbuf) in
theorem reduceContentSize_of_lt (hcontent : maxsize ≤ content.length) (h : maxsize < contentsize) :
    ∃ e s, ScannedBack utf8midchr 0 maxsize content e ∧
      ScannedBack g_base64Character (e / 8) e content s ∧
      ∀ content', content'.take maxsize = content.take maxsize →
        reduceContentSize contentbuf content' contentsize maxsize =
          some (.contentbuf (contentbuf ++ content.take (keptLength e s) ++ ellipsis)) := by
  obtain ⟨e, he, hcut⟩ := scanBack_spec utf8midchr (Nat.zero_le maxsize) hcontent
  obtain ⟨s, hs, hitem⟩ := scanBack_spec g_base64Character (Nat.div_le_self e 8)
    (Nat.le_trans hcut.le_start hcontent)
  refine ⟨e, s, hcut, hitem, ?_⟩
  intro content' heq
  have hend : (if s ≤ e / 8 * 4 then s + min (e - s) 40 else e) = keptLength e s := by
    rw [keptLength, Nat.mul_comm 4]
  have hkept : keptLength e s ≤ maxsize :=
    Nat.le_trans (keptLength_le hitem.le_start) hcut.le_start
  rw [reduceContentSize, if_pos h, scanBack_congr _ heq (Nat.le_refl _), he, Option.bind_some]
  dsimp only
  rw [scanBack_congr _ heq hcut.le_start, hs, Option.bind_some, hend,
    readBytes_congr heq hkept hcontent]
  rfl

/-- The content as it is, or a cut prefix of it: where the cut is, how a base64 item is cut,
and that bytes at or behind the limit are not read. -/
theorem reduceContentSize_spec (contentbuf content : List UInt8) (contentsize maxsize : Nat)
    (hcontent : contentsize ≤ content.length) :
    (contentsize ≤ maxsize → ∀ content' : List UInt8,
      reduceContentSize contentbuf content' contentsize maxsize = some .content) ∧
    (maxsize < contentsize → ∃ e s k,
      ScannedBack utf8midchr 0 maxsize content e ∧
      ScannedBack g_base64Character (e / 8) e content s ∧
      k = (if s ≤ 4 * (e / 8) then s + min (e - s) 40 else e) ∧
      k ≤ e ∧ k ≤ maxsize ∧ (s ≤ 4 * (e / 8) → k ≤ s + 40) ∧
      ∀ content', content'.take maxsize = content.take maxsize →
        reduceContentSize contentbuf content' contentsize maxsize =
          some (.contentbuf (contentbuf ++ content.take k ++ ellipsis))) := by
  constructor
  · intro hle content'
    exact reduceContentSize_of_le hle
  · intro hlt
    obtain ⟨e, s, hcut, hitem, hreduce⟩ := reduceContentSize_of_lt contentbuf
      (Nat.le_trans (Nat.le_of_lt hlt) hcontent) hlt
    have hle : keptLength e s ≤ e := keptLength_le hitem.le_start
    refine ⟨e, s, keptLength e s, hcut, hitem, rfl, hle, Nat.le_trans hle hcut.le_start, ?_, hreduce⟩
    intro hhalf
    rw [keptLength, if_pos hhalf]
    exact Nat.add_le_add_left (Nat.min_le_right _ _) s

def base64Sample : List UInt8 :=
  str "key: " ++ List.replicate 60 65 ++ [32, 32]

theorem reduceContentSize_base64Sample :
    reduceContentSize [] base64Sample 67 64 =
        some (.contentbuf (str "key: " ++ List.replicate 43 65 ++ ellipsis)) ∧
      ∃ e s k, ScannedBack utf8midchr 0 64 base64Sample e ∧
        ScannedBack g_base64Character (e / 8) e base64Sample s ∧
        k = (if s ≤ 4 * (e / 8) then s + min (e - s) 40 else e) ∧
        k ≤ e ∧ k ≤ 64 ∧ (s ≤ 4 * (e / 8) → k ≤ s + 40) ∧
        ∀ content', content'.take 64 = base64Sample.take 64 →
          reduceContentSize [] content' 67 64 =
            some (.contentbuf ([] ++ base64Sample.take k ++ ellipsis)) :=
  ⟨by decide, (reduceContentSize_spec [] base64Sample 67 64 (by decide)).2 (by decide)⟩

end Reduce

section Utf8

variable {content : List UInt8} {contentsize maxsize : Nat}

theorem utf8midchr_iff {ch : UInt8} : utf8midchr ch = true ↔ Utf8.Mid ch := beq_iff_eq

theorem ascii_of_base64Character {ch : UInt8}
    (h : g_base64Character ch = true) : Utf8.Ascii ch := by
  have hall : ∀ c ∈ base64Characters, Utf8.Ascii c := by decide
  exact hall ch (List.contains_iff_mem.mp h)

/-- The part of a text kept before the mark is a text itself. -/
def KeepsUtf8 (content : List UInt8) (contentsize maxsize : Nat) : Prop :=
  ∃ kept, reduceContentSize [] content contentsize maxsize = some (.contentbuf (kept ++ ellipsis)) ∧
    Utf8.Valid kept

theorem keptLength_spec {e s : Nat} {c : UInt8}
    (hitem : ScannedBack g_base64Character (e / 8) e content s) (he : 0 < e)
    (hc : content[e - 1]? = some c) :
    keptLength e s = e ∨
      ∃ k d, keptLength e s = k + 1 ∧ content[k]? = some d ∧ Utf8.Ascii d ∧ Utf8.Ascii c := by
  unfold keptLength
  split
  · rename_i hhalf
    have hse : s < e := by omega
    have hascii : ∀ i, s ≤ i → i < e → ∃ d, content[i]? = some d ∧ Utf8.Ascii d := by
      intro i hsi hie
      obtain ⟨d, hd, htest⟩ := hitem.passed i hsi hie
      exact ⟨d, hd, ascii_of_base64Character htest⟩
    obtain ⟨k, hk⟩ : ∃ k, s + min (e - s) 40 = k + 1 := ⟨s + min (e - s) 40 - 1, by omega⟩
    obtain ⟨d, hd, hdascii⟩ := hascii k (by omega) (by omega)
    obtain ⟨c', hc', hcascii⟩ := hascii (e - 1) (by omega) (by omega)
    obtain rfl : c = c' := Option.some.inj (hc.symm.trans hc')
    exact Or.inr ⟨k, d, hk, hd, hdascii, hcascii⟩
  · exact Or.inl rfl

theorem ascii_of_cut {e : Nat} {c : UInt8} (hvalid : Utf8.Valid (content.take contentsize))
    (hlong : maxsize < contentsize) (hcut : ScannedBack utf8midchr 0 maxsize content e) (he : 0 < e)
    (hc : content[e - 1]? = some c) :
    Utf8.Ascii c ↔ ∃ d, content[maxsize - 1]? = some d ∧ Utf8.Ascii d := by
  have htext : ∀ i, i ≤ maxsize → (content.take contentsize)[i]? = content[i]? := fun i hi =>
    List.getElem?_take_of_lt (Nat.lt_of_le_of_lt hi hlong)
  cases Nat.lt_or_ge e maxsize with
  | inr hge =>
      have heq : e = maxsize := Nat.le_antisymm hcut.le_start hge
      rw [heq] at hc
      simp [hc]
  | inl hlt =>
      constructor
      · intro hascii
        obtain ⟨d, hd, hmid⟩ := hcut.passed e (Nat.le_refl e) hlt
        have hbefore : (content.take contentsize)[e - 1]? = some c := by
          rw [htext (e - 1) (by omega), hc]
        have hbehind : (content.take contentsize)[e - 1 + 1]? = some d := by
          rw [Nat.sub_add_cancel he, htext e hcut.le_start, hd]
        exact absurd (utf8midchr_iff.mp hmid) (hvalid.not_mid hbefore hascii hbehind)
      · intro h
        rcases h with ⟨d, hd, hascii⟩
        obtain ⟨d', hd', hmid⟩ := hcut.passed (maxsize - 1) (by omega) (by omega)
        obtain rfl : d = d' := Option.some.inj (hd.symm.trans hd')
        exact absurd (utf8midchr_iff.mp hmid) (Utf8.not_mid_of_ascii hascii)

theorem cut_pos {e : Nat} (hvalid : Utf8.Valid (content.take contentsize))
    (hlong : maxsize < contentsize) (hmax : 0 < maxsize)
    (hcut : ScannedBack utf8midchr 0 maxsize content e) : 0 < e := by
  by_contra hzero
  obtain ⟨c, hc, hmid⟩ := hcut.passed 0 (by omega) hmax
  apply hvalid.head c _ (utf8midchr_iff.mp hmid)
  rw [List.head?_take, if_neg (by omega), List.head?_eq_getElem?, hc]
  exact rfl

theorem valid_kept_iff {e s : Nat} {c : UInt8} (hvalid : Utf8.Valid (content.take contentsize))
    (hlong : maxsize < contentsize) (hcut : ScannedBack utf8midchr 0 maxsize content e)
    (hitem : ScannedBack g_base64Character (e / 8) e content s) (he : 0 < e)
    (hc : content[e - 1]? = some c) :
    Utf8.Valid (content.take (keptLength e s)) ↔ Utf8.Ascii c := by
  have hele := hcut.le_start
  have htext : ∀ i, i < maxsize → (content.take contentsize)[i]? = content[i]? := fun i hi =>
    List.getElem?_take_of_lt (Nat.lt_trans hi hlong)
  have htake : ∀ k, k ≤ maxsize → (content.take contentsize).take k = content.take k := by
    intro k hk
    rw [List.take_take, Nat.min_eq_left (by omega)]
  cases keptLength_spec hitem he hc with
  | inl heq =>
      have hmid : ¬Utf8.Mid c := by
        obtain ⟨c', hc', hnomid⟩ := hcut.stopped he
        obtain rfl : c = c' := Option.some.inj (hc.symm.trans hc')
        rw [← utf8midchr_iff, hnomid]
        exact Bool.false_ne_true
      rw [heq, ← htake e hele, ← Nat.sub_add_cancel he]
      apply hvalid.take_iff _ hmid
      rw [htext (e - 1) (by omega), hc]
  | inr hmoved =>
      rcases hmoved with ⟨k, d, hk, hd, hdascii, hcascii⟩
      have hkle := keptLength_le hitem.le_start
      rw [hk] at hkle ⊢
      rw [← htake (k + 1) (by omega)]
      have hcutd := hvalid.cut ((htext k (by omega)).trans hd) hdascii
      exact iff_of_true hcutd.1 hcascii

/-- What is kept of a text is a text just if the last byte before the limit is ASCII: of a
character of several bytes there the lead byte is kept, and nothing else. -/
theorem keepsUtf8_iff (content : List UInt8) (contentsize maxsize : Nat)
    (hcontent : contentsize ≤ content.length) (hvalid : Utf8.Valid (content.take contentsize))
    (hlong : maxsize < contentsize) (hmax : 0 < maxsize) :
    KeepsUtf8 content contentsize maxsize ↔
      ∃ c, content[maxsize - 1]? = some c ∧ Utf8.Ascii c := by
  have hlimit : maxsize ≤ content.length := Nat.le_trans (Nat.le_of_lt hlong) hcontent
  obtain ⟨e, s, hcut, hitem, hreduce⟩ :=
    reduceContentSize_of_lt [] hlimit hlong
  have he := cut_pos hvalid hlong hmax hcut
  obtain ⟨c, hc, -⟩ := hcut.stopped he
  rw [← ascii_of_cut hvalid hlong hcut he hc, ← valid_kept_iff hvalid hlong hcut hitem he hc]
  constructor
  · intro h
    rcases h with ⟨kept, heq, hvalidkept⟩
    rw [hreduce content rfl] at heq
    have hbuf := Reduced.contentbuf.inj (Option.some.inj heq)
    rw [List.nil_append, List.append_left_inj] at hbuf
    rwa [hbuf]
  · intro h
    exact ⟨_, hreduce content rfl, h⟩

def accented : List UInt8 := str "abcé"

theorem valid_accented (tail : List Char) :
    Utf8.Valid (accented ++ tail.flatMap String.utf8EncodeChar) :=
  Utf8.valid_iff.mpr ⟨['a', 'b', 'c', 'é'] ++ tail, by rw [List.flatMap_append]; rfl⟩

/-- The limit of four bytes is in the middle of the last letter. -/
theorem keepsUtf8_accented_not :
    accented.length = 5 ∧ Utf8.Valid (accented.take 5) ∧ ¬KeepsUtf8 accented 5 4 := by
  refine ⟨by decide, valid_accented [], ?_⟩
  intro h
  rcases h with ⟨kept, heq, hvalid⟩
  have hreduce : reduceContentSize [] accented 5 4 =
      some (.contentbuf (accented.take 4 ++ ellipsis)) := by decide
  rw [hreduce] at heq
  have hkept := Reduced.contentbuf.inj (Option.some.inj heq)
  rw [List.append_left_inj] at hkept
  rw [← hkept] at hvalid
  have hlast := hvalid.last 195 (by decide)
  revert hlast
  decide

/-- With another letter behind it the limit can be behind that one. -/
theorem keepsUtf8_accented_behind :
    KeepsUtf8 (accented ++ ['d', 'e'].flatMap String.utf8EncodeChar) 7 6 := by
  apply (keepsUtf8_iff (accented ++ ['d', 'e'].flatMap String.utf8EncodeChar) 7 6 (by decide)
    (valid_accented ['d', 'e']) (by decide) (by decide)).mpr
  exact ⟨100, by decide, by decide⟩

end Utf8

end StrusWebService.Logger
