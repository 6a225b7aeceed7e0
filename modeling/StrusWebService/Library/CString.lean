import StrusWebService.Library.Text
import Mathlib.Data.List.Basic

/-! # Regions of memory and texts that end with a NUL byte

A region is the list of the bytes that may be accessed from a pointer on; an access
behind its end has no result. A text stands in a region up to the first NUL byte. The
formatted output functions of C write as much of a text as the buffer takes and say
how long it is, if an `int` can say it.
-/

namespace CString

section Regions

/-- Write bytes to a region, from a position on. -/
def writeAt (region : List UInt8) (position : Nat) (bytes : List UInt8) : Option (List UInt8) :=
  if position + bytes.length ≤ region.length then
    some (region.take position ++ bytes ++ region.drop (position + bytes.length))
  else none

/-- Read as many bytes from the start of a region. -/
def readBytes (region : List UInt8) (size : Nat) : Option (List UInt8) :=
  if size ≤ region.length then some (region.take size) else none

/-- Bytes written behind the first part of a region, over the start of the rest. -/
theorem writeAt_behind (before : List UInt8) {rest bytes : List UInt8}
    (h : bytes.length ≤ rest.length) :
    writeAt (before ++ rest) before.length bytes =
      some (before ++ bytes ++ rest.drop bytes.length) := by
  have hfits : before.length + bytes.length ≤ (before ++ rest).length := by
    rw [List.length_append]
    exact Nat.add_le_add_left h _
  rw [writeAt, if_pos hfits, List.take_left, List.drop_append, List.drop_of_length_le (by omega),
    Nat.add_sub_cancel_left, List.nil_append]

/-- What is read depends on the bytes that are read only. -/
theorem readBytes_congr {region region' : List UInt8} {size limit : Nat}
    (h : region'.take limit = region.take limit) (hsize : size ≤ limit)
    (hregion : limit ≤ region.length) : readBytes region' size = some (region.take size) := by
  have hlength : size ≤ region'.length := by
    have := congrArg List.length h
    simp only [List.length_take] at this
    omega
  have htake : region'.take size = region.take size := by
    have := congrArg (List.take size) h
    rwa [List.take_take, List.take_take, Nat.min_eq_left hsize] at this
  rw [readBytes, if_pos hlength, htake]

/-- As many bytes as asked for are read. -/
theorem readBytes_length {region bytes : List UInt8} {size : Nat}
    (h : readBytes region size = some bytes) : bytes.length = size := by
  rw [readBytes] at h
  split at h
  · cases h
    rw [List.length_take]
    omega
  · nomatch h

end Regions

section Texts

/-- The text a region starts with. -/
def text : List UInt8 → Option (List UInt8)
  | [] => none
  | c :: region => if c = 0 then some [] else (text region).map (c :: ·)

/-- A text that fits is there, whatever stands behind its end. -/
theorem text_append_nul {t : List UInt8} (h : 0 ∉ t) (behind : List UInt8) :
    text (t ++ 0 :: behind) = some t := by
  induction t with
  | nil => simp [text]
  | cons c t ih =>
      have hc : c ≠ 0 := fun heq => h (heq ▸ List.mem_cons_self)
      have ht : 0 ∉ t := fun hmem => h (List.mem_cons_of_mem c hmem)
      rw [List.cons_append, text, if_neg hc, ih ht]
      rfl

theorem isSome_text_iff {region : List UInt8} : (text region).isSome ↔ 0 ∈ region := by
  induction region with
  | nil => simp [text]
  | cons c region ih =>
      by_cases hc : c = 0
      · simp [text, hc]
      · simp [text, hc, ih, Ne.symm hc]

theorem nul_not_mem_text {region t : List UInt8} (h : text region = some t) : 0 ∉ t := by
  induction region generalizing t with
  | nil => cases h
  | cons c region ih =>
      rw [text] at h
      by_cases hc : c = 0
      · rw [if_pos hc] at h
        cases h
        exact List.not_mem_nil
      · rw [if_neg hc] at h
        obtain ⟨rest, hrest, rfl⟩ := Option.map_eq_some_iff.mp h
        rw [List.mem_cons, not_or]
        exact ⟨Ne.symm hc, ih hrest⟩

theorem text_append {region t : List UInt8} (h : text region = some t) (behind : List UInt8) :
    text (region ++ behind) = some t := by
  induction region generalizing t with
  | nil => cases h
  | cons c region ih =>
      rw [List.cons_append, text]
      rw [text] at h
      by_cases hc : c = 0
      · rw [if_pos hc] at h ⊢
        exact h
      · rw [if_neg hc] at h ⊢
        obtain ⟨rest, hrest, rfl⟩ := Option.map_eq_some_iff.mp h
        rw [ih hrest]
        rfl

/-- A text as it is passed to a function. -/
structure CStr where
  bytes : List UInt8
  nul_not_mem : 0 ∉ bytes

instance : Append CStr where
  append s t := ⟨s.bytes ++ t.bytes, by simp [s.nul_not_mem, t.nul_not_mem]⟩

end Texts

section Printing

/-- The largest `int`. -/
def intMax : Nat := 2147483647

/-- What the formatted output functions return: the length of the text, or a negative
number for a text that is too long for an `int`. -/
def printed (t : List UInt8) : Int := if t.length ≤ intMax then t.length else -1

/-- What they leave in a buffer of the size: the text as far as it fits, and a NUL byte. -/
def stored (size : Nat) (t : List UInt8) : List UInt8 :=
  if size = 0 then [] else t.take (size - 1) ++ [0]

theorem printed_of_le {t : List UInt8} (h : t.length ≤ intMax) : printed t = t.length := if_pos h

theorem printed_of_lt {t : List UInt8} (h : intMax < t.length) : printed t = -1 :=
  if_neg (Nat.not_le_of_lt h)

theorem stored_of_pos {size : Nat} (h : 0 < size) (t : List UInt8) :
    stored size t = t.take (size - 1) ++ [0] := if_neg (Nat.ne_of_gt h)

end Printing

end CString
