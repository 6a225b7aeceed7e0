import StrusWebService.Library.CString
import Mathlib.Algebra.Ring.Nat

/-! # Decimal numbers with leading zeros

The text that the formatted output functions print for `%0*d` and a number that is
not negative: its digits, filled up with zeros to a width.
-/

namespace Decimal

/-- The byte of an ASCII character. -/
def byte (c : Char) : UInt8 := UInt8.ofNat c.toNat

def paddedChars (width n : Nat) : List Char :=
  List.replicate (width - (Nat.toDigits 10 n).length) '0' ++ Nat.toDigits 10 n

def padded (width n : Nat) : List UInt8 := (paddedChars width n).map byte

theorem isDigit_of_mem {width n : Nat} {c : Char} (h : c ∈ paddedChars width n) :
    c.isDigit = true := by
  cases List.mem_append.mp h with
  | inl hzero =>
      rw [List.eq_of_mem_replicate hzero]
      rfl
  | inr hdigit => exact Nat.isDigit_of_mem_toDigits (by decide) (by decide) hdigit

theorem byte_toNat {c : Char} (h : c.isDigit = true) :
    (byte c).toNat = c.toNat ∧ 48 ≤ c.toNat ∧ c.toNat ≤ 57 := by
  have hrange : 48 ≤ c.toNat ∧ c.toNat ≤ 57 := by
    simpa [Char.isDigit, UInt32.le_iff_toNat_le] using h
  refine ⟨?_, hrange⟩
  rw [byte, UInt8.toNat_ofNat']
  omega

theorem byte_injective {c d : Char} (hc : c.isDigit = true) (hd : d.isDigit = true)
    (h : byte c = byte d) : c = d := by
  apply Char.toNat_inj.mp
  rw [← (byte_toNat hc).1, ← (byte_toNat hd).1, h]

/-- All bytes are digits. -/
theorem digit_of_mem_padded {width n : Nat} {b : UInt8} (h : b ∈ padded width n) :
    48 ≤ b ∧ b ≤ 57 := by
  obtain ⟨c, hc, rfl⟩ := List.mem_map.mp h
  obtain ⟨heq, hlow, hhigh⟩ := byte_toNat (isDigit_of_mem hc)
  rw [UInt8.le_iff_toNat_le, UInt8.le_iff_toNat_le, heq]
  exact ⟨hlow, hhigh⟩

/-- Numbers below the power are printed with the same length. -/
theorem length_padded {width n : Nat} (hwidth : 0 < width) (h : n < 10 ^ width) :
    (padded width n).length = width := by
  have hle := (Nat.length_toDigits_le_iff (by decide) hwidth).mpr h
  rw [padded, List.length_map, paddedChars, List.length_append, List.length_replicate]
  omega

theorem map_byte_injective {cs ds : List Char} (hcs : ∀ c ∈ cs, c.isDigit = true)
    (hds : ∀ d ∈ ds, d.isDigit = true) (h : cs.map byte = ds.map byte) : cs = ds := by
  induction cs generalizing ds with
  | nil => simpa using h
  | cons c cs ih =>
      cases ds with
      | nil => cases h
      | cons d ds =>
          simp only [List.map_cons, List.cons.injEq] at h
          rw [byte_injective (hcs c List.mem_cons_self) (hds d List.mem_cons_self) h.1,
            ih (fun c hc => hcs c (List.mem_cons_of_mem _ hc))
              (fun d hd => hds d (List.mem_cons_of_mem _ hd)) h.2]

/-- The text determines the number. -/
theorem padded_injective {width n m : Nat} (h : padded width n = padded width m) : n = m := by
  have hchars : paddedChars width n = paddedChars width m :=
    map_byte_injective (fun _ => isDigit_of_mem) (fun _ => isDigit_of_mem) h
  have hvalue : ∀ k, Nat.ofDigitChars 10 (paddedChars width k) 0 = k := by
    intro k
    rw [paddedChars, Nat.ofDigitChars_append, Nat.ofDigitChars_replicate_zero, Nat.mul_zero,
      Nat.ofDigitChars_ten_toDigits]
  rw [← hvalue n, ← hvalue m, hchars]

end Decimal
