import StrusWebService.Library.Decimal
import StrusWebService.Logger.ThreadId
import Mathlib.Algebra.Ring.Int.Defs
import Mathlib.Algebra.Ring.Nat

/-! # The texts of the labels

Every slot has a label of its own: its index with leading zeros, as many digits as the
number of slots has. It is stored in eight bytes, which hold seven digits. With the
ownership of the slots this decides when a line of the log tells which thread wrote it.
The names of the log files have the index of the process in the same form, so that a log
file is written by the threads of one process.
-/

namespace StrusWebService.Logger

open CString Decimal

/-- `for (; xx <= nofslots; xx *= 10, ++ii){}`; an `int` that overflows has no result. -/
def powLoop (nofslots : Int) : Nat → Int → Nat → Option Nat
  | 0, _, _ => none
  | fuel + 1, xx, ii =>
      if xx ≤ nofslots then
        if xx * 10 ≤ intMax then powLoop nofslots fuel (xx * 10) (ii + 1) else none
      else some ii

def nofslotspow (nofslots : Int) : Option Nat := powLoop nofslots 10 10 1

/-- The eight bytes of `Slot::idstr`. -/
def initId (idxpow idx : Nat) : List UInt8 := stored 8 (padded idxpow idx)

def procnostr (idxpow procid : Nat) : List UInt8 := stored 32 (45 :: padded idxpow procid)

/-- The name of the log file of a process. An exception has no result: `getFileExtension`
fails, or its result is longer than the name. -/
def getLogFilename (getFileExtension : List UInt8 → Option (List UInt8))
    (logfilename : List UInt8) (procid : Nat) (nofprocs : Int) : Option (List UInt8) :=
  if 1 < nofprocs then do
    let idxpow ← nofslotspow nofprocs
    let procnostr ← text (procnostr idxpow procid)
    let ext ← getFileExtension logfilename
    let rt ← readBytes logfilename (logfilename.length - ext.length)
    if ext.length ≤ logfilename.length then some (rt ++ procnostr ++ ext) else none
  else some logfilename

/-! ## The number of digits -/

theorem pow_ten_le {a b : Nat} (h : a ≤ b) : (10 : Int) ^ a ≤ 10 ^ b := by
  exact_mod_cast Nat.pow_le_pow_right (by decide : 0 < 10) h

theorem powLoop_spec {n : Int} (fuel : Nat) {ii : Nat} (hfuel : fuel + ii = 11) (hii : ii ≤ 9) :
    (n < 10 ^ 9 → ∃ w, powLoop n fuel (10 ^ ii) ii = some w ∧ ii ≤ w ∧ w ≤ 9 ∧ n < 10 ^ w ∧
      (w = ii ∨ 10 ^ (w - 1) ≤ n)) ∧
    (10 ^ 9 ≤ n → powLoop n fuel (10 ^ ii) ii = none) := by
  induction fuel generalizing ii with
  | zero => omega
  | succ fuel ih =>
      rw [powLoop]
      have hnext : (10 : Int) ^ ii * 10 = 10 ^ (ii + 1) := (pow_succ 10 ii).symm
      by_cases hle : (10 : Int) ^ ii ≤ n
      · rw [if_pos hle, hnext]
        by_cases hlast : ii = 9
        · subst hlast
          exact ⟨fun h => by omega, fun _ => if_neg (by decide)⟩
        · have hmax : (10 : Int) ^ (ii + 1) ≤ intMax := by
            calc (10 : Int) ^ (ii + 1) ≤ 10 ^ 9 := pow_ten_le (by omega)
              _ ≤ intMax := by decide
          rw [if_pos hmax]
          obtain ⟨hsome, hnone⟩ := @ih (ii + 1) (by omega) (by omega)
          refine ⟨fun h => ?_, hnone⟩
          obtain ⟨w, hw, hge, hw9, hlt, hlow⟩ := hsome h
          refine ⟨w, hw, by omega, hw9, hlt, .inr ?_⟩
          rcases hlow with rfl | hlow
          · simpa using hle
          · exact hlow
      · rw [if_neg hle]
        refine ⟨fun _ => ⟨ii, rfl, Nat.le_refl _, hii, by omega, .inl rfl⟩, fun h => ?_⟩
        have hpow := pow_ten_le hii
        omega

/-- The number of digits of a positive number that has at most nine of them. -/
theorem nofslotspow_iff {n : Int} (hn : 0 < n) {w : Nat} :
    nofslotspow n = some w ↔ 0 < w ∧ w ≤ 9 ∧ 10 ^ (w - 1) ≤ n ∧ n < 10 ^ w := by
  obtain ⟨hsome, hnone⟩ := @powLoop_spec n 10 1 rfl (by decide)
  have hstart : nofslotspow n = powLoop n 10 (10 ^ 1) 1 := rfl
  have spec : ∀ v, nofslotspow n = some v → 0 < v ∧ v ≤ 9 ∧ 10 ^ (v - 1) ≤ n ∧ n < 10 ^ v := by
    intro v hv
    rw [hstart] at hv
    by_cases hbig : 10 ^ 9 ≤ n
    · rw [hnone hbig] at hv
      cases hv
    · obtain ⟨u, hu, hge, hu9, hlt, hlow⟩ := hsome (by omega)
      obtain rfl := Option.some.inj (hv.symm.trans hu)
      refine ⟨hge, hu9, ?_, hlt⟩
      rcases hlow with rfl | hlow
      · simpa using Int.add_one_le_of_lt hn
      · exact hlow
  refine ⟨spec w, fun h => ?_⟩
  rcases h with ⟨hpos, hw9, hlow, hlt⟩
  have hsmall : n < 10 ^ 9 := Int.lt_of_lt_of_le hlt (pow_ten_le hw9)
  obtain ⟨v, hv, -⟩ := hsome hsmall
  obtain ⟨-, -, hlow', hlt'⟩ := spec v (hstart ▸ hv)
  -- the two bounds leave one number of digits
  have hle : v ≤ w := by
    by_contra hgt
    have hpow := @pow_ten_le w (v - 1) (by omega)
    omega
  have hge : w ≤ v := by
    by_contra hgt
    have hpow := @pow_ten_le v (w - 1) (by omega)
    omega
  rw [hstart, hv, Nat.le_antisymm hle hge]

/-! ## The texts of the slots -/

/-- The text of the label of a slot. -/
def idstrText (idxpow idx : Nat) : List UInt8 := (padded idxpow idx).take 7

theorem nul_not_mem_padded (width n : Nat) : 0 ∉ padded width n := by
  intro h
  exact absurd (digit_of_mem_padded h).1 (by decide)

theorem text_initId (idxpow idx : Nat) : text (initId idxpow idx) = some (idstrText idxpow idx) := by
  rw [initId, stored_of_pos (by decide)]
  exact text_append_nul (fun h => nul_not_mem_padded idxpow idx (List.mem_of_mem_take h)) []

/-- The slots have different labels exactly if their number has at most seven digits. -/
theorem idstrText_distinct_iff {n : Int} {w : Nat} (hn : 0 < n) (hw : nofslotspow n = some w) :
    (∀ i j : Nat, (i : Int) < n → (j : Int) < n → idstrText w i = idstrText w j → i = j) ↔ n < 10 ^ 7 := by
  obtain ⟨hpos, hw9, hlow, hlt⟩ := (nofslotspow_iff hn).mp hw
  constructor
  · intro distinct
    by_contra hbig
    have h8 : 8 ≤ w := by
      by_contra hsmall
      have hpow := @pow_ten_le w 7 (by omega)
      omega
    -- the first two labels lose the digit in which they differ
    have hsame : idstrText w 0 = idstrText w 1 := by
      obtain rfl | rfl : w = 8 ∨ w = 9 := by omega
      · decide
      · decide
    exact absurd (distinct 0 1 (by omega) (by omega) hsame) (by decide)
  · intro hsmall i j hi hj h
    have h7 : w ≤ 7 := by
      by_contra hbig
      have hpow := @pow_ten_le 7 (w - 1) (by omega)
      omega
    have full : ∀ k : Nat, (k : Int) < n → idstrText w k = padded w k := by
      intro k hk
      have hpow : k < 10 ^ w := by exact_mod_cast Int.lt_trans hk hlt
      rw [idstrText, List.take_of_length_le]
      rw [length_padded hpos hpow]
      exact h7
    rw [full i hi, full j hj] at h
    exact padded_injective h

/-- Eight digits are cut to seven. -/
example : idstrText 8 12345678 = idstrText 8 12345670 := by decide

/-! ## The log files of the processes -/

theorem text_procnostr {idxpow procid : Nat} (hpow : idxpow ≤ 9) (hprocid : procid ≤ intMax) :
    text (procnostr idxpow procid) = some (45 :: padded idxpow procid) := by
  have hdigits : (Nat.toDigits 10 procid).length ≤ 10 :=
    (Nat.length_toDigits_le_iff (by decide) (by decide)).mpr (by unfold intMax at hprocid; omega)
  have hlength : (padded idxpow procid).length ≤ 10 := by
    rw [padded, List.length_map, paddedChars, List.length_append, List.length_replicate]
    omega
  rw [procnostr, stored_of_pos (by decide),
    List.take_of_length_le (by rw [List.length_cons]; omega)]
  refine text_append_nul (fun h => ?_) []
  cases List.mem_cons.mp h with
  | inl heq => exact absurd heq (by decide)
  | inr hmem => exact nul_not_mem_padded idxpow procid hmem

/-- The name of the file of one of several processes. -/
theorem getLogFilename_eq {getFileExtension : List UInt8 → Option (List UInt8)}
    {logfilename file : List UInt8} {procid : Nat} {nofprocs : Int} (hnof : 1 < nofprocs)
    (hprocid : procid ≤ intMax)
    (h : getLogFilename getFileExtension logfilename procid nofprocs = some file) :
    ∃ idxpow ext, nofslotspow nofprocs = some idxpow ∧ getFileExtension logfilename = some ext ∧
      file = logfilename.take (logfilename.length - ext.length) ++ 45 :: padded idxpow procid ++ ext := by
  rw [getLogFilename, if_pos hnof] at h
  obtain ⟨idxpow, hpow, h⟩ := Option.bind_eq_some_iff.mp h
  have hpow9 := ((nofslotspow_iff (by omega)).mp hpow).2.1
  obtain ⟨procnostr, hprocnostr, h⟩ := Option.bind_eq_some_iff.mp h
  obtain rfl := Option.some.inj ((text_procnostr hpow9 hprocid).symm.trans hprocnostr)
  obtain ⟨ext, hext, h⟩ := Option.bind_eq_some_iff.mp h
  refine ⟨idxpow, ext, hpow, hext, ?_⟩
  obtain ⟨rt, hrt, h⟩ := Option.bind_eq_some_iff.mp h
  rw [readBytes, if_pos (Nat.sub_le _ _)] at hrt
  obtain ⟨-, h⟩ := Option.ite_none_right_eq_some.mp h
  rw [← Option.some.inj h, ← Option.some.inj hrt]

/-- No two processes write to the same file. -/
theorem getLogFilename_injective (getFileExtension : List UInt8 → Option (List UInt8))
    {logfilename file : List UInt8} {procid procid' : Nat} {nofprocs : Int} (hnof : 1 < nofprocs)
    (hprocid : procid ≤ intMax) (hprocid' : procid' ≤ intMax)
    (h : getLogFilename getFileExtension logfilename procid nofprocs = some file)
    (h' : getLogFilename getFileExtension logfilename procid' nofprocs = some file) :
    procid = procid' := by
  obtain ⟨idxpow, ext, hpow, hext, rfl⟩ := getLogFilename_eq hnof hprocid h
  obtain ⟨idxpow', ext', hpow', hext', heq⟩ := getLogFilename_eq hnof hprocid' h'
  obtain rfl := Option.some.inj (hpow.symm.trans hpow')
  obtain rfl := Option.some.inj (hext.symm.trans hext')
  rw [List.append_cancel_right_eq, List.append_cancel_left_eq, List.cons.injEq] at heq
  exact padded_injective heq.2

end StrusWebService.Logger
