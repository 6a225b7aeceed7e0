import StrusWebService.Library.CString
import StrusWebService.Library.Collapse
import Mathlib.Algebra.Ring.Int.Defs
import Mathlib.Algebra.Ring.Nat

/-! # One log line

`logMessageBuf` prints the label of the thread and the message into a buffer, marks a
message that is too long, and then rewrites the buffer in place: one cursor reads, one
writes, and of a run of blanks and control bytes one space is left.
-/

namespace StrusWebService.Logger

open CString Collapse
open Text (str)

/-- Addition of `std::size_t` with an operand of another type. -/
def sizeAdd (size : Nat) (n : Int) : Nat := ((size + n) % 2 ^ 64).toNat

def messageHead (label : List UInt8) : List UInt8 := 35 :: label ++ [32]

def dots : List UInt8 := [46, 46, 46]

def blank (ch : UInt8) : Bool := ch ≤ 32

/-- The buffer with the two cursors, and where they stood at the writes made so far. -/
structure Cursors where
  buf : List UInt8
  bi : Nat := 0
  ci : Nat := 0
  writes : List (Nat × Nat) := []

namespace Cursors

variable (s : Cursors)

def ch : Option UInt8 := s.buf[s.bi]?

def put (value : UInt8) : Option Cursors :=
  (writeAt s.buf s.ci [value]).map fun buf =>
    { s with buf := buf, ci := s.ci + 1, writes := s.writes ++ [(s.ci, s.bi)] }

end Cursors

/-- `for (; *bi && (unsigned char)*bi <= 32; ++bi){}` -/
def skipBlanks (buf : List UInt8) : Nat → Nat → Option Nat
  | 0, _ => none
  | fuel + 1, bi =>
      buf[bi]?.bind fun ch =>
        if ch ≠ 0 ∧ blank ch = true then skipBlanks buf fuel (bi + 1) else some bi

/-- The loop over the buffer; every turn but the last passes a byte of it. -/
def compactLoop : Nat → Cursors → Option Cursors
  | 0, _ => none
  | fuel + 1, s =>
      s.ch.bind fun ch =>
        if ch = 0 then some s
        else if blank ch then
          (skipBlanks s.buf s.buf.length s.bi).bind fun bi =>
            let s := { s with bi := bi }
            s.ch.bind fun ch =>
              if ch = 0 then some s
              else
                (s.put 32).bind fun s =>
                  s.ch.bind fun ch =>
                    (s.put ch).bind fun s => compactLoop fuel { s with bi := s.bi + 1 }
        else (s.put ch).bind fun s => compactLoop fuel { s with bi := s.bi + 1 }

def printAt (buf : List UInt8) (position : Nat) (text : List UInt8) : Option (List UInt8) :=
  writeAt buf position (stored (sizeAdd buf.length (-position)) text)

def logMessageBuf (buf label text : List UInt8) : Option Cursors :=
  let bufsize := buf.length
  (printAt buf 0 (messageHead label)).bind fun buf =>
    let buflen := sizeAdd 0 (printed (messageHead label))
    (printAt buf buflen text).bind fun buf =>
      let buflen := sizeAdd buflen (printed text)
      (if sizeAdd bufsize (-4) ≤ buflen then writeAt buf (sizeAdd bufsize (-4)) (dots ++ [0])
        else some buf).bind fun buf =>
          (compactLoop (bufsize + 1) { buf := buf }).bind fun s => s.put 0

section Cursors

def Cursors.Behind (s : Cursors) : Prop := ∀ w ∈ s.writes, w.1 ≤ w.2

/-- The buffer holds what is written, what is read already and not yet overwritten, and the
rest to be read. -/
structure Cursors.At (s : Cursors) (out gap rest : List UInt8) : Prop where
  buf : s.buf = out ++ gap ++ rest
  ci : s.ci = out.length
  bi : s.bi = out.length + gap.length
  behind : s.Behind

variable {s : Cursors} {out gap rest : List UInt8}

theorem Cursors.At.ch {c : UInt8} (h : s.At out gap (c :: rest)) : s.ch = some c := by
  rw [Cursors.ch, h.buf, h.bi, ← List.length_append, List.getElem?_append_right (Nat.le_refl _),
    Nat.sub_self]
  rfl

theorem Cursors.put_eq {g : UInt8} {more : List UInt8} (hbuf : s.buf = out ++ g :: more)
    (hci : s.ci = out.length) (hle : s.ci ≤ s.bi) (hs : s.Behind) (value : UInt8) :
    ∃ s', s.put value = some s' ∧ s'.buf = out ++ value :: more ∧ s'.ci = out.length + 1 ∧
      s'.bi = s.bi ∧ s'.Behind := by
  have hwrite : writeAt s.buf s.ci [value] = some (out ++ value :: more) := by
    rw [hbuf, hci, writeAt_behind out (by simp)]
    simp
  let s' : Cursors :=
    { s with buf := out ++ value :: more, ci := s.ci + 1, writes := s.writes ++ [(s.ci, s.bi)] }
  refine ⟨s', by rw [Cursors.put, hwrite]; rfl, rfl, congrArg (· + 1) hci, rfl, ?_⟩
  intro w hw
  cases List.mem_append.mp hw with
  | inl hold => exact hs w hold
  | inr hnew =>
      obtain rfl := List.mem_singleton.mp hnew
      exact hle

theorem Cursors.At.le (h : s.At out gap rest) : s.ci ≤ s.bi := by
  rw [h.ci, h.bi]
  exact Nat.le_add_right _ _

theorem Cursors.At.put {g : UInt8} (h : s.At out (g :: gap) rest) (value : UInt8) :
    ∃ s', s.put value = some s' ∧ s'.At (out ++ [value]) gap rest := by
  have hsplit : s.buf = out ++ g :: (gap ++ rest) := by
    rw [h.buf]
    simp
  obtain ⟨s', hput, hbuf, hci, hbi, hbehind⟩ := Cursors.put_eq hsplit h.ci h.le h.behind value
  refine ⟨s', hput, ?_, ?_, ?_, hbehind⟩
  · rw [hbuf]
    simp
  · rw [hci]
    simp
  · rw [hbi, h.bi]
    simp only [List.length_cons, List.length_append, List.length_nil]
    omega

theorem Cursors.At.copy {c : UInt8} (h : s.At out gap (c :: rest)) :
    ∃ s' gap', s.put c = some s' ∧ { s' with bi := s'.bi + 1 }.At (out ++ [c]) gap' rest := by
  cases gap with
  | nil =>
      have hsplit : s.buf = out ++ c :: rest := by
        rw [h.buf]
        simp
      obtain ⟨s', hput, hbuf, hci, hbi, hbehind⟩ := Cursors.put_eq hsplit h.ci h.le h.behind c
      refine ⟨s', [], hput, ?_, ?_, ?_, hbehind⟩
      · show s'.buf = _
        rw [hbuf]
        simp
      · show s'.ci = _
        rw [hci]
        simp
      · show s'.bi + 1 = _
        rw [hbi, h.bi]
        simp
  | cons g gap =>
      obtain ⟨s', hput, hat⟩ := h.put c
      refine ⟨s', gap ++ [c], hput, ?_, hat.ci, ?_, hat.behind⟩
      · show s'.buf = _
        rw [hat.buf]
        simp
      · show s'.bi + 1 = _
        rw [hat.bi]
        simp only [List.length_append, List.length_singleton]
        omega

theorem Cursors.At.skip {run : List UInt8} (h : s.At out gap (run ++ rest)) :
    { s with bi := s.bi + run.length }.At out (gap ++ run) rest := by
  refine ⟨?_, h.ci, ?_, h.behind⟩
  · show s.buf = _
    rw [h.buf]
    simp
  · show s.bi + run.length = _
    rw [h.bi, List.length_append, Nat.add_assoc]

end Cursors

section Compact

theorem skipBlanks_spec (before behind : List UInt8) {run : List UInt8} {d : UInt8}
    (hrun : ∀ c ∈ run, blank c = true) (hnul : 0 ∉ run) (hd : d = 0 ∨ blank d = false) {fuel : Nat}
    (hfuel : run.length < fuel) :
    skipBlanks (before ++ run ++ d :: behind) fuel before.length =
      some (before.length + run.length) := by
  induction run generalizing before fuel with
  | nil =>
      obtain ⟨fuel, rfl⟩ := Nat.exists_eq_succ_of_ne_zero (Nat.ne_of_gt hfuel)
      have hstop : ¬(d ≠ 0 ∧ blank d = true) := by
        intro hboth
        cases hd with
        | inl hzero => exact hboth.1 hzero
        | inr hno => exact Bool.false_ne_true (hno.symm.trans hboth.2)
      simp [skipBlanks, hstop]
  | cons c run ih =>
      obtain ⟨fuel, rfl⟩ := Nat.exists_eq_succ_of_ne_zero (Nat.ne_of_gt (Nat.zero_lt_of_lt hfuel))
      have hc : c ≠ 0 := fun heq => hnul (heq ▸ List.mem_cons_self)
      have hread : (before ++ c :: run ++ d :: behind)[before.length]? = some c := by simp
      have hstep := ih (before ++ [c]) (fun e he => hrun e (List.mem_cons_of_mem c he))
        (fun hmem => hnul (List.mem_cons_of_mem c hmem)) (Nat.lt_of_succ_lt_succ hfuel)
      rw [skipBlanks, hread, Option.bind_some, if_pos ⟨hc, hrun c List.mem_cons_self⟩]
      have hbuf : before ++ [c] ++ run ++ d :: behind = before ++ c :: run ++ d :: behind := by simp
      rw [hbuf, List.length_append, List.length_singleton] at hstep
      rw [hstep, List.length_cons]
      congr 1
      omega

theorem skipBlanks_at {run behind : List UInt8} {d : UInt8} {s : Cursors} {out gap : List UInt8}
    (hat : s.At out gap (run ++ d :: behind)) (hrun : ∀ c ∈ run, blank c = true) (hnul : 0 ∉ run)
    (hd : d = 0 ∨ blank d = false) :
    skipBlanks s.buf s.buf.length s.bi = some (s.bi + run.length) := by
  have hbuf : s.buf = (out ++ gap) ++ run ++ d :: behind := by
    rw [hat.buf]
    simp
  have hfuel : run.length < s.buf.length := by
    rw [hbuf]
    simp only [List.length_append, List.length_cons]
    omega
  have hbi : s.bi = (out ++ gap).length := by rw [hat.bi, List.length_append]
  have hskip := skipBlanks_spec (out ++ gap) behind hrun hnul hd hfuel
  rwa [← hbuf, ← hbi] at hskip

theorem compactLoop_copy {c : UInt8} {rest : List UInt8} {s : Cursors} {out gap : List UInt8}
    (hat : s.At out gap (c :: rest)) (hc : blank c = false) (hnul : c ≠ 0) (fuel : Nat) :
    ∃ s' gap', compactLoop (fuel + 1) s = compactLoop fuel s' ∧ s'.At (out ++ [c]) gap' rest := by
  obtain ⟨s', gap', hput, hcopy⟩ := hat.copy
  refine ⟨_, gap', ?_, hcopy⟩
  rw [compactLoop, hat.ch, Option.bind_some, if_neg hnul, hc, if_neg Bool.false_ne_true, hput,
    Option.bind_some]

theorem compactLoop_blanks {run rest : List UInt8} {d : UInt8} {s : Cursors}
    {out gap : List UInt8} (hat : s.At out gap (run ++ d :: rest)) (hne : run ≠ [])
    (hrun : ∀ c ∈ run, blank c = true) (hnul : 0 ∉ run) (hd : blank d = false) (hd0 : d ≠ 0)
    (fuel : Nat) :
    ∃ s' gap', compactLoop (fuel + 1) s = compactLoop fuel s' ∧
      s'.At (out ++ [32] ++ [d]) gap' rest := by
  obtain ⟨c, run, rfl⟩ := List.exists_cons_of_ne_nil hne
  have hc : c ≠ 0 := fun heq => hnul (heq ▸ List.mem_cons_self)
  have hskip := skipBlanks_at hat hrun hnul (Or.inr hd)
  obtain ⟨g, more, hg⟩ : ∃ g more, gap ++ c :: run = g :: more :=
    List.exists_cons_of_ne_nil (by simp)
  have hblanks := hat.skip
  rw [hg] at hblanks
  obtain ⟨s₁, hput, hspace⟩ := hblanks.put 32
  obtain ⟨s₂, gap₂, hput', hcopy⟩ := hspace.copy
  refine ⟨_, gap₂, ?_, hcopy⟩
  rw [compactLoop, (show s.ch = some c from hat.ch), Option.bind_some, if_neg hc,
    if_pos (hrun c List.mem_cons_self), hskip, Option.bind_some]
  dsimp only
  rw [hblanks.ch, Option.bind_some, if_neg hd0, hput, Option.bind_some, hspace.ch,
    Option.bind_some, hput', Option.bind_some]

theorem compactLoop_end {t behind : List UInt8} {s : Cursors} {out gap : List UInt8}
    (hat : s.At out gap (t ++ 0 :: behind)) (ht : ∀ c ∈ t, blank c = true) (hnul : 0 ∉ t)
    (fuel : Nat) :
    ∃ s', compactLoop (fuel + 1) s = some s' ∧ s'.At out (gap ++ t) (0 :: behind) := by
  cases t with
  | nil =>
      refine ⟨s, ?_, ?_⟩
      · rw [compactLoop, hat.ch, Option.bind_some, if_pos rfl]
      · rwa [List.append_nil]
  | cons c t =>
      have hc : c ≠ 0 := fun heq => hnul (heq ▸ List.mem_cons_self)
      have hend := hat.skip
      refine ⟨_, ?_, hend⟩
      rw [compactLoop, (show s.ch = some c from hat.ch), Option.bind_some, if_neg hc,
        if_pos (ht c List.mem_cons_self), skipBlanks_at hat ht hnul (Or.inl rfl), Option.bind_some]
      dsimp only
      rw [hend.ch, Option.bind_some, if_pos rfl]

/-- The loop writes the text with its runs of blanks collapsed. -/
theorem compactLoop_spec {t : List UInt8} (hnul : 0 ∉ t) (behind : List UInt8) {s : Cursors}
    {out gap : List UInt8} {fuel : Nat} (hat : s.At out gap (t ++ 0 :: behind))
    (hfuel : t.length < fuel) :
    ∃ s' gap', compactLoop fuel s = some s' ∧
      s'.At (out ++ collapse blank 32 t) gap' (0 :: behind) := by
  obtain ⟨fuel, rfl⟩ := Nat.exists_eq_succ_of_ne_zero (Nat.ne_of_gt (Nat.zero_lt_of_lt hfuel))
  induction t using runs_induct blank generalizing s out gap fuel with
  | blanks t ht =>
      obtain ⟨s', hloop, hend⟩ := compactLoop_end hat ht hnul fuel
      refine ⟨s', gap ++ t, hloop, ?_⟩
      rwa [collapse_blanks ht, List.append_nil]
  | cons c t hc ih =>
      have hc0 : c ≠ 0 := fun heq => hnul (heq ▸ List.mem_cons_self)
      rw [List.length_cons] at hfuel
      obtain ⟨fuel, rfl⟩ := Nat.exists_eq_succ_of_ne_zero (n := fuel) (by omega)
      obtain ⟨s', gap', hturn, hat'⟩ := compactLoop_copy hat hc hc0 (fuel + 1)
      obtain ⟨s'', gap'', hloop, hend⟩ :=
        ih (fun hmem => hnul (List.mem_cons_of_mem c hmem)) hat' fuel (by omega)
      refine ⟨s'', gap'', hturn.trans hloop, ?_⟩
      rwa [collapse_cons hc, List.append_cons]
  | gap run d t hrun hne hd ih =>
      have hrest : run ++ d :: t ++ 0 :: behind = run ++ d :: (t ++ 0 :: behind) := by simp
      rw [hrest] at hat
      have hd0 : d ≠ 0 := fun heq => hnul (by simp [heq])
      have hpos : 0 < run.length := List.length_pos_of_ne_nil hne
      rw [List.length_append, List.length_cons] at hfuel
      obtain ⟨fuel, rfl⟩ := Nat.exists_eq_succ_of_ne_zero (n := fuel) (by omega)
      obtain ⟨s', gap', hturn, hat'⟩ := compactLoop_blanks hat hne hrun
        (fun h => hnul (List.mem_append_left _ h)) hd hd0 (fuel + 1)
      obtain ⟨s'', gap'', hloop, hend⟩ := ih (fun h => hnul (by simp [h])) hat' fuel (by omega)
      refine ⟨s'', gap'', hturn.trans hloop, ?_⟩
      rw [collapse_gap hrun hne hd]
      simpa using hend

end Compact

section Message

/-- The message with its label, as far as it fits: complete, or cut and marked. -/
def messageLine (label text : List UInt8) : List UInt8 :=
  if (messageHead label ++ text).length < 4092 then messageHead label ++ text
  else (messageHead label ++ text).take 4092 ++ dots

/-- What is in the buffer before it is compacted. A text that is too long for an `int` is
not marked. -/
def printedLine (label text : List UInt8) : List UInt8 :=
  if intMax < text.length then (messageHead label ++ text).take 4095 else messageLine label text

theorem sizeAdd_sub {size n : Nat} (hsize : size < 2 ^ 64) (h : n ≤ size) :
    sizeAdd size (-n) = size - n := by
  unfold sizeAdd
  omega

theorem sizeAdd_of_lt {size n : Nat} (h : size + n < 2 ^ 64) : sizeAdd size n = size + n := by
  unfold sizeAdd
  omega

variable {buf label text : List UInt8}

theorem length_messageHead (label : List UInt8) :
    (messageHead label).length = label.length + 2 := by
  simp only [messageHead, List.length_append, List.length_cons, List.length_nil]

theorem printAt_start {buf : List UInt8} (hpos : 0 < buf.length) (hsize : buf.length < 2 ^ 64)
    (text : List UInt8) :
    ∃ behind, printAt buf 0 text = some (text.take (buf.length - 1) ++ 0 :: behind) ∧
      (text.take (buf.length - 1) ++ 0 :: behind).length = buf.length := by
  have hfits : (text.take (buf.length - 1) ++ [0]).length ≤ buf.length := by
    simp only [List.length_append, List.length_take, List.length_singleton]
    omega
  have hwrite := writeAt_behind [] hfits
  have hroom : sizeAdd buf.length (-(0 : Nat)) = buf.length := by
    rw [sizeAdd_sub hsize (by omega), Nat.sub_zero]
  refine ⟨buf.drop (text.take (buf.length - 1) ++ [0]).length, ?_, ?_⟩
  · rw [printAt, hroom, stored_of_pos hpos]
    simpa using hwrite
  · simp only [List.length_append, List.length_cons, List.length_drop, List.length_take,
      List.length_nil]
    omega

theorem printAt_printAt {buf head : List UInt8} (hhead : head.length < buf.length)
    (hsize : buf.length < 2 ^ 64) (text : List UInt8) :
    ∃ behind, ((printAt buf 0 head).bind fun buf => printAt buf head.length text) =
      some ((head ++ text).take (buf.length - 1) ++ 0 :: behind) ∧
      ((head ++ text).take (buf.length - 1) ++ 0 :: behind).length = buf.length := by
  obtain ⟨rest, hfirst, hlength⟩ := printAt_start (by omega) hsize head
  rw [List.take_of_length_le (by omega)] at hfirst hlength
  have hroom : sizeAdd (head ++ 0 :: rest).length (-(head.length : Nat)) = buf.length - head.length := by
    rw [hlength, sizeAdd_sub hsize (by omega)]
  have hrest : (0 :: rest).length = buf.length - head.length := by
    rw [List.length_append] at hlength
    omega
  have hfits : (text.take (buf.length - head.length - 1) ++ [0]).length ≤ (0 :: rest).length := by
    rw [hrest]
    simp only [List.length_append, List.length_take, List.length_singleton]
    omega
  have htake : (head ++ text).take (buf.length - 1) = head ++ text.take (buf.length - head.length - 1) := by
    rw [List.take_append, List.take_of_length_le (by omega)]
    congr 2
    omega
  refine ⟨(0 :: rest).drop (text.take (buf.length - head.length - 1) ++ [0]).length, ?_, ?_⟩
  · rw [hfirst, Option.bind_some, printAt, hroom, stored_of_pos (by omega), writeAt_behind head hfits,
      htake]
    simp
  · rw [htake]
    simp only [List.length_append, List.length_cons, List.length_drop, List.length_take,
      List.length_nil] at hrest ⊢
    omega

theorem print_spec (text : List UInt8) (hbuf : buf.length = 4096) (hlabel : label.length ≤ 7) :
    ∃ behind, ((printAt buf 0 (messageHead label)).bind fun buf =>
        printAt buf (messageHead label).length text) =
      some ((messageHead label ++ text).take 4095 ++ 0 :: behind) ∧
      ((messageHead label ++ text).take 4095 ++ 0 :: behind).length = 4096 := by
  have hhead : (messageHead label).length < buf.length := by
    rw [length_messageHead]
    omega
  have hprint := printAt_printAt hhead (by omega) text
  rw [hbuf] at hprint
  exact hprint

theorem mark_spec (hlabel : label.length ≤ 7) {behind : List UInt8}
    (hlength : ((messageHead label ++ text).take 4095 ++ 0 :: behind).length = 4096) :
    ∃ behind', (if sizeAdd 4096 (-4) ≤ sizeAdd (messageHead label).length (printed text) then
        writeAt ((messageHead label ++ text).take 4095 ++ 0 :: behind) (sizeAdd 4096 (-4))
          (dots ++ [0])
      else some ((messageHead label ++ text).take 4095 ++ 0 :: behind)) =
        some (printedLine label text ++ 0 :: behind') := by
  have hhead := length_messageHead label
  have hfull : (messageHead label ++ text).length = label.length + 2 + text.length := by
    rw [List.length_append, hhead]
  have hend : sizeAdd 4096 (-4) = 4092 := by decide
  rw [hend]
  by_cases hmax : intMax < text.length
  · have hlen : sizeAdd (messageHead label).length (printed text) = label.length + 1 := by
      rw [hhead, printed_of_lt hmax]
      unfold sizeAdd
      omega
    refine ⟨behind, ?_⟩
    rw [hlen, if_neg (by omega), printedLine, if_pos hmax]
  · have hle := Nat.le_of_not_lt hmax
    have hlen : sizeAdd (messageHead label).length (printed text) =
        (messageHead label ++ text).length := by
      unfold intMax at hle
      rw [printed_of_le (Nat.le_of_not_lt hmax), sizeAdd_of_lt (by omega), List.length_append]
    rw [hlen, printedLine, if_neg hmax, messageLine]
    generalize messageHead label ++ text = full at hfull hlength
    by_cases hshort : full.length < 4092
    · refine ⟨behind, ?_⟩
      rw [if_neg (by omega), if_pos hshort, List.take_of_length_le (by omega)]
    · have hsplit : full.take 4095 = full.take 4092 ++ (full.drop 4092).take 3 := by
        rw [← List.take_add]
      have htake : (full.take 4092).length = 4092 := by
        rw [List.length_take]
        omega
      rw [hsplit, List.append_assoc, List.length_append, htake] at hlength
      have hfits : (dots ++ [0]).length ≤ ((full.drop 4092).take 3 ++ 0 :: behind).length := by
        show 4 ≤ _
        omega
      have hwrite := writeAt_behind (full.take 4092) hfits
      rw [htake] at hwrite
      rw [if_pos (by omega), if_neg hshort, hsplit, List.append_assoc, hwrite]
      exact ⟨_, by simp only [List.append_assoc, List.singleton_append]; rfl⟩

theorem nul_not_mem_printedLine (hlabel : 0 ∉ label) (htext : 0 ∉ text) :
    0 ∉ printedLine label text := by
  have hfull : 0 ∉ messageHead label ++ text := by
    simp [messageHead, hlabel, htext]
  unfold printedLine messageLine
  intro h
  split at h
  · exact hfull (List.mem_of_mem_take h)
  · split at h
    · exact hfull h
    · cases List.mem_append.mp h with
      | inl htake => exact hfull (List.mem_of_mem_take htake)
      | inr hdots => exact absurd hdots (by decide)

theorem length_printedLine_le : (printedLine label text).length ≤ 4095 := by
  unfold printedLine messageLine
  split
  · rw [List.length_take]
    exact Nat.min_le_left _ _
  · split
    · omega
    · rw [List.length_append, List.length_take]
      show _ + 3 ≤ 4095
      omega

theorem le_of_mem_line {t : List UInt8} {c : UInt8} (h : c ∈ collapse blank 32 t) : 32 ≤ c := by
  cases hc : blank c with
  | true =>
      rw [eq_space_of_mem_collapse h hc]
      exact UInt8.le_refl 32
  | false =>
      have hlt : ¬c ≤ 32 := of_decide_eq_false hc
      exact UInt8.le_of_lt (UInt8.not_le.mp hlt)

/-- What `logMessageBuf` does for every message: the line in the buffer is what was printed,
collapsed, and no write was made behind the read cursor. -/
theorem logMessageBuf_spec (hbuf : buf.length = 4096) (hlabel : label.length ≤ 7)
    (hnul : 0 ∉ label) (htext : 0 ∉ text) :
    ∃ s, logMessageBuf buf label text = some s ∧
      CString.text s.buf = some (collapse blank 32 (printedLine label text)) ∧ s.Behind := by
  obtain ⟨behind, hprint, hlength⟩ := print_spec text hbuf hlabel
  obtain ⟨behind', hmark⟩ := mark_spec hlabel hlength
  have hhead : sizeAdd 0 (printed (messageHead label)) = (messageHead label).length := by
    have hle : (messageHead label).length ≤ 9 := by
      rw [length_messageHead]
      omega
    rw [printed_of_le (Nat.le_trans hle (by decide)), sizeAdd_of_lt (by omega), Nat.zero_add]
  let start : Cursors := { buf := printedLine label text ++ 0 :: behind' }
  have hstart : start.At [] [] (printedLine label text ++ 0 :: behind') :=
    ⟨rfl, rfl, rfl, by simp [Cursors.Behind, start]⟩
  obtain ⟨s, gap, hloop, hend⟩ := compactLoop_spec (nul_not_mem_printedLine hnul htext) behind'
    hstart (Nat.lt_succ_of_le (Nat.le_trans length_printedLine_le (by decide : 4095 ≤ 4096)))
  obtain ⟨s', gap', hput, hdone⟩ := hend.copy
  refine ⟨s', ?_, ?_, hdone.behind⟩
  · rw [logMessageBuf]
    dsimp only
    rw [hhead, hbuf, ← Option.bind_assoc, hprint, Option.bind_some, hmark, Option.bind_some, hloop,
      Option.bind_some, hput]
  · have hline : s'.buf = collapse blank 32 (printedLine label text) ++ 0 :: (gap' ++ behind') := by
      rw [show s'.buf = _ from hdone.buf]
      simp
    rw [hline]
    apply text_append_nul
    intro hzero
    exact absurd (le_of_mem_line hzero) (by decide)

end Message

section Line

/-- One log call, one clean line: what `logMessageBuf` has to leave in its buffer. -/
def LogsLine (buf label text : List UInt8) : Prop :=
  ∃ s, logMessageBuf buf label text = some s ∧
    CString.text s.buf = some (collapse blank 32 (messageLine label text)) ∧
    (∀ c ∈ collapse blank 32 (messageLine label text), 32 ≤ c) ∧ ∀ w ∈ s.writes, w.1 ≤ w.2

variable {buf label text : List UInt8}

theorem logsLine_iff_collapse (hbuf : buf.length = 4096) (hlabel : label.length ≤ 7)
    (hnul : 0 ∉ label) (htext : 0 ∉ text) :
    LogsLine buf label text ↔
      collapse blank 32 (printedLine label text) = collapse blank 32 (messageLine label text) := by
  obtain ⟨s, hlog, hline, hbehind⟩ := logMessageBuf_spec hbuf hlabel hnul htext
  constructor
  · intro h
    rcases h with ⟨s', hlog', hline', -⟩
    obtain rfl := Option.some.inj (hlog.symm.trans hlog')
    exact Option.some.inj (hline.symm.trans hline')
  · intro h
    exact ⟨s, hlog, h ▸ hline, fun c hc => le_of_mem_line hc, hbehind⟩

/-- A text that is too long for an `int` is logged well only if the mark is in the text. -/
theorem collapse_printedLine_iff (hmax : intMax < text.length) :
    collapse blank 32 (printedLine label text) = collapse blank 32 (messageLine label text) ↔
      ((messageHead label ++ text).drop 4092).take 3 = dots := by
  have hlength : 4095 ≤ (messageHead label ++ text).length := by
    rw [List.length_append]
    exact Nat.le_trans (Nat.le_of_lt (Nat.lt_trans (by decide) hmax)) (Nat.le_add_left _ _)
  rw [printedLine, if_pos hmax, messageLine, if_neg (by omega)]
  generalize messageHead label ++ text = full at hlength
  have hsplit : full.take 4095 = full.take 4092 ++ (full.drop 4092).take 3 := by
    rw [← List.take_add]
  rw [hsplit]
  constructor
  · intro h
    -- The bytes that are no blanks are the same, and the mark consists of such bytes.
    have hfilter := congrArg (List.filter fun c => !blank c) h
    rw [filter_collapse rfl, filter_collapse rfl, List.filter_append, List.filter_append,
      List.append_right_inj] at hfilter
    have hdots : dots.filter (fun c => !blank c) = dots := by decide
    rw [hdots] at hfilter
    have hsub : (((full.drop 4092).take 3).filter fun c => !blank c).Sublist
      ((full.drop 4092).take 3) := List.filter_sublist
    rw [hfilter] at hsub
    refine (hsub.eq_of_length ?_).symm
    rw [List.length_take, List.length_drop]
    show 3 = _
    omega
  · intro h
    rw [h]

/-- One log call leaves one clean line, unless the text is too long for an `int`: then the
line is cut, and not marked. -/
theorem logsLine_iff (buf label text : List UInt8) (hbuf : buf.length = 4096)
    (hlabel : label.length ≤ 7) (hnul : 0 ∉ label) (htext : 0 ∉ text) :
    LogsLine buf label text ↔
      text.length ≤ intMax ∨ ((messageHead label ++ text).drop 4092).take 3 = dots := by
  rw [logsLine_iff_collapse hbuf hlabel hnul htext]
  by_cases hmax : intMax < text.length
  · rw [collapse_printedLine_iff hmax]
    exact (or_iff_right (Nat.not_le_of_lt hmax)).symm
  · rw [printedLine, if_neg hmax]
    exact iff_of_true rfl (Or.inl (Nat.le_of_not_lt hmax))

theorem logsLine_twoLines :
    LogsLine (List.replicate 4096 0) (str "1") (str "a\r\n b\n") :=
  (logsLine_iff (List.replicate 4096 0) (str "1") (str "a\r\n b\n")
    List.length_replicate (by decide) (by decide) (by decide)).mpr (Or.inl (by decide))

theorem logsLine_long_not :
    ∃ text : List UInt8, text.length = 2147483648 ∧ 0 ∉ text ∧
      ¬LogsLine (List.replicate 4096 0) (str "1") text := by
  refine ⟨List.replicate 2147483648 97, List.length_replicate, ?_, ?_⟩
  · intro hzero
    exact absurd (List.eq_of_mem_replicate hzero) (by decide)
  · have hzero : 0 ∉ List.replicate 2147483648 (97 : UInt8) := by
      intro hzero
      exact absurd (List.eq_of_mem_replicate hzero) (by decide)
    have hmax : intMax < (List.replicate 2147483648 (97 : UInt8)).length := by
      rw [List.length_replicate]
      decide
    rw [logsLine_iff_collapse List.length_replicate (by decide) (by decide) hzero,
      collapse_printedLine_iff hmax, List.drop_append, List.drop_of_length_le (by decide),
      List.nil_append, List.drop_replicate, List.take_replicate]
    decide

end Line

end StrusWebService.Logger
