import StrusWebService.Logger.MessageBuf

/-! # Exceptions with a message

The functions of `internationalization.cpp.in` print a text into a buffer and make an
exception of it. Each of the three has its own way to see that a text does not fit: the
first one cuts it at the last byte of the buffer, the second one misses a text that is just
too long, and the third one does not look.
-/

namespace StrusWebService.Messages

open CString
open Logger (sizeAdd printAt)

def decimal (n : Int) : List UInt8 :=
  (if n < 0 then [45] else []) ++ (Nat.toDigits 10 n.natAbs).map fun c => UInt8.ofNat c.toNat

def errorCodeText (apperrno : Int32) : List UInt8 := [91, 35] ++ decimal apperrno.toInt ++ [93, 32]

def msgBufSize : Nat := 4096

/-- The message of an exception where a size from the bound on is taken for that of a text
that does not fit. -/
def checkedMessage (bound : Nat) (buffer : List UInt8) (buffersize : Nat) : Option (List UInt8) :=
  if bound ≤ buffersize then
    (writeAt buffer (buffer.length - 1) [0]).bind fun buffer => readBytes buffer (buffer.length - 1)
  else readBytes buffer buffersize

/-- The message for a text, starting with any content of the buffer. An access outside of
the buffer has no result. -/
def runtimeError (buffer : Vector UInt8 msgBufSize) (text : List UInt8) : Option (List UInt8) :=
  (printAt buffer.toList 0 text).bind fun buffer =>
    checkedMessage (buffer.length - 1) buffer (sizeAdd 0 (printed text))

def runtimeErrorEc (buffer : Vector UInt8 msgBufSize) (apperrno : Int32) (text : List UInt8) :
    Option (List UInt8) :=
  (if apperrno ≠ 0 then
      (printAt buffer.toList 0 (errorCodeText apperrno)).map fun buffer =>
        (buffer, sizeAdd 0 (printed (errorCodeText apperrno)))
    else some (buffer.toList, 0)).bind fun (buffer, buffersize) =>
      (printAt buffer buffersize text).bind fun buffer =>
        checkedMessage (buffer.length + 1) buffer (sizeAdd buffersize (printed text))

/-- The size is not checked. -/
def logicError (buffer : Vector UInt8 1024) (text : List UInt8) : Option (List UInt8) :=
  (printAt buffer.toList 0 text).bind fun buffer =>
    (writeAt buffer (buffer.length - 1) [0]).bind fun buffer =>
      readBytes buffer (sizeAdd 0 (printed text))

/-! ### The prefix -/

theorem length_decimal (apperrno : Int32) : (decimal apperrno.toInt).length ≤ 11 := by
  have hlow := apperrno.le_toInt
  have hhigh := apperrno.toInt_lt
  have hdigits : (Nat.toDigits 10 apperrno.toInt.natAbs).length ≤ 10 :=
    (Nat.length_toDigits_le_iff (by decide) (by decide)).mpr (by omega)
  unfold decimal
  split
  · simp only [List.length_append, List.length_map, List.length_cons, List.length_nil]
    omega
  · simp only [List.length_append, List.length_map, List.length_nil]
    omega

theorem length_errorCodeText (apperrno : Int32) :
    0 < (errorCodeText apperrno).length ∧ (errorCodeText apperrno).length ≤ 15 := by
  have hdecimal := length_decimal apperrno
  simp only [errorCodeText, List.length_append, List.length_cons, List.length_nil]
  omega

/-! ### Messages of a printed text -/

section Printed

variable {text buffer behind : List UInt8} {size : Nat}

def Holds (buffer text : List UInt8) : Prop :=
  ∃ behind, buffer = text.take (buffer.length - 1) ++ 0 :: behind

theorem Holds.readBytes (h : Holds buffer text) (hsize : size < buffer.length)
    (htext : size ≤ text.length) :
    readBytes buffer size = some (text.take size) := by
  rcases h with ⟨behind, hbuffer⟩
  have htake : buffer.take size = text.take size := by
    rw [hbuffer, List.take_append_of_le_length, List.take_take, Nat.min_eq_left (by omega)]
    rw [List.length_take]
    omega
  rw [CString.readBytes, if_pos (Nat.le_of_lt hsize), htake]

theorem writeAt_last_nul (before behind : List UInt8) :
    ∃ behind', writeAt (before ++ 0 :: behind) (before.length + behind.length) [0] =
      some (before ++ 0 :: behind') ∧ behind'.length = behind.length := by
  rcases List.eq_nil_or_concat' behind with rfl | ⟨between, last, rfl⟩
  · have hwrite := @writeAt_behind before [0] [0] (Nat.le_refl _)
    exact ⟨[], by simpa using hwrite, rfl⟩
  · have hwrite := @writeAt_behind (before ++ 0 :: between) [last] [0] (Nat.le_refl _)
    have hsize : (before ++ 0 :: between).length = before.length + (between ++ [last]).length := by
      simp only [List.length_append, List.length_cons, List.length_nil]
    rw [hsize] at hwrite
    refine ⟨between ++ [0], by simpa using hwrite, ?_⟩
    simp only [List.length_append, List.length_cons, List.length_nil]

theorem Holds.writeAt_last (h : Holds buffer text) :
    ∃ buffer', writeAt buffer (buffer.length - 1) [0] = some buffer' ∧
      buffer'.length = buffer.length ∧ Holds buffer' text := by
  rcases h with ⟨behind, hbuffer⟩
  obtain ⟨behind', hwrite, hbehind⟩ := writeAt_last_nul (text.take (buffer.length - 1)) behind
  have hsize : buffer.length = (text.take (buffer.length - 1)).length + behind.length + 1 := by
    have htotal := congrArg List.length hbuffer
    rwa [List.length_append, List.length_cons] at htotal
  have hlength : (text.take (buffer.length - 1) ++ 0 :: behind').length = buffer.length := by
    rw [List.length_append, List.length_cons, hbehind]
    exact hsize.symm
  refine ⟨text.take (buffer.length - 1) ++ 0 :: behind', ?_, hlength, behind', by rw [hlength]⟩
  rw [← hwrite, ← hbuffer]
  exact congrArg (writeAt buffer · [0]) (by omega)

theorem Holds.checkedMessage_cut {bound : Nat} (h : Holds buffer text) (hcut : bound ≤ size)
    (hfull : buffer.length ≤ text.length + 1) (hpos : 0 < buffer.length) :
    checkedMessage bound buffer size = some (text.take (buffer.length - 1)) := by
  obtain ⟨buffer', hwrite, hlength, hholds⟩ := h.writeAt_last
  rw [checkedMessage, if_pos hcut, hwrite, Option.bind_some, hlength]
  exact hholds.readBytes (by omega) (by omega)

theorem checkedMessage_length {bound : Nat} {message : List UInt8} (hcut : size < bound)
    (h : checkedMessage bound buffer size = some message) : message.length = size := by
  rw [checkedMessage, if_neg (by omega)] at h
  exact readBytes_length h

/-- A bound behind the size of the buffer leaves out the text that is as long as the buffer. -/
theorem Holds.checkedMessage_iff (h : Holds buffer text) (hpos : 0 < buffer.length) :
    checkedMessage (buffer.length + 1) buffer text.length = some (text.take (buffer.length - 1)) ↔
      text.length ≠ buffer.length := by
  by_cases hcut : buffer.length + 1 ≤ text.length
  · exact iff_of_true (h.checkedMessage_cut hcut (by omega) hpos) (by omega)
  · by_cases hfull : text.length = buffer.length
    · -- the NUL is part of the message
      apply iff_of_false
      · intro hmessage
        have hwrong := checkedMessage_length (by omega) hmessage
        rw [List.length_take] at hwrong
        omega
      · exact fun hne => hne hfull
    · apply iff_of_true
      · rw [checkedMessage, if_neg hcut, h.readBytes (by omega) (Nat.le_refl _), List.take_length,
          List.take_of_length_le (by omega)]
      · exact hfull

end Printed

/-! ### The three functions -/

section Functions

variable {buf head text : List UInt8}

theorem holds_printAt (buf : List UInt8) (hpos : 0 < buf.length) (hsize : buf.length < 2 ^ 64)
    (text : List UInt8) :
    ∃ buffer, printAt buf 0 text = some buffer ∧ buffer.length = buf.length ∧ Holds buffer text := by
  obtain ⟨behind, hprint, hlength⟩ := Logger.printAt_start hpos hsize text
  exact ⟨_, hprint, hlength, behind, by rw [hlength]⟩

theorem holds_printAt_printAt (hhead : head.length < buf.length) (hsize : buf.length < 2 ^ 64)
    (text : List UInt8) :
    ∃ buffer, ((printAt buf 0 head).bind fun buf => printAt buf head.length text) = some buffer ∧
      buffer.length = buf.length ∧ Holds buffer (head ++ text) := by
  obtain ⟨behind, hprint, hlength⟩ := Logger.printAt_printAt hhead hsize text
  exact ⟨_, hprint, hlength, behind, by rw [hlength]⟩

theorem sizeAdd_printed {size : Nat} (hsize : size ≤ 15) (htext : text.length ≤ intMax) :
    sizeAdd size (printed text) = size + text.length := by
  rw [printed_of_le htext]
  apply Logger.sizeAdd_of_lt
  rw [intMax] at htext
  omega

theorem sizeAdd_printed_zero (htext : intMax < text.length) :
    sizeAdd 0 (printed text) = 2 ^ 64 - 1 := by
  rw [printed_of_lt htext]
  rfl

theorem sizeAdd_printed_pos {size : Nat} (hpos : 0 < size) (hsize : size ≤ 15)
    (htext : intMax < text.length) : sizeAdd size (printed text) = size - 1 := by
  rw [printed_of_lt htext]
  unfold sizeAdd
  omega

theorem runtimeError_eq (buffer : Vector UInt8 msgBufSize) (text : List UInt8) :
    runtimeError buffer text = some (text.take (msgBufSize - 1)) := by
  have hsize : buffer.toList.length = 4096 := buffer.length_toList
  obtain ⟨buffer', hprint, hlength, hholds⟩ :=
    holds_printAt buffer.toList (by omega) (by omega) text
  rw [hsize] at hlength
  rw [runtimeError, hprint, Option.bind_some, hlength]
  by_cases hmax : text.length ≤ intMax
  · rw [sizeAdd_printed (by omega) hmax, Nat.zero_add]
    by_cases hcut : 4095 ≤ text.length
    · have hmessage := hholds.checkedMessage_cut hcut (by omega) (by omega)
      rwa [hlength] at hmessage
    · rw [checkedMessage, if_neg hcut, hholds.readBytes (by omega) (Nat.le_refl _), List.take_length,
        List.take_of_length_le (by rw [msgBufSize]; omega)]
  · rw [sizeAdd_printed_zero (by omega)]
    rw [intMax] at hmax
    have hmessage := @Holds.checkedMessage_cut _ _ (2 ^ 64 - 1) 4095 hholds (by decide)
      (by omega) (by omega)
    rwa [hlength] at hmessage

/-- The prefix for an error code, which is none for the code 0. -/
def errorPrefix (apperrno : Int32) : List UInt8 :=
  if apperrno ≠ 0 then errorCodeText apperrno else []

theorem length_errorPrefix (apperrno : Int32) :
    (errorPrefix apperrno).length ≤ 15 ∧ ((errorPrefix apperrno).length = 0 ↔ apperrno = 0) := by
  have hlength := length_errorCodeText apperrno
  unfold errorPrefix
  split
  · rename_i hne
    exact ⟨hlength.2, fun h => by omega, fun h => absurd h hne⟩
  · rename_i heq
    exact ⟨Nat.zero_le _, fun _ => not_not.mp heq, fun _ => rfl⟩

theorem runtimeErrorEc_run (buffer : Vector UInt8 msgBufSize) (apperrno : Int32)
    (text : List UInt8) :
    ∃ buffer', buffer'.length = 4096 ∧ Holds buffer' (errorPrefix apperrno ++ text) ∧
      runtimeErrorEc buffer apperrno text =
        checkedMessage 4097 buffer' (sizeAdd (errorPrefix apperrno).length (printed text)) := by
  have hsize : buffer.toList.length = 4096 := buffer.length_toList
  have hshort := (length_errorCodeText apperrno).2
  unfold runtimeErrorEc errorPrefix
  split
  · have hhead : (errorCodeText apperrno).length < buffer.toList.length := by omega
    obtain ⟨buffer', hprint, hlength, hholds⟩ := holds_printAt_printAt hhead (by omega) text
    obtain ⟨first, hfirst, hrest⟩ := Option.bind_eq_some_iff.mp hprint
    have hcode : sizeAdd 0 (printed (errorCodeText apperrno)) = (errorCodeText apperrno).length := by
      rw [sizeAdd_printed (by omega) (by rw [intMax]; omega), Nat.zero_add]
    refine ⟨buffer', by rw [hlength, hsize], hholds, ?_⟩
    rw [hfirst, Option.map_some, Option.bind_some, hcode]
    dsimp only
    rw [hrest, Option.bind_some, hlength, hsize]
  · obtain ⟨buffer', hprint, hlength, hholds⟩ := holds_printAt buffer.toList (by omega) (by omega) text
    refine ⟨buffer', by rw [hlength, hsize], hholds, ?_⟩
    rw [Option.bind_some]
    dsimp only
    rw [hprint, Option.bind_some, hlength, hsize]
    rfl

/-- A text of 4096 bytes with its prefix is taken for one that fits, and so is one behind a
prefix whose length is not an `int`. -/
theorem runtimeErrorEc_iff (buffer : Vector UInt8 msgBufSize) (apperrno : Int32)
    (text : List UInt8) :
    runtimeErrorEc buffer apperrno text =
        some ((errorPrefix apperrno ++ text).take (msgBufSize - 1)) ↔
      (errorPrefix apperrno ++ text).length ≠ msgBufSize ∧ (apperrno = 0 ∨ text.length ≤ intMax) := by
  obtain ⟨buffer', hlength, hholds, hrun⟩ := runtimeErrorEc_run buffer apperrno text
  obtain ⟨hshort, hzero⟩ := length_errorPrefix apperrno
  rw [hrun, ← hzero, msgBufSize]
  generalize errorPrefix apperrno = head at *
  have hpos : 0 < buffer'.length := by omega
  have htotal : (head ++ text).length = head.length + text.length := List.length_append
  by_cases hmax : text.length ≤ intMax
  · have hmessage := hholds.checkedMessage_iff hpos
    rw [hlength, htotal] at hmessage
    rw [sizeAdd_printed hshort hmax, htotal]
    exact hmessage.trans ⟨fun hne => ⟨hne, Or.inr hmax⟩, fun hboth => hboth.1⟩
  · have hlong : 2147483647 < text.length := by
      rw [intMax] at hmax
      omega
    by_cases hhead : head.length = 0
    · have hmessage := @Holds.checkedMessage_cut _ _ (2 ^ 64 - 1) 4097 hholds (by decide) (by omega) hpos
      rw [hlength] at hmessage
      rw [hhead, sizeAdd_printed_zero (by omega)]
      exact iff_of_true hmessage ⟨by omega, Or.inl rfl⟩
    · -- only the prefix is left, without its last byte
      rw [sizeAdd_printed_pos (by omega) hshort (by omega)]
      apply iff_of_false
      · intro hmessage
        have hwrong := checkedMessage_length (by omega) hmessage
        rw [List.length_take] at hwrong
        omega
      · exact fun hboth => hboth.2.elim hhead hmax

theorem logicError_run (buffer : Vector UInt8 1024) (text : List UInt8) :
    ∃ buffer', buffer'.length = 1024 ∧ Holds buffer' text ∧
      logicError buffer text = readBytes buffer' (sizeAdd 0 (printed text)) := by
  have hsize : buffer.toList.length = 1024 := buffer.length_toList
  obtain ⟨buffer', hprint, hlength, hholds⟩ := holds_printAt buffer.toList (by omega) (by omega) text
  obtain ⟨buffer'', hwrite, hlast, hholds⟩ := hholds.writeAt_last
  refine ⟨buffer'', by omega, hholds, ?_⟩
  rw [logicError, hprint, Option.bind_some, hwrite, Option.bind_some]

/-- The size is not held against that of the buffer, so a longer text is read beyond its end. -/
theorem logicError_of_lt (buffer : Vector UInt8 1024) {text : List UInt8} (h : 1024 < text.length) :
    logicError buffer text = none := by
  obtain ⟨buffer', hlength, -, hrun⟩ := logicError_run buffer text
  have hsize : ¬ sizeAdd 0 (printed text) ≤ buffer'.length := by
    by_cases hmax : text.length ≤ intMax
    · rw [sizeAdd_printed (by omega) hmax]
      omega
    · rw [sizeAdd_printed_zero (by omega)]
      omega
  rw [hrun, readBytes, if_neg hsize]

/-- No other message is the text as far as it fits than that of one that fits. -/
theorem logicError_iff (buffer : Vector UInt8 1024) (text : List UInt8) :
    logicError buffer text = some (text.take 1023) ↔ text.length ≤ 1023 := by
  obtain ⟨buffer', hlength, hholds, hrun⟩ := logicError_run buffer text
  rw [hrun]
  constructor
  · intro hmessage
    have hright : 1023 < text.length → (text.take 1023).length = 1023 := by
      intro hlong
      rw [List.length_take]
      omega
    have hwrong := readBytes_length hmessage
    by_cases hmax : text.length ≤ intMax
    · rw [sizeAdd_printed (by omega) hmax] at hwrong
      omega
    · rw [sizeAdd_printed_zero (by omega)] at hwrong
      omega
  · intro hle
    rw [sizeAdd_printed (by omega) (by rw [intMax]; omega), Nat.zero_add,
      hholds.readBytes (by omega) (Nat.le_refl _), List.take_length, List.take_of_length_le hle]

/-- Which messages are the bytes of the prefixed text that fit. -/
theorem exceptions_iff (buffer buffer' : Vector UInt8 msgBufSize) (small : Vector UInt8 1024)
    (apperrno : Int32) (text : List UInt8) :
    runtimeError buffer text = some (text.take (msgBufSize - 1)) ∧
    (runtimeErrorEc buffer' apperrno text =
        some ((errorPrefix apperrno ++ text).take (msgBufSize - 1)) ↔
      (errorPrefix apperrno ++ text).length ≠ msgBufSize ∧
        (apperrno = 0 ∨ text.length ≤ intMax)) ∧
    (logicError small text = some (text.take (1024 - 1)) ↔ text.length < 1024) := by
  refine ⟨runtimeError_eq buffer text, runtimeErrorEc_iff buffer' apperrno text, ?_⟩
  rw [logicError_iff]
  omega

theorem exceptions_long :
    (runtimeErrorEc (Vector.replicate msgBufSize 0) 1 (List.replicate 4091 97) ≠
      some ((errorPrefix 1 ++ List.replicate 4091 97).take (msgBufSize - 1))) ∧
    logicError (Vector.replicate 1024 0) (List.replicate 1025 97) = none := by
  constructor
  · rw [Ne, runtimeErrorEc_iff, List.length_append, List.length_replicate]
    exact fun h => h.1 (by decide)
  · apply logicError_of_lt
    rw [List.length_replicate]
    decide

end Functions

end StrusWebService.Messages
