import StrusWebService.Library.Text
import StrusWebService.Logger.Content
import StrusWebService.Logger.Labels

/-! # The log as it is written by many threads

`logMessage` gets the label of its thread, formats the line in a buffer of its own, and
takes the mutex of the logger only for the output: the line and its end are two operations
on the stream, and a copy may go to the standard error. `logMessageDump` writes a header
and a content as they are. The log may itself be the standard error, and then it also gets
the alerts. Any number of threads take these steps in any order; other processes have files
of their own.
-/

namespace StrusWebService.Logger

open CString
open Text (str)

/-- A call of one of the two functions that write to the log, with what is in the buffer
on the stack before. -/
inductive Call where
  | logMessage (buf : Vector UInt8 4096) (fmt : CStr)
  | logMessageDump (header content : CStr)

/-- What a thread does next, with the pieces it has still to write. -/
inductive Writer where
  | idle
  | labelling (buf : Vector UInt8 4096) (fmt : CStr)
  | locking (pieces : List (List UInt8))
  | printing (pieces rest : List (List UInt8))
  | copying (rest : List (List UInt8))
  | alerting (rest : List (List UInt8))

/-- What the environment chooses: a call, the next step, or that the mutex cannot be taken. -/
inductive Act where
  | call (c : Call)
  | step
  | fail (what : List UInt8)

/-- The slots, the threads and the mutex, what is written through `m_logout` and what is on the
standard error, with the history of the run. -/
structure Output (Tid Id : Type*) (n : Nat) where
  threads : System Tid Id n
  writer : Tid → Writer := fun _ => .idle
  mutex : Option Tid := none
  logout : List UInt8 := []
  cerr : List UInt8 := []
  calls : List (Tid × Call) := []
  written : List (Tid × List UInt8) := []

def ovflText : List UInt8 := [79, 86, 70, 76]

theorem nul_not_mem_idstrText (idxpow idx : Nat) : 0 ∉ idstrText idxpow idx :=
  fun h => nul_not_mem_padded idxpow idx (List.mem_of_mem_take h)

/-- The text that `getThreadId` points to. -/
def Label.text {n : Nat} (idxpow : Nat) : Label n → CStr
  | .idstr ti => ⟨idstrText idxpow ti, nul_not_mem_idstrText idxpow ti⟩
  | .ovfl => ⟨ovflText, by decide⟩

theorem Label.length_text {n : Nat} (idxpow : Nat) (label : Label n) :
    (label.text idxpow).bytes.length ≤ 7 := by
  cases label with
  | idstr ti =>
      show ((Decimal.padded idxpow ti).take 7).length ≤ 7
      rw [List.length_take]
      exact Nat.min_le_left _ _
  | ovfl => exact (by decide : ovflText.length ≤ 7)

def frame {n : Nat} (idxpow : Nat) (buf : Vector UInt8 4096) (label : Label n) : Frame :=
  { buf := buf.toList
    label := label.text idxpow
    buf_length := by simp
    label_length := label.length_text idxpow }

def endl : List UInt8 := [10]

/-- What `m_logout` points to. -/
inductive Target where
  | cerr
  | cout
  | logfile
  deriving DecidableEq

def Target.ofName (logfilename : List UInt8) : Target :=
  if logfilename = str "stderr" ∨ logfilename = str "/dev/stderr" then .cerr
  else if logfilename = str "-" ∨ logfilename = str "stdout" ∨ logfilename = str "/dev/stdout" then
    .cout
  else .logfile

/-- The settings of a logger: the width of its labels, whether it is to copy its lines, and
where they go. -/
structure Settings where
  idxpow : Nat
  verbose : Bool
  target : Target

namespace Settings

/-- `WebRequestLogger::WebRequestLogger` -/
def new (getFileExtension : List UInt8 → Option (List UInt8)) (logfilename : List UInt8)
    (verbosity maxnofthreads : Int) (procid : Nat) (nofprocs : Int) : Option Settings := do
  let idxpow ← nofslotspow maxnofthreads
  let logfilename ← getLogFilename getFileExtension logfilename procid nofprocs
  some { idxpow := idxpow, verbose := 0 < verbosity, target := Target.ofName logfilename }

/-- A logger has labels for its threads, and writes to the log of its process. -/
theorem of_new {getFileExtension : List UInt8 → Option (List UInt8)} {logfilename : List UInt8}
    {verbosity maxnofthreads : Int} {procid : Nat} {nofprocs : Int} {settings : Settings}
    (h : new getFileExtension logfilename verbosity maxnofthreads procid nofprocs =
      some settings) :
    nofslotspow maxnofthreads = some settings.idxpow ∧
      ∃ file, getLogFilename getFileExtension logfilename procid nofprocs = some file ∧
        settings.target = Target.ofName file := by
  obtain ⟨idxpow, hidxpow, h⟩ := Option.bind_eq_some_iff.mp h
  obtain ⟨file, hfile, h⟩ := Option.bind_eq_some_iff.mp h
  cases h
  exact ⟨hidxpow, file, hfile, rfl⟩

variable (settings : Settings)

def copies : Bool := settings.verbose && settings.target = .logfile

/-- The lines are on the standard error, as they are or as a copy. -/
def shows : Bool := settings.target = .cerr || settings.copies

end Settings

section Steps

variable {Tid Id : Type*} {n : Nat}

def Output.initial (noId : Id) : Output Tid Id n := { threads := Logger.initial Tid n noId }

variable [DecidableEq Tid] [DecidableEq Id]

namespace Output

variable (s : Output Tid Id n) (t : Tid)

def goto (w : Writer) : Output Tid Id n := { s with writer := Function.update s.writer t w }

def enter (c : Call) : Output Tid Id n :=
  { s with calls := s.calls ++ [(t, c)] }.goto t
    (match c with
      | .logMessage buf fmt => .labelling buf fmt
      | .logMessageDump header content => .locking [header.bytes, content.bytes, endl])

def print (target : Target) (piece : List UInt8) : Output Tid Id n :=
  { s with
    logout := s.logout ++ piece
    cerr := if target = .cerr then s.cerr ++ piece else s.cerr }

/-- `strus::unique_lock lock( m_mutex)` -/
def acquire (pieces : List (List UInt8)) : Output Tid Id n :=
  { s with mutex := some t, written := s.written ++ [(t, pieces.flatten)] }.goto t
    (.printing pieces pieces)

end Output

/-- One step of a thread; a thread that waits for the mutex has none. -/
def Output.step (settings : Settings) (ids : Tid → Id) (s : Output Tid Id n) (a : Tid × Act) :
    Option (Output Tid Id n) :=
  let t := a.1
  match s.writer t, a.2 with
  | .idle, .call c => some (s.enter t c)
  -- one step in getThreadId; its last one returns the label, and the line is formatted
  | .labelling buf fmt, .step =>
      let s' := { s with threads := advance ids s.threads t }
      match s.threads.returns ids t with
      | none => some s'
      | some label =>
          (Logger.logMessage (frame settings.idxpow buf label) fmt.bytes).map fun line =>
            s'.goto t (.locking [line, endl])
  | .locking pieces, .step => if s.mutex = none then some (s.acquire t pieces) else none
  | .locking _, .fail what => some (s.goto t (.alerting [str "Failed to log: ", what, endl]))
  | .printing pieces (piece :: rest), .step =>
      some ((s.print settings.target piece).goto t (.printing pieces rest))
  | .printing pieces [], .step =>
      some (s.goto t (.copying (if settings.copies then pieces else [])))
  | .copying (piece :: rest), .step =>
      some ({ s with cerr := s.cerr ++ piece }.goto t (.copying rest))
  | .copying [], .step => some ({ s with mutex := none }.goto t .idle)
  | .alerting (piece :: rest), .step =>
      some ({ s with cerr := s.cerr ++ piece }.goto t (.alerting rest))
  | .alerting [], .step => some (s.goto t .idle)
  | _, _ => none

/-- The line of a call in a thread with the label, without its end. -/
def Call.line (label : List UInt8) : Call → List UInt8
  | .logMessage _ fmt => Collapse.collapse blank 32 (printedLine label fmt.bytes)
  | .logMessageDump header content => header.bytes ++ content.bytes

/-- All that a step can do. -/
inductive Output.Moves (settings : Settings) (ids : Tid → Id) (s : Output Tid Id n) (t : Tid) :
    Act → Output Tid Id n → Prop
  | message (buf : Vector UInt8 4096) (fmt : CStr) (hpos : s.writer t = .idle) :
      Moves settings ids s t (.call (.logMessage buf fmt))
        ({ s with calls := s.calls ++ [(t, Call.logMessage buf fmt)] }.goto t (.labelling buf fmt))
  | dump (header content : CStr) (hpos : s.writer t = .idle) :
      Moves settings ids s t (.call (.logMessageDump header content))
        ({ s with calls := s.calls ++ [(t, Call.logMessageDump header content)] }.goto t
          (.locking [header.bytes, content.bytes, endl]))
  | look (buf : Vector UInt8 4096) (fmt : CStr) (hpos : s.writer t = .labelling buf fmt)
      (hnone : s.threads.returns ids t = none) :
      Moves settings ids s t .step { s with threads := advance ids s.threads t }
  | format (buf : Vector UInt8 4096) (fmt : CStr) (label : Label n)
      (hpos : s.writer t = .labelling buf fmt) (hlabel : s.threads.returns ids t = some label) :
      Moves settings ids s t .step
        ({ s with threads := advance ids s.threads t }.goto t
          (.locking [(Call.logMessage buf fmt).line (label.text settings.idxpow).bytes, endl]))
  | acquire (pieces : List (List UInt8)) (hpos : s.writer t = .locking pieces)
      (hfree : s.mutex = none) : Moves settings ids s t .step (s.acquire t pieces)
  | fail (what : List UInt8) (pieces : List (List UInt8)) (hpos : s.writer t = .locking pieces) :
      Moves settings ids s t (.fail what)
        (s.goto t (.alerting [str "Failed to log: ", what, endl]))
  | print (pieces rest : List (List UInt8)) (piece : List UInt8)
      (hpos : s.writer t = .printing pieces (piece :: rest)) :
      Moves settings ids s t .step
        ((s.print settings.target piece).goto t (.printing pieces rest))
  | printed (pieces : List (List UInt8)) (hpos : s.writer t = .printing pieces []) :
      Moves settings ids s t .step (s.goto t (.copying (if settings.copies then pieces else [])))
  | copy (rest : List (List UInt8)) (piece : List UInt8)
      (hpos : s.writer t = .copying (piece :: rest)) :
      Moves settings ids s t .step ({ s with cerr := s.cerr ++ piece }.goto t (.copying rest))
  | release (hpos : s.writer t = .copying []) :
      Moves settings ids s t .step ({ s with mutex := none }.goto t .idle)
  | alert (rest : List (List UInt8)) (piece : List UInt8)
      (hpos : s.writer t = .alerting (piece :: rest)) :
      Moves settings ids s t .step ({ s with cerr := s.cerr ++ piece }.goto t (.alerting rest))
  | alerted (hpos : s.writer t = .alerting []) : Moves settings ids s t .step (s.goto t .idle)

variable {settings : Settings} {ids : Tid → Id} {noId : Id} {s s' : Output Tid Id n} {t : Tid}
  {act : Act}

theorem moves_of_step (h : s.step settings ids (t, act) = some s') :
    s.Moves settings ids t act s' := by
  unfold Output.step at h
  dsimp only at h
  split at h
  case h_1 hpos =>
    cases h
    rename_i c
    cases c with
    | logMessage buf fmt => exact .message buf fmt hpos
    | logMessageDump header content => exact .dump header content hpos
  case h_2 buf fmt hpos =>
    split at h
    case h_1 hnone =>
      cases h
      exact .look buf fmt hpos hnone
    case h_2 label hlabel =>
      rw [logMessage_eq _ fmt.nul_not_mem] at h
      cases h
      exact .format buf fmt label hpos hlabel
  case h_3 pieces hpos =>
    obtain ⟨hfree, h⟩ := Option.ite_none_right_eq_some.mp h
    cases h
    exact .acquire pieces hpos hfree
  case h_4 pieces what hpos =>
    cases h
    exact .fail what pieces hpos
  case h_5 pieces piece rest hpos =>
    cases h
    exact .print pieces rest piece hpos
  case h_6 pieces hpos =>
    cases h
    exact .printed pieces hpos
  case h_7 piece rest hpos =>
    cases h
    exact .copy rest piece hpos
  case h_8 hpos =>
    cases h
    exact .release hpos
  case h_9 piece rest hpos =>
    cases h
    exact .alert rest piece hpos
  case h_10 hpos =>
    cases h
    exact .alerted hpos
  case h_11 => cases h

/-! ## One line after the other -/

/-- The thread is in the scope of the lock. -/
def Writer.holds : Writer → Bool
  | .printing _ _ | .copying _ => true
  | _ => false

/-- What the thread has still to write to the log. -/
def Writer.toLog : Writer → List UInt8
  | .printing _ rest => rest.flatten
  | _ => []

/-- What the thread has still to write to the copy. -/
def Writer.toCopy : Writer → List UInt8
  | .printing pieces _ => pieces.flatten
  | .copying rest => rest.flatten
  | _ => []

/-- What has been handed to the stream under the mutex, line by line. -/
def Output.records (s : Output Tid Id n) : List UInt8 := s.written.flatMap (·.2)

/-- What the holder of the mutex does not have yet to write. -/
def Output.rest (s : Output Tid Id n) (left : Writer → List UInt8) : List UInt8 :=
  s.mutex.elim [] fun t => left (s.writer t)

def Output.Held (s : Output Tid Id n) : Prop :=
  ∀ t, s.mutex = some t ↔ (s.writer t).holds = true

omit [DecidableEq Id] in
@[simp] theorem goto_writer_self (s : Output Tid Id n) (t : Tid) (w : Writer) :
    (s.goto t w).writer t = w := Function.update_self ..

omit [DecidableEq Id] in
theorem goto_writer_of_ne (s : Output Tid Id n) {t u : Tid} (h : u ≠ t) (w : Writer) :
    (s.goto t w).writer u = s.writer u := Function.update_of_ne h ..

omit [DecidableEq Tid] [DecidableEq Id] in
theorem held_initial (noId : Id) : (Output.initial noId : Output Tid Id n).Held := by
  intro t
  simp [Output.initial, Writer.holds]

/-- The step neither takes nor releases the mutex. -/
structure Output.Keeps (s s' : Output Tid Id n) (t : Tid) (w : Writer) : Prop where
  mutex : s'.mutex = s.mutex
  writer : s'.writer = Function.update s.writer t w
  written : s'.written = s.written
  holds : w.holds = (s.writer t).holds

omit [DecidableEq Id] in
theorem Output.Keeps.held {w : Writer} (keeps : s.Keeps s' t w) (inv : s.Held) : s'.Held := by
  intro u
  rw [keeps.mutex, inv u, keeps.writer]
  by_cases hut : u = t
  · rw [hut, Function.update_self, keeps.holds]
  · rw [Function.update_of_ne hut]

omit [DecidableEq Id] in
/-- What is left to be written changes only if the holder of the mutex takes the step. -/
theorem Output.Keeps.rest {w : Writer} (keeps : s.Keeps s' t w) (inv : s.Held)
    (left : Writer → List UInt8) (hw : w.holds = true → left w = left (s.writer t)) :
    s'.rest left = s.rest left := by
  unfold Output.rest
  rw [keeps.mutex, keeps.writer]
  cases hm : s.mutex with
  | none => rfl
  | some u =>
      by_cases hut : u = t
      · subst hut
        have hold : w.holds = true := keeps.holds.trans ((inv u).mp hm)
        simpa using hw hold
      · simp [Function.update_of_ne hut]

omit [DecidableEq Id] in
theorem held_acquire (inv : s.Held) (hfree : s.mutex = none) (pieces : List (List UInt8)) :
    (s.acquire t pieces).Held := by
  intro u
  by_cases hut : u = t
  · subst hut
    simp [Output.acquire, Output.goto, Writer.holds]
  · have hu := inv u
    rw [hfree] at hu
    rw [Output.acquire, goto_writer_of_ne _ hut, ← hu]
    simp [Output.goto, Ne.symm hut]

omit [DecidableEq Id] in
theorem held_release (inv : s.Held) (hm : s.mutex = some t) :
    ({ s with mutex := none }.goto t .idle).Held := by
  intro u
  by_cases hut : u = t
  · subst hut
    simp [Output.goto, Writer.holds]
  · have hu := inv u
    rw [hm] at hu
    rw [goto_writer_of_ne _ hut, ← hu]
    simp [Output.goto, Ne.symm hut]

/-- A stream holds the lines written so far, up to what is left of the last one. -/
def Output.Whole (s : Output Tid Id n) (stream : List UInt8) (left : Writer → List UInt8) :
    Prop :=
  stream ++ s.rest left = s.records

section Streams

variable {w : Writer} {stream piece : List UInt8} {left : Writer → List UInt8}

omit [DecidableEq Id] in
theorem Output.Whole.keep (whole : s.Whole stream left) (keeps : s.Keeps s' t w) (inv : s.Held)
    (hleft : w.holds = true → left w = left (s.writer t)) : s'.Whole stream left := by
  unfold Output.Whole
  rw [keeps.rest inv left hleft, whole]
  simp only [Output.records, keeps.written]

omit [DecidableEq Id] in
theorem Output.Whole.output (whole : s.Whole stream left) (keeps : s.Keeps s' t w) (inv : s.Held)
    (hholds : w.holds = true) (hleft : piece ++ left w = left (s.writer t)) :
    s'.Whole (stream ++ piece) left := by
  have hm : s.mutex = some t := (inv t).mpr (keeps.holds ▸ hholds)
  have hrest : s.rest left = left (s.writer t) := by simp [Output.rest, hm]
  have hrest' : s'.rest left = left w := by simp [Output.rest, keeps.mutex, hm, keeps.writer]
  unfold Output.Whole at whole ⊢
  rw [hrest', List.append_assoc, hleft, ← hrest, whole]
  simp only [Output.records, keeps.written]

omit [DecidableEq Id] in
/-- The lock is taken for a new line. -/
theorem Output.Whole.acquire (whole : s.Whole stream left) {pieces : List (List UInt8)}
    (hfree : s.mutex = none) (hleft : left (.printing pieces pieces) = pieces.flatten) :
    (s.acquire t pieces).Whole stream left := by
  unfold Output.Whole Output.rest at whole ⊢
  rw [hfree, Option.elim_none, List.append_nil] at whole
  rw [whole, show (s.acquire t pieces).mutex = some t from rfl, Option.elim_some, Output.acquire,
    goto_writer_self, hleft]
  simp [Output.records, Output.goto]

omit [DecidableEq Id] in
/-- The lock is left when nothing is left to be written. -/
theorem Output.Whole.release (whole : s.Whole stream left) (inv : s.Held)
    (hpos : s.writer t = .copying []) (hleft : left (.copying []) = []) :
    ({ s with mutex := none }.goto t .idle).Whole stream left := by
  have hm : s.mutex = some t := (inv t).mpr (by rw [hpos]; rfl)
  unfold Output.Whole Output.rest at whole ⊢
  rw [hm, Option.elim_some, hpos, hleft] at whole
  exact whole

end Streams

/-- One holder, and whole lines in the log. -/
structure Sequential (s : Output Tid Id n) : Prop where
  held : s.Held
  logout : s.Whole s.logout Writer.toLog

theorem sequential_step (inv : Sequential s) (h : s.step settings ids (t, act) = some s') :
    Sequential s' := by
  have quiet : ∀ w, s.Keeps s' t w → s'.logout = s.logout →
      (w.holds = true → w.toLog = (s.writer t).toLog) → Sequential s' := fun w keeps hlog hleft =>
    ⟨keeps.held inv.held, hlog ▸ inv.logout.keep keeps inv.held hleft⟩
  cases moves_of_step h with
  | message buf fmt hpos =>
      exact quiet _ ⟨rfl, rfl, rfl, by rw [hpos]; rfl⟩ rfl (by simp [Writer.holds])
  | dump header content hpos =>
      exact quiet _ ⟨rfl, rfl, rfl, by rw [hpos]; rfl⟩ rfl (by simp [Writer.holds])
  | look buf fmt hpos hnone =>
      exact quiet _ ⟨rfl, (Function.update_eq_self t _).symm, rfl, rfl⟩ rfl fun _ => rfl
  | format buf fmt label hpos hlabel =>
      exact quiet _ ⟨rfl, rfl, rfl, by rw [hpos]; rfl⟩ rfl (by simp [Writer.holds])
  | acquire pieces hpos hfree =>
      exact ⟨held_acquire inv.held hfree pieces, inv.logout.acquire hfree rfl⟩
  | fail what pieces hpos =>
      exact quiet _ ⟨rfl, rfl, rfl, by rw [hpos]; rfl⟩ rfl (by simp [Writer.holds])
  | print pieces rest piece hpos =>
      have keeps : s.Keeps ((s.print settings.target piece).goto t (.printing pieces rest)) t
        (.printing pieces rest) := ⟨rfl, rfl, rfl, by rw [hpos]; rfl⟩
      exact ⟨keeps.held inv.held, inv.logout.output keeps inv.held rfl (by rw [hpos]; rfl)⟩
  | printed pieces hpos =>
      exact quiet _ ⟨rfl, rfl, rfl, by rw [hpos]; rfl⟩ rfl fun _ => by rw [hpos]; rfl
  | copy rest piece hpos =>
      exact quiet _ ⟨rfl, rfl, rfl, by rw [hpos]; rfl⟩ rfl fun _ => by rw [hpos]; rfl
  | release hpos =>
      have hm : s.mutex = some t := (inv.held t).mpr (by rw [hpos]; rfl)
      exact ⟨held_release inv.held hm, inv.logout.release inv.held hpos rfl⟩
  | alert rest piece hpos =>
      exact quiet _ ⟨rfl, rfl, rfl, by rw [hpos]; rfl⟩ rfl (by simp [Writer.holds])
  | alerted hpos =>
      exact quiet _ ⟨rfl, rfl, rfl, by rw [hpos]; rfl⟩ rfl (by simp [Writer.holds])

/-! ## The standard error -/

/-- A log that is the standard error has all that is written through `m_logout`. -/
def Output.Shown (target : Target) (s : Output Tid Id n) : Prop :=
  target = .cerr → s.logout.Sublist s.cerr

theorem shown_step (inv : s.Shown settings.target) (h : s.step settings ids (t, act) = some s') :
    s'.Shown settings.target := by
  cases moves_of_step h with
  | print pieces rest piece hpos =>
      intro htarget
      show (s.logout ++ piece).Sublist (if settings.target = .cerr then s.cerr ++ piece else s.cerr)
      rw [if_pos htarget]
      exact (inv htarget).append (List.Sublist.refl piece)
  | copy rest piece hpos =>
      exact fun htarget => (inv htarget).trans (List.sublist_append_left s.cerr piece)
  | alert rest piece hpos =>
      exact fun htarget => (inv htarget).trans (List.sublist_append_left s.cerr piece)
  | _ => exact inv

/-- A step at which the mutex can be taken. -/
def Unfailing (_ : Output Tid Id n) (a : Tid × Act) : Prop := ∀ what, a.2 ≠ .fail what

/-- What a thread may do in a run in which the mutex can always be taken. -/
def Writer.Plain (copies : Bool) : Writer → Prop
  | .alerting _ => False
  | .copying rest => copies = false → rest = []
  | _ => True

/-- The standard error is the log, has a copy of it, or has nothing. -/
structure Copied (settings : Settings) (s : Output Tid Id n) : Prop where
  plain : ∀ t, (s.writer t).Plain settings.copies
  same : settings.target = .cerr → s.cerr = s.logout
  copied : settings.copies = true → s.Whole s.cerr Writer.toCopy
  silent : settings.shows = false → s.cerr = []

omit [DecidableEq Tid] [DecidableEq Id] in
theorem copied_initial (noId : Id) (settings : Settings) :
    Copied settings (Output.initial noId : Output Tid Id n) where
  plain := fun _ => trivial
  same := fun _ => rfl
  copied := fun _ => rfl
  silent := fun _ => rfl

omit [DecidableEq Id] in
theorem plain_goto {copies : Bool} {w : Writer} (inv : ∀ t, (s.writer t).Plain copies)
    (hwriter : s'.writer = Function.update s.writer t w) (hw : w.Plain copies) (u : Tid) :
    (s'.writer u).Plain copies := by
  rw [hwriter]
  by_cases hut : u = t
  · rw [hut, Function.update_self]
    exact hw
  · rw [Function.update_of_ne hut]
    exact inv u

theorem Settings.target_of_copies (h : settings.copies = true) : settings.target = .logfile := by
  have hboth : settings.verbose = true ∧ settings.target = .logfile := by
    simpa [Settings.copies] using h
  exact hboth.2

omit [DecidableEq Id] in
theorem Copied.still {w : Writer} (inv : Copied settings s) (held : s.Held)
    (keeps : s.Keeps s' t w) (hlog : s'.logout = s.logout) (hcerr : s'.cerr = s.cerr)
    (hplain : w.Plain settings.copies)
    (hleft : settings.copies = true → w.holds = true → w.toCopy = (s.writer t).toCopy) :
    Copied settings s' where
  plain := plain_goto inv.plain keeps.writer hplain
  same h := by rw [hcerr, hlog, inv.same h]
  copied h := hcerr ▸ (inv.copied h).keep keeps held (hleft h)
  silent h := hcerr ▸ inv.silent h

omit [DecidableEq Id] in
/-- One output through `m_logout`; the copy does not depend on it. -/
theorem copied_print {pieces rest : List (List UInt8)} {piece : List UInt8}
    (inv : Copied settings s) (held : s.Held)
    (hpos : s.writer t = .printing pieces (piece :: rest)) :
    Copied settings ((s.print settings.target piece).goto t (.printing pieces rest)) := by
  have keeps : s.Keeps ((s.print settings.target piece).goto t (.printing pieces rest)) t
    (.printing pieces rest) := ⟨rfl, rfl, rfl, by rw [hpos]; rfl⟩
  have hcerr : settings.target ≠ .cerr →
      ((s.print settings.target piece).goto t (.printing pieces rest)).cerr = s.cerr :=
    fun h => if_neg h
  constructor
  · exact plain_goto inv.plain keeps.writer trivial
  · intro h
    show (if settings.target = .cerr then s.cerr ++ piece else s.cerr) = s.logout ++ piece
    rw [if_pos h, inv.same h]
  · intro h
    rw [hcerr (by rw [Settings.target_of_copies h]; decide)]
    exact (inv.copied h).keep keeps held fun _ => by rw [hpos]; rfl
  · intro h
    have hnot : settings.target ≠ .cerr := fun htarget => by simp [Settings.shows, htarget] at h
    rw [hcerr hnot, inv.silent h]

omit [DecidableEq Id] in
theorem copied_copy (inv : Copied settings s) (held : s.Held) {piece : List UInt8}
    {rest : List (List UInt8)} (hpos : s.writer t = .copying (piece :: rest)) :
    Copied settings ({ s with cerr := s.cerr ++ piece }.goto t (.copying rest)) := by
  have hplain := inv.plain t
  rw [hpos] at hplain
  have h : settings.copies = true := by
    by_contra hno
    cases hplain (by simpa using hno)
  have keeps : s.Keeps ({ s with cerr := s.cerr ++ piece }.goto t (.copying rest)) t
    (.copying rest) := ⟨rfl, rfl, rfl, by rw [hpos]; rfl⟩
  exact
    { plain := plain_goto inv.plain keeps.writer fun hno => by simp [h] at hno
      same := fun htarget => by simp [Settings.target_of_copies h] at htarget
      copied := fun _ => (inv.copied h).output keeps held rfl (by rw [hpos]; rfl)
      silent := fun hno => by simp [Settings.shows, h] at hno }

theorem copied_step (inv : Copied settings s) (held : s.Held)
    (ok : ∀ what, act ≠ .fail what) (h : s.step settings ids (t, act) = some s') :
    Copied settings s' := by
  cases moves_of_step h with
  | message buf fmt hpos | dump header content hpos =>
      exact inv.still held ⟨rfl, rfl, rfl, by rw [hpos]; rfl⟩ rfl rfl trivial
        (by simp [Writer.holds])
  | look buf fmt hpos hnone =>
      exact inv.still held ⟨rfl, (Function.update_eq_self t _).symm, rfl, rfl⟩ rfl rfl (inv.plain t)
        fun _ _ => rfl
  | format buf fmt label hpos hlabel =>
      exact inv.still held ⟨rfl, rfl, rfl, by rw [hpos]; rfl⟩ rfl rfl trivial
        (by simp [Writer.holds])
  | acquire pieces hpos hfree =>
      exact
        { plain := plain_goto inv.plain rfl trivial
          same := inv.same
          copied := fun h => (inv.copied h).acquire hfree rfl
          silent := inv.silent }
  | fail what pieces hpos => exact (ok what rfl).elim
  | print pieces rest piece hpos => exact copied_print inv held hpos
  | printed pieces hpos =>
      refine inv.still held ⟨rfl, rfl, rfl, by rw [hpos]; rfl⟩ rfl rfl ?_ fun h _ => ?_
      · intro h
        simp [h]
      · rw [hpos, h]
        rfl
  | copy rest piece hpos => exact copied_copy inv held hpos
  | release hpos =>
      exact
        { plain := plain_goto inv.plain rfl trivial
          same := inv.same
          copied := fun h => (inv.copied h).release held hpos rfl
          silent := inv.silent }
  | alert rest piece hpos | alerted hpos =>
      have hplain := inv.plain t
      rw [hpos] at hplain
      exact hplain.elim

end Steps

end StrusWebService.Logger
