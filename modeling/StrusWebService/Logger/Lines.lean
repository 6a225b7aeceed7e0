import StrusWebService.Logger.Output
import Mathlib.Data.List.Forall2

/-! # The lines of the log

Every line of the log is the line of one call, and every thread outside of the log functions
has written one for each of its calls. As long as the labels of the slots are different, the
lines with the label of a thread are the messages of this thread.
-/

namespace StrusWebService.Logger

open CString
open Text (str)

section Steps

variable {Tid Id : Type*} {n : Nat} [DecidableEq Tid] [DecidableEq Id] {settings : Settings}
  {ids : Tid → Id} {noId : Id} {s s' : Output Tid Id n} {t : Tid} {act : Act}

/-! ## Every call in its turn -/

/-- The line of a call of the thread, with a label it has been answered with. -/
inductive Rendered (idxpow : Nat) (answers : List (Tid × Label n)) (t : Tid) :
    Call → List UInt8 → Prop
  | message (buf : Vector UInt8 4096) (fmt : CStr) (label : Label n)
      (answered : (t, label) ∈ answers) :
      Rendered idxpow answers t (.logMessage buf fmt)
        ((Call.logMessage buf fmt).line (label.text idxpow).bytes ++ endl)
  | dump (header content : CStr) :
      Rendered idxpow answers t (.logMessageDump header content)
        (header.bytes ++ content.bytes ++ endl)

/-- The entries of a thread in a history. -/
def ofThread {α : Type*} (t : Tid) (history : List (Tid × α)) : List α :=
  (history.filter fun entry => entry.1 = t).map (·.2)

/-- The call that a thread has not yet taken the mutex for. -/
def Writer.Pending (idxpow : Nat) (answers : List (Tid × Label n)) (t : Tid) :
    Writer → List Call → Prop
  | .labelling buf fmt, pending => pending = [.logMessage buf fmt]
  | .locking pieces, pending => ∃ c, pending = [c] ∧ Rendered idxpow answers t c pieces.flatten
  | _, pending => pending = []

/-- The lines of a thread are those of its calls, in their order. -/
def Recorded (idxpow : Nat) (s : Output Tid Id n) (t : Tid) : Prop :=
  ∃ done pending, ofThread t s.calls = done ++ pending ∧
    List.Forall₂ (Rendered idxpow s.threads.answers t) done (ofThread t s.written) ∧
    (s.writer t).Pending idxpow s.threads.answers t pending

omit [DecidableEq Id] in
theorem ofThread_self {α : Type*} (t : Tid) (history : List (Tid × α)) (a : α) :
    ofThread t (history ++ [(t, a)]) = ofThread t history ++ [a] := by
  simp [ofThread]

omit [DecidableEq Id] in
theorem ofThread_other {α : Type*} {t u : Tid} (h : u ≠ t) (history : List (Tid × α)) (a : α) :
    ofThread u (history ++ [(t, a)]) = ofThread u history := by
  simp [ofThread, Ne.symm h]

section Records

variable {idxpow : Nat} {answers answers' : List (Tid × Label n)} {u : Tid}

omit [DecidableEq Tid] [DecidableEq Id] in
theorem Rendered.pieces {c : Call} {line : List UInt8} (pieces : List (List UInt8))
    (h : Rendered idxpow answers u c line) (hline : line = pieces.flatten) :
    Rendered idxpow answers u c pieces.flatten := hline ▸ h

omit [DecidableEq Tid] [DecidableEq Id] in
theorem Rendered.mono (hsub : answers ⊆ answers') {c : Call} {line : List UInt8}
    (h : Rendered idxpow answers u c line) : Rendered idxpow answers' u c line := by
  cases h with
  | message buf fmt label answered => exact .message buf fmt label (hsub answered)
  | dump header content => exact .dump header content

omit [DecidableEq Tid] [DecidableEq Id] in
theorem Writer.Pending.mono (hsub : answers ⊆ answers') {w : Writer} {pending : List Call}
    (h : w.Pending idxpow answers u pending) : w.Pending idxpow answers' u pending := by
  cases w with
  | locking pieces =>
      obtain ⟨c, hc, hrendered⟩ := h
      exact ⟨c, hc, hrendered.mono hsub⟩
  | idle | labelling buf fmt | printing pieces rest | copying rest | alerting rest => exact h

omit [DecidableEq Id] in
/-- A step of another thread. -/
theorem Recorded.other (h : Recorded idxpow s u) (hcalls : ofThread u s'.calls = ofThread u s.calls)
    (hwritten : ofThread u s'.written = ofThread u s.written) (hwriter : s'.writer u = s.writer u)
    (hsub : s.threads.answers ⊆ s'.threads.answers) : Recorded idxpow s' u := by
  obtain ⟨done, pending, hdone, hlines, hpending⟩ := h
  refine ⟨done, pending, hcalls.trans hdone, ?_, hwriter ▸ hpending.mono hsub⟩
  rw [hwritten]
  exact hlines.imp fun _ _ => Rendered.mono hsub

omit [DecidableEq Id] in
/-- A step between two calls or in the scope of the lock. -/
theorem Recorded.stay {w : Writer} (h : Recorded idxpow s t) (hcalls : s'.calls = s.calls)
    (hwritten : s'.written = s.written) (hthreads : s'.threads = s.threads)
    (hwriter : s'.writer t = w) (hold : ∀ pending, (s.writer t).Pending idxpow
      s.threads.answers t pending → w.Pending idxpow s.threads.answers t pending) :
    Recorded idxpow s' t := by
  obtain ⟨done, pending, hdone, hlines, hpending⟩ := h
  refine ⟨done, pending, hcalls ▸ hdone, ?_, ?_⟩
  · rw [hwritten, hthreads]
    exact hlines
  · rw [hwriter, hthreads]
    exact hold pending hpending

end Records

theorem answers_subset (taken : Taken ids noId s.threads) (reset : ∀ t, ids t ≠ noId) :
    s.threads.answers ⊆ (advance ids s.threads t).answers := by
  rw [answers_advance taken reset]
  exact List.subset_append_left _ _

theorem recorded_self (inv : Recorded settings.idxpow s t) (taken : Taken ids noId s.threads)
    (reset : ∀ t, ids t ≠ noId) (ok : ∀ what, act ≠ .fail what)
    (h : s.step settings ids (t, act) = some s') : Recorded settings.idxpow s' t := by
  have hadvance : s.threads.answers ⊆ (advance ids s.threads t).answers :=
    answers_subset taken reset
  have before := inv
  rcases before with ⟨done, pending, hdone, hlines, hpending⟩
  cases moves_of_step h with
  | message buf fmt hpos =>
      rw [hpos] at hpending
      obtain rfl : pending = [] := hpending
      refine ⟨done, [.logMessage buf fmt], ?_, hlines, by rw [goto_writer_self]; rfl⟩
      rw [List.append_nil] at hdone
      exact (ofThread_self t s.calls _).trans (congrArg (· ++ _) hdone)
  | dump header content hpos =>
      rw [hpos] at hpending
      obtain rfl : pending = [] := hpending
      refine ⟨done, [.logMessageDump header content], ?_, hlines, ?_⟩
      · rw [List.append_nil] at hdone
        exact (ofThread_self t s.calls _).trans (congrArg (· ++ _) hdone)
      · rw [goto_writer_self]
        exact ⟨_, rfl, (Rendered.dump header content).pieces _ (by simp)⟩
  | look buf fmt hpos hnone =>
      refine ⟨done, pending, hdone, hlines.imp fun _ _ => Rendered.mono hadvance, ?_⟩
      exact hpending.mono hadvance
  | format buf fmt label hpos hlabel =>
      rw [hpos] at hpending
      obtain rfl : pending = [.logMessage buf fmt] := hpending
      refine ⟨done, _, hdone, hlines.imp fun _ _ => Rendered.mono hadvance, ?_⟩
      have answered : (t, label) ∈ (advance ids s.threads t).answers := by
        rw [answers_advance taken reset, hlabel]
        simp
      rw [goto_writer_self]
      exact ⟨_, rfl, (Rendered.message buf fmt label answered).pieces _ (by simp)⟩
  | acquire pieces hpos hfree =>
      rw [hpos] at hpending
      obtain ⟨c, rfl, hc⟩ := hpending
      refine ⟨done ++ [c], [], hdone.trans (List.append_nil _).symm, ?_,
        by rw [Output.acquire, goto_writer_self]; rfl⟩
      rw [show (s.acquire t pieces).written = s.written ++ [(t, pieces.flatten)] from rfl,
        ofThread_self]
      exact List.rel_append hlines (.cons hc .nil)
  | fail what pieces hpos => exact (ok what rfl).elim
  | print pieces rest piece hpos | copy rest piece hpos | alert rest piece hpos =>
      exact inv.stay rfl rfl rfl (goto_writer_self _ _ _) fun _ hp => by rwa [hpos] at hp
  | printed pieces hpos | release hpos | alerted hpos =>
      exact inv.stay rfl rfl rfl (goto_writer_self _ _ _) fun _ hp => by rwa [hpos] at hp

theorem recorded_other {u : Tid} (hut : u ≠ t) (inv : Recorded settings.idxpow s u)
    (taken : Taken ids noId s.threads) (reset : ∀ t, ids t ≠ noId) (ok : ∀ what, act ≠ .fail what)
    (h : s.step settings ids (t, act) = some s') : Recorded settings.idxpow s' u := by
  cases moves_of_step h with
  | message buf fmt hpos | dump header content hpos =>
      exact inv.other (ofThread_other hut _ _) rfl (goto_writer_of_ne _ hut _) fun _ => id
  | look buf fmt hpos hnone => exact inv.other rfl rfl rfl (answers_subset taken reset)
  | format buf fmt label hpos hlabel =>
      exact inv.other rfl rfl (goto_writer_of_ne _ hut _) (answers_subset taken reset)
  | acquire pieces hpos hfree =>
      exact inv.other rfl (ofThread_other hut _ _) (goto_writer_of_ne _ hut _) fun _ => id
  | fail what pieces hpos => exact (ok what rfl).elim
  | print pieces rest piece hpos | copy rest piece hpos | alert rest piece hpos =>
      exact inv.other rfl rfl (goto_writer_of_ne _ hut _) fun _ => id
  | printed pieces hpos | release hpos | alerted hpos =>
      exact inv.other rfl rfl (goto_writer_of_ne _ hut _) fun _ => id

theorem recorded_step (inv : ∀ u, Recorded settings.idxpow s u) (taken : Taken ids noId s.threads)
    (reset : ∀ t, ids t ≠ noId) (ok : ∀ what, act ≠ .fail what)
    (h : s.step settings ids (t, act) = some s') (u : Tid) : Recorded settings.idxpow s' u := by
  by_cases hut : u = t
  · subst hut
    exact recorded_self (inv u) taken reset ok h
  · exact recorded_other hut (inv u) taken reset ok h

end Steps

/-! ## The lines of a label -/

/-- The label a line of the log starts with. -/
def lineLabel (line : List UInt8) : List UInt8 := (line.drop 1).takeWhile (· ≠ 32)

theorem printedLine_head {label : List UInt8} (hlabel : label.length ≤ 7) (text : List UInt8) :
    ∃ tail, printedLine label text = (35 :: label) ++ 32 :: tail := by
  have hhead : (messageHead label).length ≤ 4092 := by
    rw [length_messageHead]
    omega
  have htake : ∀ size, 4092 ≤ size → (messageHead label ++ text).take size =
      messageHead label ++ text.take (size - (messageHead label).length) := by
    intro size hsize
    rw [List.take_append, List.take_of_length_le (by omega)]
  have hcons : ∀ tail, messageHead label ++ tail = (35 :: label) ++ 32 :: tail := by
    intro tail
    simp [messageHead]
  unfold printedLine messageLine
  split
  · exact ⟨_, (htake 4095 (by decide)).trans (hcons _)⟩
  · split
    · exact ⟨_, hcons _⟩
    · rw [htake 4092 (Nat.le_refl _), List.append_assoc]
      exact ⟨_, hcons _⟩

/-- A line starts with its label, and has no other control byte than its end. -/
theorem line_label {label : List UInt8} (hlabel : label.length ≤ 7) (hblank : ∀ c ∈ label, 32 < c)
    (buf : Vector UInt8 4096) (fmt : CStr) :
    lineLabel ((Call.logMessage buf fmt).line label) = label ∧
      (Call.logMessage buf fmt).line label ≠ [] ∧ 10 ∉ (Call.logMessage buf fmt).line label := by
  obtain ⟨tail, htail⟩ := printedLine_head hlabel fmt.bytes
  have hword : ∀ c ∈ 35 :: label, blank c = false := by
    intro c hc
    have hlt : 32 < c := by
      cases List.mem_cons.mp hc with
      | inl heq => rw [heq]; decide
      | inr hmem => exact hblank c hmem
    exact decide_eq_false (UInt8.not_le.mpr hlt)
  have hline : (Call.logMessage buf fmt).line label =
      (35 :: label) ++ Collapse.collapse blank 32 (32 :: tail) := by
    rw [Call.line, htail, Collapse.collapse_append hword]
  have hrest : (Collapse.collapse blank 32 (32 :: tail)).takeWhile (· ≠ 32) = [] := by
    rcases @Collapse.collapse_blank_cons _ blank 32 32 rfl tail with h | ⟨rest, h⟩
    · rw [h]
      rfl
    · rw [h]
      rfl
  refine ⟨?_, ?_, fun h => ?_⟩
  · rw [hline, lineLabel, List.cons_append, List.drop_succ_cons, List.drop_zero,
      List.takeWhile_append_of_pos, hrest, List.append_nil]
    intro c hc
    simpa using (UInt8.ne_of_lt (hblank c hc)).symm
  · rw [hline]
    exact List.cons_ne_nil _ _
  · exact absurd (le_of_mem_line h) (by decide)

section Runs

variable {Tid Id : Type*} {n : Nat} [DecidableEq Tid] [DecidableEq Id] {settings : Settings}
  {ids : Tid → Id} {noId : Id} {s s' : Output Tid Id n} {t : Tid} {act : Act}

/-- The slots are owned, and a thread that was answered `OVFL` finds them owned by others. -/
structure Answered (ids : Tid → Id) (noId : Id) (threads : System Tid Id n) : Prop where
  labelled : Labelled ids noId threads
  overflow : ∀ t, (t, .ovfl) ∈ threads.answers → ∀ i, ∃ u, u ≠ t ∧ threads.Holds ids u i

omit [DecidableEq Tid] [DecidableEq Id] in
theorem answered_initial (reset : ∀ t, ids t ≠ noId) :
    Answered ids noId (initial Tid n noId) where
  labelled := labelled_initial reset
  overflow := fun t h => by cases h

theorem answered_advance {threads : System Tid Id n} (inv : Answered ids noId threads)
    (distinct : Function.Injective ids) (reset : ∀ t, ids t ≠ noId) :
    Answered ids noId (advance ids threads t) := by
  refine ⟨labelled_advance inv.labelled distinct reset, fun u h i => ?_⟩
  have taken := inv.labelled.taken
  have hother : ∃ v, v ≠ u ∧ threads.Holds ids v i := by
    rw [answers_advance taken reset] at h
    cases List.mem_append.mp h with
    | inl hold => exact inv.overflow u hold i
    | inr hnew =>
        rw [Option.mem_toList, Option.map_eq_some_iff] at hnew
        rcases hnew with ⟨label, hreturns, heq⟩
        cases heq
        exact taken_of_ovfl taken hreturns i
  obtain ⟨v, hv, hholds⟩ := hother
  exact ⟨v, hv, holds_advance taken reset hholds⟩

omit [DecidableEq Tid] [DecidableEq Id] in
/-- All answers of a thread that has got a slot are the same. -/
theorem Answered.single {threads : System Tid Id n} (inv : Answered ids noId threads)
    (distinct : Function.Injective ids) (reset : ∀ t, ids t ≠ noId) {i : Fin n} {label : Label n}
    (hi : (t, .idstr i) ∈ threads.answers) (h : (t, label) ∈ threads.answers) :
    label = .idstr i := by
  have hholds := inv.labelled.held t i hi
  cases label with
  | idstr j => rw [inv.labelled.taken.single (inv.labelled.held t j h) hholds]
  | ovfl =>
      obtain ⟨u, hu, hother⟩ := inv.overflow t h i
      exact (hu (inv.labelled.taken.exclusive distinct reset hother hholds)).elim

/-- What every run of the logger keeps. -/
structure Logging (settings : Settings) (ids : Tid → Id) (noId : Id) (s : Output Tid Id n) :
    Prop where
  answered : Answered ids noId s.threads
  sequential : Sequential s
  shown : s.Shown settings.target

omit [DecidableEq Tid] [DecidableEq Id] in
theorem logging_initial (settings : Settings) (reset : ∀ t, ids t ≠ noId) :
    Logging settings ids noId (Output.initial noId : Output Tid Id n) where
  answered := answered_initial reset
  sequential := ⟨held_initial noId, rfl⟩
  shown := fun _ => List.Sublist.refl []

theorem answered_step (inv : Answered ids noId s.threads) (distinct : Function.Injective ids)
    (reset : ∀ t, ids t ≠ noId) (h : s.step settings ids (t, act) = some s') :
    Answered ids noId s'.threads := by
  cases moves_of_step h with
  | look buf fmt hpos hnone => exact answered_advance inv distinct reset
  | format buf fmt label hpos hlabel => exact answered_advance inv distinct reset
  | _ => exact inv

theorem logging_step (inv : Logging settings ids noId s) (distinct : Function.Injective ids)
    (reset : ∀ t, ids t ≠ noId) (h : s.step settings ids (t, act) = some s') :
    Logging settings ids noId s' where
  answered := answered_step inv.answered distinct reset h
  sequential := sequential_step inv.sequential h
  shown := shown_step inv.shown h

/-- What a run keeps in which the mutex can always be taken. -/
structure Complete (settings : Settings) (ids : Tid → Id) (noId : Id) (s : Output Tid Id n) :
    Prop where
  logging : Logging settings ids noId s
  copied : Copied settings s
  recorded : ∀ t, Recorded settings.idxpow s t

theorem complete_of_run (distinct : Function.Injective ids) (reset : ∀ t, ids t ≠ noId)
    {acts : List (Tid × Act)}
    (ok : StepSystem.Along (Output.step settings ids) Unfailing
      (Output.initial noId : Output Tid Id n) acts)
    (h : StepSystem.run (Output.step settings ids) (Output.initial noId) acts = some s) :
    Complete settings ids noId s := by
  refine StepSystem.invariant_run (Complete settings ids noId) ?_ ?_ ok h
  · rintro s ⟨t, act⟩ s' inv hok hstep
    exact
      { logging := logging_step inv.logging distinct reset hstep
        copied := copied_step inv.copied inv.logging.sequential.held hok hstep
        recorded := recorded_step inv.recorded inv.logging.answered.labelled.taken reset hok hstep }
  · exact
      { logging := logging_initial settings reset
        copied := copied_initial noId settings
        recorded := fun t => ⟨[], [], rfl, .nil, rfl⟩ }

omit [DecidableEq Tid] [DecidableEq Id] in
theorem Output.Whole.of_free {stream : List UInt8} {left : Writer → List UInt8}
    (whole : s.Whole stream left) (free : s.mutex = none) : stream = s.records := by
  rw [← show stream ++ s.rest left = s.records from whole, Output.rest, free, Option.elim_none,
    List.append_nil]

omit [DecidableEq Id] in
/-- A thread outside of the log functions has written a line for each of its calls. -/
theorem Recorded.idle {idxpow : Nat} (h : Recorded idxpow s t) (hidle : s.writer t = .idle) :
    List.Forall₂ (Rendered idxpow s.threads.answers t) (ofThread t s.calls)
      (ofThread t s.written) := by
  obtain ⟨done, pending, hdone, hlines, hpending⟩ := h
  rw [hidle] at hpending
  obtain rfl : pending = [] := hpending
  rwa [hdone, List.append_nil]

/-- A call of `logMessage`, or a step at which the mutex can be taken. -/
def Act.messages : Act → Bool
  | .call (.logMessage _ _) | .step => true
  | .call (.logMessageDump _ _) | .fail _ => false

/-- The mutex can be taken, and no call is one of `logMessageDump`. -/
def Messages (_ : Output Tid Id n) (a : Tid × Act) : Prop := a.2.messages = true

instance (s : Output Tid Id n) (a : Tid × Act) : Decidable (Messages s a) :=
  inferInstanceAs (Decidable (_ = _))

omit [DecidableEq Tid] [DecidableEq Id] in
theorem Messages.unfailing {a : Tid × Act} (h : Messages s a) : Unfailing s a := by
  intro what hfail
  rw [Messages, hfail] at h
  cases h

theorem step_format {buf : Vector UInt8 4096} {fmt : CStr} {label : Label n}
    (hpos : s.writer t = .labelling buf fmt) (hlabel : s.threads.returns ids t = some label) :
    s.step settings ids (t, .step) =
      some ({ s with threads := advance ids s.threads t }.goto t
        (.locking [(Call.logMessage buf fmt).line (label.text settings.idxpow).bytes, endl])) := by
  simp only [Output.step, hpos, hlabel]
  rw [logMessage_eq _ fmt.nul_not_mem]
  rfl

def sampleCall (text : String) (h : 0 ∉ str text) : Call :=
  .logMessage (Vector.replicate 4096 0) ⟨str text, h⟩

/-- The first thread gets its label first, the second one takes the mutex first. -/
def beforeFirst : List (Fin 2 × Act) :=
  [(0, .call (sampleCall "a" (by decide))), (1, .call (sampleCall "b" (by decide)))] ++
    List.replicate 5 (0, .step)

def beforeSecond : List (Fin 2 × Act) := List.replicate 7 (1, .step)

def output : List (Fin 2 × Act) := List.replicate 7 (1, .step) ++ List.replicate 7 (0, .step)

def twoWriters : List (Fin 2 × Act) :=
  beforeFirst ++ (0, .step) :: (beforeSecond ++ (1, .step) :: output)

def sampleSettings : Settings := { idxpow := 1, verbose := true, target := .logfile }

theorem run_twoWriters :
    ∃ s : Output (Fin 2) Nat 2,
      StepSystem.run (Output.step sampleSettings fun t => t.val + 1) (Output.initial 0)
        twoWriters = some s ∧
      s.mutex = none ∧ (∀ t, s.writer t = .idle) ∧
      s.threads.answers = [(0, .idstr 0), (1, .idstr 1)] := by
  refine ⟨_, StepSystem.run_append rfl (StepSystem.run_cons.mpr ⟨_, step_format rfl rfl,
    StepSystem.run_append rfl (StepSystem.run_cons.mpr ⟨_, step_format rfl rfl, rfl⟩)⟩), rfl, ?_,
    by decide⟩
  exact Fin.forall_fin_two.mpr ⟨rfl, rfl⟩

theorem ids_injective : Function.Injective fun t : Fin 2 => t.val + 1 :=
  fun _ _ h => Fin.ext (Nat.succ.inj h)

theorem messages_twoWriters :
    StepSystem.Along (Output.step sampleSettings fun t : Fin 2 => t.val + 1) Messages
      (Output.initial 0 : Output (Fin 2) Nat 2) twoWriters := by
  have hall : twoWriters.all (fun a => a.2.messages) = true := rfl
  exact StepSystem.along_of_forall (List.all_eq_true.mp hall) _

/-- All calls so far are calls of `logMessage`. -/
def Output.MessagesOnly (s : Output Tid Id n) : Prop :=
  ∀ entry ∈ s.calls, ∃ buf fmt, entry.2 = Call.logMessage buf fmt

theorem messagesOnly_step (inv : s.MessagesOnly) (ok : Messages s (t, act))
    (h : s.step settings ids (t, act) = some s') : s'.MessagesOnly := by
  cases moves_of_step h with
  | message buf fmt hpos =>
      intro entry hentry
      cases List.mem_append.mp hentry with
      | inl hold => exact inv entry hold
      | inr hnew =>
          rw [List.mem_singleton.mp hnew]
          exact ⟨buf, fmt, rfl⟩
  | dump header content hpos => cases ok
  | _ => exact inv

section Lines

variable {idxpow : Nat}

theorem idstrText_blank (idx : Nat) : ∀ c ∈ idstrText idxpow idx, 32 < c := fun c hc =>
  UInt8.lt_of_lt_of_le (by decide) (Decimal.digit_of_mem_padded (List.mem_of_mem_take hc)).1

theorem Label.text_blank (label : Label n) : ∀ c ∈ (label.text idxpow).bytes, 32 < c := by
  cases label with
  | idstr ti => exact idstrText_blank ti.val
  | ovfl => exact (by decide : ∀ c ∈ ovflText, 32 < c)

/-- The label of a slot is not `OVFL`. -/
theorem idstrText_ne_ovflText (idx : Nat) : idstrText idxpow idx ≠ ovflText := by
  intro h
  have hmem : (79 : UInt8) ∈ idstrText idxpow idx := by
    rw [h]
    decide
  exact absurd (Decimal.digit_of_mem_padded (List.mem_of_mem_take hmem)).2 (by decide)

end Lines

omit [DecidableEq Tid] [DecidableEq Id] in
theorem exists_of_mem_right {α β : Type*} {r : α → β → Prop} {as : List α} {bs : List β}
    (h : List.Forall₂ r as bs) {b : β} (hb : b ∈ bs) : ∃ a ∈ as, r a b := by
  induction h with
  | nil => cases hb
  | cons hr _ ih =>
      cases List.mem_cons.mp hb with
      | inl heq => exact ⟨_, List.mem_cons_self, heq ▸ hr⟩
      | inr hmem =>
          obtain ⟨a, ha, hr⟩ := ih hmem
          exact ⟨a, List.mem_cons_of_mem _ ha, hr⟩

omit [DecidableEq Id] in
theorem mem_of_ofThread {α : Type*} {history : List (Tid × α)} {a : α}
    (h : a ∈ ofThread t history) : (t, a) ∈ history := by
  obtain ⟨entry, hentry, rfl⟩ := List.mem_map.mp h
  obtain ⟨hmem, heq⟩ := List.mem_filter.mp hentry
  rwa [← of_decide_eq_true heq]

omit [DecidableEq Id] in
theorem mem_ofThread {α : Type*} {history : List (Tid × α)} {entry : Tid × α}
    (h : entry ∈ history) : entry.2 ∈ ofThread entry.1 history :=
  List.mem_map_of_mem (List.mem_filter.mpr ⟨h, decide_eq_true rfl⟩)

omit [DecidableEq Id] in
/-- What was written under the mutex is the line of a message, with a label of its thread. -/
theorem written_of_complete {idxpow : Nat} (recorded : ∀ t, Recorded idxpow s t)
    (messages : s.MessagesOnly) {entry : Tid × List UInt8} (hentry : entry ∈ s.written) :
    ∃ (label : Label n) (buf : Vector UInt8 4096) (fmt : CStr),
      (entry.1, label) ∈ s.threads.answers ∧
      entry.2 = (Call.logMessage buf fmt).line (label.text idxpow).bytes ++ endl := by
  obtain ⟨done, pending, hdone, hlines, -⟩ := recorded entry.1
  obtain ⟨c, hc, hrendered⟩ := exists_of_mem_right hlines (mem_ofThread hentry)
  have hcall : (entry.1, c) ∈ s.calls :=
    mem_of_ofThread (hdone ▸ List.mem_append_left pending hc)
  obtain ⟨buf, fmt, rfl⟩ := messages _ hcall
  generalize hline : entry.2 = line at hrendered
  cases hrendered with
  | message buf fmt label answered => exact ⟨label, buf, fmt, answered, rfl⟩

omit [DecidableEq Id] in
/-- The lines of the log are those handed to the stream. -/
theorem lines_of_complete {idxpow : Nat} (recorded : ∀ t, Recorded idxpow s t)
    (messages : s.MessagesOnly) :
    splitFields 10 s.records = s.written.map fun entry => entry.2.dropLast := by
  have hlines : ∀ entry ∈ s.written, entry.2 = entry.2.dropLast ++ [10] ∧ entry.2.dropLast ≠ [] ∧
      10 ∉ entry.2.dropLast := by
    intro entry hentry
    obtain ⟨label, buf, fmt, -, hline⟩ := written_of_complete recorded messages hentry
    obtain ⟨-, hne, hend⟩ := line_label (label.length_text idxpow) label.text_blank buf fmt
    rw [hline, endl, List.dropLast_concat]
    exact ⟨rfl, hne, hend⟩
  have hrecords : s.records =
      (s.written.map fun entry => entry.2.dropLast).flatMap (· ++ [10]) := by
    rw [List.flatMap_map, Output.records]
    exact List.flatMap_congr fun entry hentry => (hlines entry hentry).1
  rw [hrecords, splitFields_lines]
  · intro field hfield
    obtain ⟨entry, hentry, rfl⟩ := List.mem_map.mp hfield
    exact (hlines entry hentry).2.2
  · intro field hfield
    obtain ⟨entry, hentry, rfl⟩ := List.mem_map.mp hfield
    exact (hlines entry hentry).2.1

omit [DecidableEq Tid] [DecidableEq Id] in
/-- With at most seven digits in the labels, a line with the label of a slot was written by
the thread that owns the slot. -/
theorem owner_of_label {idxpow : Nat} (answered : Answered ids noId s.threads)
    (distinct : Function.Injective ids) (reset : ∀ t, ids t ≠ noId)
    (hpow : nofslotspow n = some idxpow) (hsmall : n < 10 ^ 7) {u : Tid} {i : Fin n}
    {label : Label n} (hi : (t, .idstr i) ∈ s.threads.answers)
    (hu : (u, label) ∈ s.threads.answers) :
    (label.text idxpow).bytes = idstrText idxpow i ↔ u = t := by
  constructor
  · intro htext
    cases label with
    | ovfl => exact (idstrText_ne_ovflText i.val htext.symm).elim
    | idstr j =>
        have hpos : (0 : Int) < n := by exact_mod_cast i.pos
        have hlt : ∀ k : Fin n, ((k.val : Nat) : Int) < n := fun k => by exact_mod_cast k.isLt
        have hsame : j.val = i.val := (idstrText_distinct_iff hpos hpow).mpr
          (by exact_mod_cast hsmall) j.val i.val (hlt j) (hlt i) htext
        obtain rfl : j = i := Fin.ext hsame
        exact answered.labelled.taken.exclusive distinct reset
          (answered.labelled.held u j hu) (answered.labelled.held t j hi)
  · rintro rfl
    rw [answered.single distinct reset hi hu]
    rfl

/-- For any number of threads and any order of their steps, with at most seven digits in the
labels: split at the line ends, the log has as the lines with the label of a thread exactly
the messages of this thread, in the order of its calls. -/
theorem lines_of_label (settings : Settings) (ids : Tid → Id) (distinct : Function.Injective ids)
    (noId : Id) (reset : ∀ t, ids t ≠ noId) (hpow : nofslotspow n = some settings.idxpow)
    (hsmall : n < 10 ^ 7) (acts : List (Tid × Act)) (s : Output Tid Id n)
    (ok : StepSystem.Along (Output.step settings ids) Messages
      (Output.initial noId : Output Tid Id n) acts)
    (h : StepSystem.run (Output.step settings ids) (Output.initial noId) acts = some s)
    (free : s.mutex = none) (t : Tid) (hidle : s.writer t = .idle) (i : Fin n)
    (hi : (t, .idstr i) ∈ s.threads.answers) :
    (splitFields 10 s.logout).filter (fun line => lineLabel line = idstrText settings.idxpow i) =
      (ofThread t s.calls).map (Call.line (idstrText settings.idxpow i)) := by
  have complete := complete_of_run distinct reset (ok.mono fun _ _ h => h.unfailing) h
  have messages : s.MessagesOnly :=
    StepSystem.invariant_run Output.MessagesOnly
      (fun _ a _ inv hok hstep => messagesOnly_step (t := a.1) inv hok hstep)
      (fun _ hentry => by cases hentry) ok h
  have answered := complete.logging.answered
  have owner : ∀ entry ∈ s.written,
      decide (lineLabel entry.2.dropLast = idstrText settings.idxpow i) = decide (entry.1 = t) := by
    intro entry hentry
    obtain ⟨label, buf, fmt, hlabel, hline⟩ :=
      written_of_complete complete.recorded messages hentry
    rw [hline, endl, List.dropLast_concat,
      (line_label (label.length_text settings.idxpow) label.text_blank buf fmt).1]
    exact decide_eq_decide.mpr (owner_of_label answered distinct reset hpow hsmall hi hlabel)
  have hlines : List.Forall₂ (fun c line => c.line (idstrText settings.idxpow i) =
      line.dropLast) (ofThread t s.calls) (ofThread t s.written) := by
    refine ((complete.recorded t).idle hidle).imp fun c line hrendered => ?_
    cases hrendered with
    | message buf fmt label hlabel =>
        rw [endl, List.dropLast_concat, answered.single distinct reset hi hlabel]
        rfl
    | dump header content =>
        rw [endl, List.dropLast_concat]
        rfl
  have hmap : (ofThread t s.calls).map (Call.line (idstrText settings.idxpow i)) =
      (ofThread t s.written).map List.dropLast := by
    rw [← List.forall₂_eq_eq_eq, List.forall₂_map_left_iff, List.forall₂_map_right_iff]
    exact hlines
  rw [complete.logging.sequential.logout.of_free free,
    lines_of_complete complete.recorded messages, List.filter_map, hmap]
  unfold ofThread
  rw [List.map_map]
  exact congrArg _ (List.filter_congr owner)

theorem lines_twoWriters :
    ∃ s : Output (Fin 2) Nat 2,
      StepSystem.run (Output.step sampleSettings fun t => t.val + 1) (Output.initial 0)
        twoWriters = some s ∧
      (splitFields 10 s.logout).filter (fun line => lineLabel line = idstrText 1 1) =
        (ofThread 1 s.calls).map (Call.line (idstrText 1 1)) := by
  obtain ⟨s, h, free, hidle, hanswers⟩ := run_twoWriters
  exact ⟨s, h, lines_of_label sampleSettings _ ids_injective 0 (fun t => Nat.succ_ne_zero _)
    (by decide) (by decide) twoWriters s messages_twoWriters h free 1 (hidle 1) 1
    (by rw [hanswers]; simp)⟩

end Runs

end StrusWebService.Logger
