import StrusWebService.Library.StepSystem
import Mathlib.Logic.Function.Basic

/-! # Thread labels of the request logger

`getThreadId` looks for the slot with the id of the calling thread; a thread
without one takes the first free slot and writes its id into it. Testing the flag
of a slot, reading its id, trying to set the flag and writing the id are separate
steps, and any number of threads take them in any order. Only `reset` frees slots.
-/

namespace StrusWebService.Logger

structure Slot (Id : Type*) where
  id : Id
  flag : Bool

/-- `AtomicFlag::set` and whether it changed the flag. -/
def Slot.setFlag {Id : Type*} (slot : Slot Id) (value : Bool) : Slot Id × Bool :=
  ({ slot with flag := value }, slot.flag != value)

/-- The pointer returned: to the label of a slot, or to the literal `OVFL`. -/
inductive Label (n : Nat) where
  | idstr (ti : Fin n)
  | ovfl
  deriving DecidableEq

/-- What a thread does next, with its local variable `ti`. -/
inductive Position (n : Nat) where
  | idle
  | testing (ti : Nat)
  | reading (ti : Fin n)
  | claiming (ti : Nat)
  | writing (ti : Fin n)
  deriving DecidableEq

/-- The slots, the position of every thread, and what was returned so far. -/
structure System (Tid Id : Type*) (n : Nat) where
  slots : Fin n → Slot Id
  position : Tid → Position n
  answers : List (Tid × Label n) := []

variable {Tid Id : Type*} {n : Nat}

/-- The state after `reset`, no thread being in `getThreadId`. -/
def initial (Tid : Type*) (n : Nat) (noId : Id) : System Tid Id n :=
  { slots := fun _ => { id := noId, flag := false }, position := fun _ => .idle }

section Steps

variable [DecidableEq Tid] [DecidableEq Id]

namespace System

variable (s : System Tid Id n) (t : Tid)

def goto (p : Position n) : System Tid Id n :=
  { s with position := Function.update s.position t p }

def answer (label : Label n) : System Tid Id n :=
  { s.goto t .idle with answers := s.answers ++ [(t, label)] }

def setSlot (ti : Fin n) (slot : Slot Id) : System Tid Id n :=
  { s with slots := Function.update s.slots ti slot }

end System

/-- The next step of thread `t` in `getThreadId`, or the call. -/
def advance (ids : Tid → Id) (s : System Tid Id n) (t : Tid) : System Tid Id n :=
  match s.position t with
  | .idle => s.goto t (.testing 0)
  | .testing ti =>
      if h : ti < n then
        if (s.slots ⟨ti, h⟩).flag then s.goto t (.reading ⟨ti, h⟩) else s.goto t (.testing (ti + 1))
      else s.goto t (.claiming 0)
  | .reading ti =>
      if (s.slots ti).id = ids t then s.answer t (.idstr ti) else s.goto t (.testing (ti + 1))
  | .claiming ti =>
      if h : ti < n then
        let set := (s.slots ⟨ti, h⟩).setFlag true
        let s := s.setSlot ⟨ti, h⟩ set.1
        if set.2 then s.goto t (.writing ⟨ti, h⟩) else s.goto t (.claiming (ti + 1))
      else s.answer t .ovfl
  | .writing ti => (s.setSlot ti { s.slots ti with id := ids t }).answer t (.idstr ti)

def step (ids : Tid → Id) (s : System Tid Id n) (t : Tid) : Option (System Tid Id n) :=
  some (advance ids s t)

end Steps

/-- The thread has taken the slot: it wrote its id into it, or is about to. -/
def System.Holds (ids : Tid → Id) (s : System Tid Id n) (t : Tid) (i : Fin n) : Prop :=
  s.position t = .writing i ∨ ((s.slots i).flag = true ∧ (s.slots i).id = ids t)

/-- What the next step of a thread returns, if it returns. -/
def System.returns [DecidableEq Id] (ids : Tid → Id) (s : System Tid Id n) (t : Tid) :
    Option (Label n) :=
  match s.position t with
  | .reading ti => if (s.slots ti).id = ids t then some (.idstr ti) else none
  | .claiming ti => if ti < n then none else some .ovfl
  | .writing ti => some (.idstr ti)
  | _ => none

/-- Slots are owned by one thread, threads own one slot, a thread that has got a
slot is answered with its label, and `OVFL` is returned only if all are taken. -/
structure LabelsOwned [DecidableEq Id] (ids : Tid → Id) (s : System Tid Id n) : Prop where
  exclusive : ∀ t u i, s.Holds ids t i → s.Holds ids u i → t = u
  single : ∀ t i j, s.Holds ids t i → s.Holds ids t j → i = j
  held : ∀ t i, (t, .idstr i) ∈ s.answers → s.Holds ids t i
  stable : s.answers.Pairwise fun a b => a.1 = b.1 → ∀ i, a.2 = .idstr i → b.2 = .idstr i
  own : ∀ t i label, s.Holds ids t i → s.returns ids t = some label → label = .idstr i
  overflow : ∀ t, s.returns ids t = some .ovfl → ∀ i, ∃ u, u ≠ t ∧ s.Holds ids u i

/-! ## The invariant -/

/-- What a thread has found out about the slots it has passed. -/
def Position.Passed (slots : Fin n → Slot Id) (tid : Id) : Position n → Prop
  | .idle => True
  | .testing ti => ∀ j : Fin n, j.val < ti → (slots j).id ≠ tid
  | .reading ti => ∀ j : Fin n, j.val < ti.val → (slots j).id ≠ tid
  | .claiming ti =>
      (∀ j, (slots j).id ≠ tid) ∧ ∀ j : Fin n, j.val < ti → (slots j).flag = true
  | .writing _ => ∀ j, (slots j).id ≠ tid

/-- A taken slot either waits for the id of one thread or has it. -/
structure Taken (ids : Tid → Id) (noId : Id) (s : System Tid Id n) : Prop where
  free : ∀ i, (s.slots i).flag = false → (s.slots i).id = noId
  taken : ∀ i, (s.slots i).flag = true → ∃ u, s.Holds ids u i
  writing : ∀ t i, s.position t = .writing i →
    (s.slots i).flag = true ∧ (s.slots i).id = noId
  writer : ∀ t u i, s.position t = .writing i → s.position u = .writing i → t = u
  labelled : ∀ t i j, (s.slots i).id = ids t → (s.slots j).id = ids t → i = j
  passed : ∀ t, (s.position t).Passed s.slots (ids t)

section Invariant

variable {ids : Tid → Id} {noId : Id} {s s' : System Tid Id n} {t : Tid}

/-- No thread without a slot has its id in one, and vice versa. -/
theorem Taken.exclusive (inv : Taken ids noId s) (distinct : Function.Injective ids)
    (reset : ∀ t, ids t ≠ noId) {u : Tid} {i : Fin n} (ht : s.Holds ids t i)
    (hu : s.Holds ids u i) : t = u := by
  cases ht with
  | inl ht =>
      cases hu with
      | inl hu => exact inv.writer t u i ht hu
      | inr hu => exact absurd (hu.2.symm.trans (inv.writing t i ht).2) (reset u)
  | inr ht =>
      cases hu with
      | inl hu => exact absurd (ht.2.symm.trans (inv.writing u i hu).2) (reset t)
      | inr hu => exact distinct (ht.2.symm.trans hu.2)

theorem Taken.single (inv : Taken ids noId s) {i j : Fin n} (hi : s.Holds ids t i)
    (hj : s.Holds ids t j) : i = j := by
  have hpassed := inv.passed t
  cases hi with
  | inl hi =>
      rw [hi] at hpassed
      cases hj with
      | inl hj => exact Position.writing.inj (hi.symm.trans hj)
      | inr hj => exact absurd hj.2 (hpassed j)
  | inr hi =>
      cases hj with
      | inl hj =>
          rw [hj] at hpassed
          exact absurd hi.2 (hpassed i)
      | inr hj => exact inv.labelled t i j hi.2 hj.2

/-- The invariant, with what has been returned. -/
structure Labelled (ids : Tid → Id) (noId : Id) (s : System Tid Id n) : Prop where
  taken : Taken ids noId s
  held : ∀ t i, (t, .idstr i) ∈ s.answers → s.Holds ids t i
  stable : s.answers.Pairwise fun a b => a.1 = b.1 → ∀ i, a.2 = .idstr i → b.2 = .idstr i

theorem labelled_initial (reset : ∀ t, ids t ≠ noId) :
    Labelled ids noId (initial Tid n noId) := by
  refine ⟨?_, fun t i h => (by cases h), List.Pairwise.nil⟩
  constructor
  · exact fun _ _ => rfl
  · intro i h
    cases h
  · intro t i h
    cases h
  · intro t u i h
    cases h
  · intro t i j h
    exact absurd h.symm (reset t)
  · exact fun _ => trivial

section Returns

variable [DecidableEq Id]

/-- A label is only returned to the thread that holds the slot. -/
theorem holds_of_returns (inv : Taken ids noId s) (reset : ∀ t, ids t ≠ noId) {i : Fin n}
    (h : s.returns ids t = some (.idstr i)) : s.Holds ids t i := by
  unfold System.returns at h
  cases hpos : s.position t with
  | idle => simp [hpos] at h
  | testing ti => simp [hpos] at h
  | reading ti =>
      simp only [hpos, Option.ite_none_right_eq_some, Option.some.injEq, Label.idstr.injEq] at h
      rcases h with ⟨hid, rfl⟩
      refine .inr ⟨?_, hid⟩
      by_contra hflag
      have hfree := inv.free ti (by simpa using hflag)
      exact reset t (hid.symm.trans hfree)
  | claiming ti => simp [hpos] at h
  | writing ti =>
      simp only [hpos, Option.some.injEq, Label.idstr.injEq] at h
      exact .inl (h ▸ hpos)

theorem returns_ovfl (h : s.returns ids t = some .ovfl) :
    ∃ ti, s.position t = .claiming ti ∧ ¬ti < n := by
  unfold System.returns at h
  cases hpos : s.position t with
  | idle => simp [hpos] at h
  | testing ti => simp [hpos] at h
  | reading ti => simp [hpos] at h
  | claiming ti =>
      simp only [hpos, Option.ite_none_left_eq_some] at h
      exact ⟨ti, rfl, h.1⟩
  | writing ti => simp [hpos] at h

/-- A thread that has passed all slots holds none. -/
theorem not_holds_of_ovfl (inv : Taken ids noId s) (h : s.returns ids t = some .ovfl) (i : Fin n) :
    ¬s.Holds ids t i := by
  obtain ⟨ti, hpos, -⟩ := returns_ovfl h
  have hpassed := inv.passed t
  rw [hpos] at hpassed
  intro hholds
  cases hholds with
  | inl hwriting =>
      rw [hpos] at hwriting
      cases hwriting
  | inr hid => exact hpassed.1 i hid.2

theorem label_of_holds (inv : Taken ids noId s) (reset : ∀ t, ids t ≠ noId) {i : Fin n}
    {label : Label n} (hholds : s.Holds ids t i) (h : s.returns ids t = some label) :
    label = .idstr i := by
  cases label with
  | idstr j => rw [inv.single hholds (holds_of_returns inv reset h)]
  | ovfl => exact absurd hholds (not_holds_of_ovfl inv h i)

theorem taken_of_ovfl (inv : Taken ids noId s) (h : s.returns ids t = some .ovfl) (i : Fin n) :
    ∃ u, u ≠ t ∧ s.Holds ids u i := by
  obtain ⟨ti, hpos, hall⟩ := returns_ovfl h
  have hpassed := inv.passed t
  rw [hpos] at hpassed
  obtain ⟨u, hu⟩ := inv.taken i (hpassed.2 i (by omega))
  refine ⟨u, fun hut => ?_, hu⟩
  exact not_holds_of_ovfl inv h i (hut ▸ hu)

end Returns

variable [DecidableEq Tid]

theorem goto_position_self (p : Position n) : (s.goto t p).position t = p :=
  Function.update_self ..

theorem goto_position_of_ne {u : Tid} (h : u ≠ t) (p : Position n) :
    (s.goto t p).position u = s.position u :=
  Function.update_of_ne h ..

/-- A thread that is not writing only moves. -/
theorem holds_goto (hold : ∀ i, s.position t ≠ .writing i) {u : Tid} {i : Fin n} {p : Position n}
    (h : s.Holds ids u i) : (s.goto t p).Holds ids u i := by
  cases h with
  | inl h =>
      have hne : u ≠ t := fun heq => hold i (heq ▸ h)
      exact .inl ((goto_position_of_ne hne p).trans h)
  | inr h => exact .inr h

theorem taken_goto (inv : Taken ids noId s) {p : Position n}
    (hold : ∀ i, s.position t ≠ .writing i) (hnew : ∀ i, p ≠ .writing i)
    (hpassed : p.Passed s.slots (ids t)) : Taken ids noId (s.goto t p) := by
  have back : ∀ {u i}, (s.goto t p).position u = .writing i → s.position u = .writing i := by
    intro u i h
    by_cases hu : u = t
    · rw [hu, goto_position_self] at h
      exact absurd h (hnew i)
    · rwa [goto_position_of_ne hu] at h
  constructor
  · exact inv.free
  · intro i hi
    obtain ⟨u, hu⟩ := inv.taken i hi
    exact ⟨u, holds_goto hold hu⟩
  · intro u i h
    exact inv.writing u i (back h)
  · intro u v i hu hv
    exact inv.writer u v i (back hu) (back hv)
  · exact inv.labelled
  · intro u
    by_cases hu : u = t
    · rw [hu, goto_position_self]
      exact hpassed
    · rw [goto_position_of_ne hu]
      exact inv.passed u

/-- What was passed stays passed while flags are set and foreign ids are written. -/
theorem Position.Passed.mono {slots slots' : Fin n → Slot Id} {tid : Id} {p : Position n}
    (h : p.Passed slots tid) (hflag : ∀ j, (slots j).flag = true → (slots' j).flag = true)
    (hid : ∀ j, (slots j).id ≠ tid → (slots' j).id ≠ tid) : p.Passed slots' tid := by
  cases p with
  | idle => trivial
  | testing ti => exact fun j hj => hid j (h j hj)
  | reading ti => exact fun j hj => hid j (h j hj)
  | claiming ti => exact ⟨fun j => hid j (h.1 j), fun j hj => hflag j (h.2 j hj)⟩
  | writing ti => exact fun j => hid j (h j)

/-- The flag of a free slot is set by one thread. -/
def System.claim (s : System Tid Id n) (t : Tid) (i : Fin n) : System Tid Id n :=
  (s.setSlot i { s.slots i with flag := true }).goto t (.writing i)

/-- The id is written into a slot, and the label returned. -/
def System.label (s : System Tid Id n) (ids : Tid → Id) (t : Tid) (i : Fin n) : System Tid Id n :=
  (s.setSlot i { s.slots i with id := ids t }).answer t (.idstr i)

theorem claim_flag {i j : Fin n} (h : (s.slots j).flag = true) :
    ((s.claim t i).slots j).flag = true := by
  show (Function.update s.slots i _ j).flag = true
  by_cases hj : j = i
  · rw [hj, Function.update_self]
  · rwa [Function.update_of_ne hj]

theorem claim_id {i j : Fin n} : ((s.claim t i).slots j).id = (s.slots j).id := by
  show (Function.update s.slots i _ j).id = _
  by_cases hj : j = i
  · rw [hj, Function.update_self]
  · rw [Function.update_of_ne hj]

theorem holds_claim {i j : Fin n} {u : Tid} (hold : ∀ i, s.position t ≠ .writing i)
    (h : s.Holds ids u j) : (s.claim t i).Holds ids u j := by
  cases h with
  | inl h =>
      have hne : u ≠ t := fun heq => hold j (heq ▸ h)
      exact .inl ((goto_position_of_ne hne _).trans h)
  | inr h => exact .inr ⟨claim_flag h.1, claim_id.trans h.2⟩

/-- Another thread that is writing writes to another slot than the one claimed. -/
theorem writing_of_claim (inv : Taken ids noId s) {i j : Fin n} (hfree : (s.slots i).flag = false)
    {u : Tid} (hu : u ≠ t) (h : (s.claim t i).position u = .writing j) :
    s.position u = .writing j ∧ j ≠ i := by
  have hwriting : s.position u = .writing j := (goto_position_of_ne hu _).symm.trans h
  refine ⟨hwriting, ?_⟩
  intro hj
  have htaken := (inv.writing u j hwriting).1
  rw [hj, hfree] at htaken
  cases htaken

theorem passed_claim (inv : Taken ids noId s) {i : Fin n} (hpos : s.position t = .claiming i.val)
    (u : Tid) : ((s.claim t i).position u).Passed (s.claim t i).slots (ids u) := by
  by_cases hu : u = t
  · have hself : (s.claim t i).position t = .writing i := goto_position_self _
    rw [hu, hself]
    have hpassed := inv.passed t
    rw [hpos] at hpassed
    intro j
    rw [claim_id]
    exact hpassed.1 j
  · rw [show (s.claim t i).position u = s.position u from goto_position_of_ne hu _]
    apply (inv.passed u).mono
    · intro j hj
      exact claim_flag hj
    · intro j hj
      rwa [claim_id]

theorem taken_claim (inv : Taken ids noId s) {i : Fin n}
    (hpos : s.position t = .claiming i.val) (hfree : (s.slots i).flag = false) :
    Taken ids noId (s.claim t i) := by
  have hold : ∀ j, s.position t ≠ .writing j := fun j h => by
    rw [hpos] at h
    cases h
  have hself : (s.claim t i).position t = .writing i := goto_position_self _
  constructor
  case free =>
    intro j hj
    rw [claim_id]
    apply inv.free j
    by_contra hflag
    have htrue : (s.slots j).flag = true := by simpa using hflag
    rw [claim_flag htrue] at hj
    cases hj
  case taken =>
    intro j hj
    by_cases hji : j = i
    · exact ⟨t, .inl (by rw [hself, hji])⟩
    · have hflag : (s.slots j).flag = true := by
        have hupdate : (Function.update s.slots i { s.slots i with flag := true } j).flag = true := hj
        rwa [Function.update_of_ne hji] at hupdate
      obtain ⟨u, hu⟩ := inv.taken j hflag
      exact ⟨u, holds_claim hold hu⟩
  case writing =>
    intro u j h
    by_cases hu : u = t
    · have hj : j = i := by
        rw [hu, hself] at h
        exact (Position.writing.inj h).symm
      rw [claim_id, hj]
      refine ⟨?_, inv.free i hfree⟩
      show (Function.update s.slots i _ i).flag = true
      rw [Function.update_self]
    · have hslot := inv.writing u j (writing_of_claim inv hfree hu h).1
      exact ⟨claim_flag hslot.1, claim_id.trans hslot.2⟩
  case writer =>
    intro u v j hu hv
    by_cases hut : u = t
    · by_cases hvt : v = t
      · rw [hut, hvt]
      · rw [hut, hself] at hu
        exact absurd (Position.writing.inj hu).symm (writing_of_claim inv hfree hvt hv).2
    · have hwriting := writing_of_claim inv hfree hut hu
      by_cases hvt : v = t
      · rw [hvt, hself] at hv
        exact absurd (Position.writing.inj hv).symm hwriting.2
      · exact inv.writer u v j hwriting.1 (writing_of_claim inv hfree hvt hv).1
  case labelled =>
    intro u j k hj hk
    rw [claim_id] at hj hk
    exact inv.labelled u j k hj hk
  case passed => exact passed_claim inv hpos

theorem label_flag {i j : Fin n} : ((s.label ids t i).slots j).flag = (s.slots j).flag := by
  show (Function.update s.slots i _ j).flag = _
  by_cases hj : j = i
  · rw [hj, Function.update_self]
  · rw [Function.update_of_ne hj]

theorem label_id_self {i : Fin n} : ((s.label ids t i).slots i).id = ids t := by
  show (Function.update s.slots i _ i).id = _
  rw [Function.update_self]

theorem label_id_of_ne {i j : Fin n} (h : j ≠ i) :
    ((s.label ids t i).slots j).id = (s.slots j).id := by
  show (Function.update s.slots i _ j).id = _
  rw [Function.update_of_ne h]

theorem holds_label (inv : Taken ids noId s) (reset : ∀ t, ids t ≠ noId) {i j : Fin n} {u : Tid}
    (hpos : s.position t = .writing i) (h : s.Holds ids u j) : (s.label ids t i).Holds ids u j := by
  obtain ⟨hflag, hid⟩ := inv.writing t i hpos
  cases h with
  | inl h =>
      by_cases hu : u = t
      · have hj : i = j := Position.writing.inj (hpos.symm.trans (hu ▸ h))
        rw [← hj, hu]
        exact .inr ⟨label_flag.trans hflag, label_id_self⟩
      · exact .inl ((goto_position_of_ne hu _).trans h)
  | inr h =>
      have hj : j ≠ i := fun hj => reset u (h.2.symm.trans (hj ▸ hid))
      exact .inr ⟨label_flag.trans h.1, (label_id_of_ne hj).trans h.2⟩

/-- After the label is written its thread is not writing, and nobody else wrote to the slot. -/
theorem writing_of_label (inv : Taken ids noId s) {i j : Fin n} (hpos : s.position t = .writing i)
    {u : Tid} (h : (s.label ids t i).position u = .writing j) :
    u ≠ t ∧ s.position u = .writing j ∧ j ≠ i := by
  have hu : u ≠ t := by
    rintro rfl
    rw [show (s.label ids u i).position u = .idle from goto_position_self _] at h
    cases h
  have hwriting : s.position u = .writing j := (goto_position_of_ne hu _).symm.trans h
  exact ⟨hu, hwriting, fun hj => hu (inv.writer u t i (hj ▸ hwriting) hpos)⟩

/-- An id found after the label is written is the new one or was there before. -/
theorem id_of_label (inv : Taken ids noId s) (distinct : Function.Injective ids) {i j : Fin n}
    (hpos : s.position t = .writing i) {u : Tid} (h : ((s.label ids t i).slots j).id = ids u) :
    (u = t ∧ j = i) ∨ (u ≠ t ∧ (s.slots j).id = ids u) := by
  have hnone := inv.passed t
  rw [hpos] at hnone
  by_cases hj : j = i
  · rw [hj, label_id_self] at h
    exact .inl ⟨(distinct h).symm, hj⟩
  · rw [label_id_of_ne hj] at h
    exact .inr ⟨fun hu => hnone j (hu ▸ h), h⟩

theorem passed_label (inv : Taken ids noId s) (distinct : Function.Injective ids) {i : Fin n}
    (hpos : s.position t = .writing i) (u : Tid) :
    ((s.label ids t i).position u).Passed (s.label ids t i).slots (ids u) := by
  by_cases hu : u = t
  · rw [hu, show (s.label ids t i).position t = .idle from goto_position_self _]
    trivial
  · rw [show (s.label ids t i).position u = s.position u from goto_position_of_ne hu _]
    apply (inv.passed u).mono
    · intro j hj
      rwa [label_flag]
    · intro j hj heq
      cases id_of_label inv distinct hpos heq with
      | inl h => exact hu h.1
      | inr h => exact hj h.2

theorem taken_label (inv : Taken ids noId s) (distinct : Function.Injective ids)
    (reset : ∀ t, ids t ≠ noId) {i : Fin n} (hpos : s.position t = .writing i) :
    Taken ids noId (s.label ids t i) := by
  constructor
  case free =>
    intro j hj
    rw [label_flag] at hj
    have hji : j ≠ i := fun hji => by
      rw [hji, (inv.writing t i hpos).1] at hj
      cases hj
    rw [label_id_of_ne hji]
    exact inv.free j hj
  case taken =>
    intro j hj
    rw [label_flag] at hj
    obtain ⟨u, hu⟩ := inv.taken j hj
    exact ⟨u, holds_label inv reset hpos hu⟩
  case writing =>
    intro u j h
    obtain ⟨-, hwriting, hj⟩ := writing_of_label inv hpos h
    rw [label_flag, label_id_of_ne hj]
    exact inv.writing u j hwriting
  case writer =>
    intro u v j hu hv
    exact inv.writer u v j (writing_of_label inv hpos hu).2.1 (writing_of_label inv hpos hv).2.1
  case labelled =>
    intro u j k hj hk
    rcases id_of_label inv distinct hpos hj with ⟨hu, hj⟩ | ⟨hu, hj⟩
    · rcases id_of_label inv distinct hpos hk with ⟨-, hk⟩ | ⟨hu', -⟩
      · rw [hj, hk]
      · exact absurd hu hu'
    · rcases id_of_label inv distinct hpos hk with ⟨hu', -⟩ | ⟨-, hk⟩
      · exact absurd hu' hu
      · exact inv.labelled u j k hj hk
  case passed => exact passed_label inv distinct hpos

variable [DecidableEq Id]

/-- A set flag is left as it is, a free slot is taken. -/
theorem advance_claiming {ti : Nat} (h : ti < n) (hpos : s.position t = .claiming ti) :
    advance ids s t = if (s.slots ⟨ti, h⟩).flag then s.goto t (.claiming (ti + 1))
      else s.claim t ⟨ti, h⟩ := by
  unfold advance
  rw [hpos]
  dsimp only
  rw [dif_pos h]
  cases hflag : (s.slots ⟨ti, h⟩).flag with
  | false => simp [Slot.setFlag, hflag, System.claim]
  | true =>
      have hsame : s.setSlot ⟨ti, h⟩ { s.slots ⟨ti, h⟩ with flag := true } = s := by
        unfold System.setSlot
        rw [← hflag, Function.update_eq_self]
      simp [Slot.setFlag, hflag, hsame]

/-- The steps of `getThreadId`, by what they do to the slots. -/
inductive Advances (ids : Tid → Id) (s : System Tid Id n) (t : Tid) : System Tid Id n → Prop
  | move (p : Position n) (hold : ∀ i, s.position t ≠ .writing i) (hnew : ∀ i, p ≠ .writing i)
      (hpassed : p.Passed s.slots (ids t)) (hreturns : s.returns ids t = none) :
      Advances ids s t (s.goto t p)
  | answer (label : Label n) (hold : ∀ i, s.position t ≠ .writing i)
      (hreturns : s.returns ids t = some label) : Advances ids s t (s.answer t label)
  | claim (i : Fin n) (hpos : s.position t = .claiming i.val) (hfree : (s.slots i).flag = false)
      (hreturns : s.returns ids t = none) : Advances ids s t (s.claim t i)
  | label (i : Fin n) (hpos : s.position t = .writing i)
      (hreturns : s.returns ids t = some (.idstr i)) : Advances ids s t (s.label ids t i)

/-- What holds of the slots before one and of it holds of the slots before the next one. -/
theorem forall_lt_succ {p : Fin n → Prop} {ti : Nat} (h : ti < n) (hbefore : ∀ j : Fin n, j.val < ti → p j)
    (hself : p ⟨ti, h⟩) : ∀ j : Fin n, j.val < ti + 1 → p j := by
  intro j hj
  rcases Nat.lt_succ_iff_lt_or_eq.mp hj with hlt | heq
  · exact hbefore j hlt
  · rw [show j = ⟨ti, h⟩ from Fin.ext heq]
    exact hself

theorem advance_spec (inv : Taken ids noId s) (reset : ∀ t, ids t ≠ noId) :
    Advances ids s t (advance ids s t) := by
  have hpassed := inv.passed t
  cases hpos : s.position t with
  | idle =>
      rw [show advance ids s t = s.goto t (.testing 0) by simp [advance, hpos]]
      refine .move _ (by simp [hpos]) (by simp) ?_ (by simp [System.returns, hpos])
      exact fun j hj => absurd hj (Nat.not_lt_zero _)
  | testing ti =>
      rw [hpos] at hpassed
      have hreturns : s.returns ids t = none := by simp [System.returns, hpos]
      by_cases h : ti < n
      · by_cases hflag : (s.slots ⟨ti, h⟩).flag = true
        · rw [show advance ids s t = s.goto t (.reading ⟨ti, h⟩) by simp [advance, hpos, h, hflag]]
          exact .move _ (by simp [hpos]) (by simp) hpassed hreturns
        · rw [show advance ids s t = s.goto t (.testing (ti + 1)) by simp [advance, hpos, h, hflag]]
          refine .move _ (by simp [hpos]) (by simp) (forall_lt_succ h hpassed ?_) hreturns
          rw [inv.free ⟨ti, h⟩ (by simpa using hflag)]
          exact (reset t).symm
      · rw [show advance ids s t = s.goto t (.claiming 0) by simp [advance, hpos, h]]
        refine .move _ (by simp [hpos]) (by simp) ?_ hreturns
        exact ⟨fun j => hpassed j (by omega), fun j hj => absurd hj (Nat.not_lt_zero _)⟩
  | reading ti =>
      rw [hpos] at hpassed
      by_cases hid : (s.slots ti).id = ids t
      · rw [show advance ids s t = s.answer t (.idstr ti) by simp [advance, hpos, hid]]
        exact .answer _ (by simp [hpos]) (by simp [System.returns, hpos, hid])
      · rw [show advance ids s t = s.goto t (.testing (ti + 1)) by simp [advance, hpos, hid]]
        exact .move _ (by simp [hpos]) (by simp) (forall_lt_succ ti.isLt hpassed hid)
          (by simp [System.returns, hpos, hid])
  | claiming ti =>
      rw [hpos] at hpassed
      by_cases h : ti < n
      · have hreturns : s.returns ids t = none := by simp [System.returns, hpos, h]
        rw [advance_claiming h hpos]
        by_cases hflag : (s.slots ⟨ti, h⟩).flag = true
        · rw [if_pos hflag]
          exact .move _ (by simp [hpos]) (by simp) ⟨hpassed.1, forall_lt_succ h hpassed.2 hflag⟩ hreturns
        · rw [if_neg hflag]
          exact .claim ⟨ti, h⟩ hpos (by simpa using hflag) hreturns
      · rw [show advance ids s t = s.answer t .ovfl by simp [advance, hpos, h]]
        exact .answer _ (by simp [hpos]) (by simp [System.returns, hpos, h])
  | writing ti =>
      rw [show advance ids s t = s.label ids t ti by simp [advance, hpos, System.label]]
      exact .label ti hpos (by simp [System.returns, hpos])

theorem taken_advance (inv : Taken ids noId s) (distinct : Function.Injective ids)
    (reset : ∀ t, ids t ≠ noId) : Taken ids noId (advance ids s t) := by
  have hspec := advance_spec (t := t) inv reset
  generalize advance ids s t = s' at hspec ⊢
  cases hspec with
  | move p hold hnew hpassed _ => exact taken_goto inv hold hnew hpassed
  | answer label hold _ =>
      have hidle := taken_goto inv hold (p := .idle) (by simp) trivial
      exact ⟨hidle.free, hidle.taken, hidle.writing, hidle.writer, hidle.labelled, hidle.passed⟩
  | claim i hpos hfree _ => exact taken_claim inv hpos hfree
  | label i hpos _ => exact taken_label inv distinct reset hpos

/-- A slot is held for good. -/
theorem holds_advance (inv : Taken ids noId s) (reset : ∀ t, ids t ≠ noId) {u : Tid} {i : Fin n}
    (h : s.Holds ids u i) : (advance ids s t).Holds ids u i := by
  have hspec := advance_spec (t := t) inv reset
  generalize advance ids s t = s' at hspec ⊢
  cases hspec with
  | move p hold _ _ _ => exact holds_goto hold h
  | answer label hold _ => exact holds_goto hold h
  | claim j hpos _ _ => exact holds_claim (fun i h' => by simp [hpos] at h') h
  | label j hpos _ => exact holds_label inv reset hpos h

theorem answers_advance (inv : Taken ids noId s) (reset : ∀ t, ids t ≠ noId) :
    (advance ids s t).answers =
      s.answers ++ ((s.returns ids t).map fun label => (t, label)).toList := by
  have hspec := advance_spec (t := t) inv reset
  generalize advance ids s t = s' at hspec ⊢
  cases hspec with
  | move p _ _ _ hreturns =>
      rw [hreturns]
      exact (List.append_nil _).symm
  | answer label _ hreturns =>
      rw [hreturns]
      rfl
  | claim i _ _ hreturns =>
      rw [hreturns]
      exact (List.append_nil _).symm
  | label i _ hreturns =>
      rw [hreturns]
      rfl

theorem labelled_advance (inv : Labelled ids noId s) (distinct : Function.Injective ids)
    (reset : ∀ t, ids t ≠ noId) : Labelled ids noId (advance ids s t) := by
  have hanswers := answers_advance (t := t) inv.taken reset
  refine ⟨taken_advance inv.taken distinct reset, fun u i h => ?_, ?_⟩
  · rw [hanswers] at h
    apply holds_advance inv.taken reset
    cases List.mem_append.mp h with
    | inl hold => exact inv.held u i hold
    | inr hnew =>
        rw [Option.mem_toList, Option.map_eq_some_iff] at hnew
        rcases hnew with ⟨label, hreturns, heq⟩
        cases heq
        exact holds_of_returns inv.taken reset hreturns
  · rw [hanswers, List.pairwise_append]
    refine ⟨inv.stable, ?_, fun a ha b hb hab i hi => ?_⟩
    · cases s.returns ids t with
      | none => exact List.Pairwise.nil
      | some label => exact List.pairwise_singleton _ _
    · rw [Option.mem_toList, Option.map_eq_some_iff] at hb
      rcases hb with ⟨label, hreturns, rfl⟩
      have hholds : s.Holds ids t i := by
        apply inv.held
        rcases a with ⟨u, label'⟩
        cases hab
        cases hi
        exact ha
      exact label_of_holds inv.taken reset hholds hreturns

end Invariant

/-- In every run from a reset, threads with distinct ids own their labels. -/
theorem labelsOwned_of_run [DecidableEq Tid] [DecidableEq Id] (ids : Tid → Id)
    (distinct : Function.Injective ids) (noId : Id) (reset : ∀ t, ids t ≠ noId)
    (s : System Tid Id n) (acts : List Tid)
    (h : StepSystem.run (step ids) (initial Tid n noId) acts = some s) : LabelsOwned ids s := by
  have keep : ∀ (s : System Tid Id n) t s', Labelled ids noId s → True → step ids s t = some s' →
      Labelled ids noId s' := by
    intro s t s' inv _ hstep
    obtain rfl := Option.some.inj hstep
    exact labelled_advance inv distinct reset
  have anywhere : StepSystem.Along (step ids) (fun _ _ => True) (initial Tid n noId) acts :=
    StepSystem.along_of_forall (fun _ _ => trivial) _
  have inv := StepSystem.invariant_run _ keep (labelled_initial reset) anywhere h
  constructor
  · intro t u i ht hu
    exact inv.taken.exclusive distinct reset ht hu
  · intro t i j hi hj
    exact inv.taken.single hi hj
  · exact inv.held
  · exact inv.stable
  · intro t i label hholds hreturns
    exact label_of_holds inv.taken reset hholds hreturns
  · intro t hreturns i
    exact taken_of_ovfl inv.taken hreturns i

/-- Two threads take the two slots, a third one finds none, and the first is asked again. -/
def threeThreads : List (Fin 3) :=
  [0, 1, 0, 1, 0, 0, 1, 0, 1, 1, 0, 1, 1] ++ List.replicate 9 2 ++ List.replicate 3 0

theorem labelsOwned_threeThreads :
    ∃ s : System (Fin 3) Nat 2,
      StepSystem.run (step fun t => t.val + 1) (initial (Fin 3) 2 0) threeThreads = some s ∧
        s.answers = [(0, .idstr 0), (1, .idstr 1), (2, .ovfl), (0, .idstr 0)] ∧
        LabelsOwned (fun t => t.val + 1) s := by
  refine ⟨_, rfl, by decide, ?_⟩
  exact labelsOwned_of_run (fun t : Fin 3 => t.val + 1) (fun t u h => Fin.ext (by simpa using h)) 0
    (fun t => Nat.succ_ne_zero _) _ threeThreads rfl

end StrusWebService.Logger
