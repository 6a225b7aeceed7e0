import Mathlib.Data.List.DropRight
import Mathlib.Data.List.TakeWhile

/-! # Texts

A text is the list of its bytes. Statements on all bytes of a text are decided on the
bytes that are there. A text is split where a predicate fails first, or at a separator
into its fields.
-/

abbrev Bytes := List UInt8

namespace Text

/-- The bytes of a string of the source. -/
def str (message : String) : Bytes := message.toUTF8.data.toList

def colon : UInt8 := 58
def slash : UInt8 := 47

def isDigit (c : UInt8) : Bool := 48 ≤ c && c ≤ 57

/-- `\s` of a regular expression on bytes. -/
def isSpace (c : UInt8) : Bool := c == 32 || (9 ≤ c && c ≤ 13)

end Text

section Decide

variable (p : UInt8 → Prop) [DecidablePred p]

instance decidableForallBytes (bytes : Bytes) : Decidable (∀ c ∈ bytes, p c) :=
  List.decidableBAll p bytes

instance decidableForallByte? (byte : Option UInt8) : Decidable (∀ c ∈ byte, p c) :=
  Option.decidableForallMem byte

end Decide

/-! ### Spans -/

section Spans

variable {α : Type*} {p : α → Bool} {inside behind : List α}

theorem takeWhile_append_stop (hinside : ∀ a ∈ inside, p a = true)
    (hbehind : ∀ a ∈ behind.head?, p a = false) : (inside ++ behind).takeWhile p = inside := by
  rw [List.takeWhile_append_of_pos hinside]
  cases behind with
  | nil => simp
  | cons a behind => simp [hbehind a rfl]

theorem dropWhile_append_stop (hinside : ∀ a ∈ inside, p a = true)
    (hbehind : ∀ a ∈ behind.head?, p a = false) : (inside ++ behind).dropWhile p = behind := by
  rw [List.dropWhile_append_of_pos hinside]
  cases behind with
  | nil => rfl
  | cons a behind => simp [hbehind a rfl]

theorem head_dropWhile (p : α → Bool) (list : List α) :
    ∀ a ∈ (list.dropWhile p).head?, p a = false := by
  intro a ha
  have hnot := List.head?_dropWhile_not p list
  rw [ha] at hnot
  exact hnot

/-- A list is split at the first of an element of it. -/
theorem split_at_mem [DecidableEq α] {a : α} {list : List α} (h : a ∈ list) :
    list = list.takeWhile (· ≠ a) ++ a :: (list.dropWhile (· ≠ a)).tail := by
  have hsplit := (List.takeWhile_append_dropWhile (p := (· ≠ a)) (l := list)).symm
  have hhead := head_dropWhile (· ≠ a) list
  cases hbehind : list.dropWhile (· ≠ a) with
  | nil =>
      have hall := List.dropWhile_eq_nil_iff.mp hbehind a h
      simp at hall
  | cons b behind =>
      rw [hbehind] at hsplit hhead
      obtain rfl : b = a := by simpa using hhead b rfl
      exact hsplit

end Spans

/-! ### Fields between separators -/

section Split

variable {α : Type} [DecidableEq α] {sep : α} {src : List α} {fields : List (List α)}

def splitFields (sep : α) (src : List α) : List (List α) :=
  (src.splitOn sep).rdropWhile (· = [])

omit [DecidableEq α] in
theorem intercalate_cons (sep : α) (field : List α) (fields : List (List α)) :
    List.intercalate [sep] (field :: fields) = field ++ fields.flatMap (sep :: ·) := by
  induction fields generalizing field with
  | nil => simp
  | cons field' fields ih =>
      rw [List.intercalate_cons_cons, ih, List.flatMap_cons]
      simp

omit [DecidableEq α] in
theorem mem_intercalate_iff {a : α} (hsep : a ≠ sep) :
    a ∈ List.intercalate [sep] fields ↔ ∃ field ∈ fields, a ∈ field := by
  cases fields with
  | nil => simp
  | cons field fields => simp [intercalate_cons, hsep]

/-- Everything but the separators is in one of the fields. -/
theorem mem_splitFields {a : α} (ha : a ∈ src) (hsep : a ≠ sep) :
    ∃ field ∈ splitFields sep src, a ∈ field := by
  rw [← @List.intercalate_splitOn _ src _ _ sep] at ha
  obtain ⟨field, hfield, hin⟩ := (mem_intercalate_iff hsep).mp ha
  rw [← List.rdropWhile_append_rtakeWhile (p := fun field => decide (field = [])) (l := src.splitOn sep),
    List.mem_append] at hfield
  cases hfield with
  | inl hfield => exact ⟨field, hfield, hin⟩
  | inr hfield =>
      have hnil : field = [] := by simpa using List.mem_rtakeWhile_imp hfield
      rw [hnil] at hin
      nomatch hin

/-- Fields without separators come back if the last one is not empty. -/
theorem splitFields_intercalate (hsep : ∀ field ∈ fields, sep ∉ field)
    (hlast : fields.getLast? ≠ some []) : splitFields sep (List.intercalate [sep] fields) = fields := by
  unfold splitFields
  by_cases hnil : fields = []
  · rw [hnil]
    rfl
  · rw [List.splitOn_intercalate sep hsep hnil, List.rdropWhile_eq_self_iff]
    intro hne
    rw [List.getLast?_eq_getLast_of_ne_nil hne] at hlast
    simpa using hlast

/-- Lines that are not empty come back from a text in which each of them has its end. -/
theorem splitFields_lines (hsep : ∀ field ∈ fields, sep ∉ field) (hne : ∀ field ∈ fields, field ≠ []) :
    splitFields sep (fields.flatMap (· ++ [sep])) = fields := by
  have hjoin : fields.flatMap (· ++ [sep]) = List.intercalate [sep] (fields ++ [[]]) := by
    clear hsep hne
    induction fields with
    | nil => rfl
    | cons field fields ih =>
        cases fields with
        | nil => simp
        | cons field' fields =>
            rw [List.flatMap_cons, ih]
            simp [List.intercalate_cons_cons]
  have hsep' : ∀ field ∈ fields ++ [[]], sep ∉ field := by
    intro field hfield
    cases List.mem_append.mp hfield with
    | inl hmem => exact hsep field hmem
    | inr hmem =>
        rw [List.mem_singleton.mp hmem]
        exact List.not_mem_nil
  rw [splitFields, hjoin, List.splitOn_intercalate sep hsep' (by simp),
    List.rdropWhile_concat_pos _ _ _ (by simp), List.rdropWhile_eq_self_iff]
  intro hlast
  simpa using hne _ (List.getLast_mem hlast)

end Split
