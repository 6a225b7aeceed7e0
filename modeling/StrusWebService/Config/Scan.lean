import Mathlib.Data.List.Basic
import StrusWebService.Library.Text

/-! # Substitution in one string

The scan of `substConfigReferenceVariables` over a C string. A pointer is the part
of the buffer it points to: the bytes up to the terminating NUL and the NUL
itself. Reading behind the buffer has no value. `Template` describes the strings
whose braces are all well formed references; on such a string the scan replaces
every reference and copies the rest.
-/

namespace StrusWebService.Config

abbrev Str := List UInt8

def braceOpen : UInt8 := 123
def braceClose : UInt8 := 125

/-- `std::strchr( si, '{')`: the bytes passed over and the pointer found, if any. -/
def strchrBrace : Str → Option (Str × Option Str)
  | [] => none
  | c :: rest =>
      if c = braceOpen then some ([], some (c :: rest))
      else if c = 0 then some ([], none)
      else (strchrBrace rest).map fun r => (c :: r.1, r.2)

/-- `for (; (unsigned char)*si <= 32; ++si){}`: the bytes passed over and `si`. -/
def skipBlanks : Str → Option (Str × Str)
  | [] => none
  | c :: rest =>
      if c ≤ 32 then (skipBlanks rest).map fun r => (c :: r.1, r.2)
      else some ([], c :: rest)

/-- `for (; (unsigned char)*si > 32 && *si != '}'; ++si)`: `variableref` and `si`. -/
def scanVariable : Str → Option (Str × Str)
  | [] => none
  | c :: rest =>
      if c > 32 ∧ c ≠ braceClose then (scanVariable rest).map fun r => (c :: r.1, r.2)
      else some ([], c :: rest)

/-- The loop of `substConfigReferenceVariables`, entered with `res` and `prev`. Each
turn passes a `{`, so the length of the buffer bounds the number of turns. -/
def substLoop (get : Str → Str) : Nat → Str → Str → Option Str
  | 0, _, _ => none
  | fuel + 1, res, prev =>
      (strchrBrace prev).bind fun
        | (skipped, none) => some (res ++ skipped)
        | (skipped, some start) =>
            (skipBlanks start.tail).bind fun (blanks, si) =>
            (scanVariable si).bind fun (variableref, si) =>
            (skipBlanks si).bind fun (blanks', si) =>
              if si.head? = some braceClose ∧ variableref ≠ [] then
                substLoop get fuel (res ++ skipped ++ get variableref) si.tail
              else
                substLoop get fuel
                  (res ++ skipped ++ braceOpen :: (blanks ++ variableref ++ blanks')) si

/-- `substConfigReferenceVariables` on a string, with `get` for `root.get( path, "")`. -/
def substConfigReferenceVariables (get : Str → Str) (str : Str) : Option Str :=
  substLoop get (str.length + 2) [] (str ++ [0])

/-! ### Well formed strings -/

/-- Bytes that neither end the string nor take part in a reference. -/
def Plain (bytes : Str) : Prop := ∀ c ∈ bytes, c ≠ 0 ∧ c ≠ braceOpen ∧ c ≠ braceClose

/-- A part of a well formed string: plain text or `{ name }`. -/
inductive Piece where
  | text (bytes : Str)
  | reference (before name after : Str)
  deriving DecidableEq, Repr

namespace Piece

def Valid : Piece → Prop
  | text bytes => Plain bytes
  | reference before name after =>
      (∀ c ∈ before ++ after, c ≠ 0 ∧ c ≤ 32) ∧
        name ≠ [] ∧ ∀ c ∈ name, c > 32 ∧ c ≠ braceOpen ∧ c ≠ braceClose

instance (p : Piece) : Decidable p.Valid :=
  match p with
  | text bytes => inferInstanceAs (Decidable (∀ c ∈ bytes, _ ∧ _))
  | reference _ _ _ => inferInstanceAs (Decidable (_ ∧ _))

def render : Piece → Str
  | text bytes => bytes
  | reference before name after => braceOpen :: (before ++ name ++ after ++ [braceClose])

def expand (get : Str → Str) : Piece → Str
  | text bytes => bytes
  | reference _ name _ => get name

def name? : Piece → Option Str
  | text _ => none
  | reference _ name _ => some name

end Piece

/-- A string whose braces are all well formed references. -/
structure Template where
  pieces : List Piece
  valid : ∀ p ∈ pieces, p.Valid

namespace Template

def render (t : Template) : Str := t.pieces.flatMap Piece.render

/-- The text with every reference replaced. -/
def expand (get : Str → Str) (t : Template) : Str := t.pieces.flatMap (Piece.expand get)

/-- The names referred to, in order. -/
def names (t : Template) : List Str := t.pieces.filterMap Piece.name?

end Template

/-! ### The scan of a well formed string -/

/-- Bytes that `strchr` passes over. -/
def Copied (bytes : Str) : Prop := ∀ c ∈ bytes, c ≠ 0 ∧ c ≠ braceOpen

theorem Plain.nil : Plain [] := fun _ hc => nomatch hc

theorem Plain.append {bytes bytes' : Str} (h : Plain bytes) (h' : Plain bytes') :
    Plain (bytes ++ bytes') := by
  intro c hc
  cases List.mem_append.mp hc with
  | inl hc => exact h c hc
  | inr hc => exact h' c hc

theorem Plain.flatMap {α : Type*} {f : α → Str} {xs : List α} (h : ∀ x ∈ xs, Plain (f x)) :
    Plain (xs.flatMap f) := by
  intro c hc
  obtain ⟨x, hx, hc⟩ := List.mem_flatMap.mp hc
  exact h x hx c hc

theorem Plain.copied {bytes : Str} (h : Plain bytes) : Copied bytes :=
  fun c hc => ⟨(h c hc).1, (h c hc).2.1⟩

theorem strchrBrace_append {bytes : Str} (h : Copied bytes) (rest : Str) :
    strchrBrace (bytes ++ rest) = (strchrBrace rest).map fun r => (bytes ++ r.1, r.2) := by
  induction bytes with
  | nil => simp
  | cons c bytes ih =>
      obtain ⟨hzero, hopen⟩ := h c List.mem_cons_self
      have htail := ih fun d hd => h d (List.mem_cons_of_mem c hd)
      simp [strchrBrace, hzero, hopen, htail, Function.comp_def]

theorem skipBlanks_append {blanks si : Str} (h : ∀ c ∈ blanks, c ≠ 0 ∧ c ≤ 32)
    (hstop : ∀ c ∈ si.head?, 32 < c) (hsi : si ≠ []) :
    skipBlanks (blanks ++ si) = some (blanks, si) := by
  induction blanks with
  | nil =>
      cases si with
      | nil => exact absurd rfl hsi
      | cons c si =>
          have hc : ¬c ≤ 32 := by simpa using hstop c rfl
          simp [skipBlanks, hc]
  | cons c blanks ih =>
      have htail := ih fun d hd => h d (List.mem_cons_of_mem c hd)
      simp [skipBlanks, (h c List.mem_cons_self).2, htail]

theorem scanVariable_append {name si : Str} (h : ∀ c ∈ name, c > 32 ∧ c ≠ braceOpen ∧ c ≠ braceClose)
    (hstop : ∀ c ∈ si.head?, c ≤ 32 ∨ c = braceClose) (hsi : si ≠ []) :
    scanVariable (name ++ si) = some (name, si) := by
  induction name with
  | nil =>
      cases si with
      | nil => exact absurd rfl hsi
      | cons c si =>
          have hc : ¬(c > 32 ∧ c ≠ braceClose) := by
            intro hc
            cases hstop c rfl with
            | inl hle => exact absurd hc.1 (by simpa using hle)
            | inr heq => exact hc.2 heq
          simp only [List.nil_append, scanVariable, if_neg hc]
  | cons c name ih =>
      have htail := ih fun d hd => h d (List.mem_cons_of_mem c hd)
      have hc : c > 32 ∧ c ≠ braceClose := ⟨(h c List.mem_cons_self).1, (h c List.mem_cons_self).2.2⟩
      simp only [List.cons_append, scanVariable, if_pos hc, htail, Option.map_some]

/-- One turn of the loop over plain text and a reference. -/
theorem substLoop_reference (get : Str → Str) (fuel : Nat) (res rest : Str)
    {text before name after : Str} (htext : Plain text) (h : (Piece.reference before name after).Valid) :
    substLoop get (fuel + 1) res (text ++ (Piece.reference before name after).render ++ rest) =
      substLoop get fuel (res ++ text ++ get name) rest := by
  rcases h with ⟨hblank, hname, hvar⟩
  have hopen : strchrBrace (text ++ (Piece.reference before name after).render ++ rest) =
      some (text, some (braceOpen :: (before ++ (name ++ (after ++ braceClose :: rest))))) := by
    rw [List.append_assoc, strchrBrace_append htext.copied]
    simp [Piece.render, strchrBrace]
  have hbefore : skipBlanks (before ++ (name ++ (after ++ braceClose :: rest))) =
      some (before, name ++ (after ++ braceClose :: rest)) := by
    apply skipBlanks_append fun c hc => hblank c (List.mem_append_left after hc)
    · cases name with
      | nil => exact absurd rfl hname
      | cons c name =>
          intro d hd
          cases hd
          exact (hvar c List.mem_cons_self).1
    · simp
  have hscan : scanVariable (name ++ (after ++ braceClose :: rest)) =
      some (name, after ++ braceClose :: rest) := by
    apply scanVariable_append hvar
    · cases after with
      | nil =>
          intro d hd
          cases hd
          exact Or.inr rfl
      | cons c after =>
          intro d hd
          cases hd
          exact Or.inl (hblank c (List.mem_append_right before List.mem_cons_self)).2
    · simp
  have hafter : skipBlanks (after ++ braceClose :: rest) = some (after, braceClose :: rest) := by
    apply skipBlanks_append fun c hc => hblank c (List.mem_append_right before hc)
    · intro d hd
      cases hd
      decide
    · simp
  rw [substLoop, hopen]
  simp [hbefore, hscan, hafter, hname]

theorem substLoop_pieces (get : Str → Str) {pieces : List Piece} (h : ∀ p ∈ pieces, p.Valid)
    (fuel : Nat) (hfuel : (pieces.filterMap Piece.name?).length < fuel) (res : Str) {text : Str}
    (htext : Plain text) :
    substLoop get fuel res (text ++ pieces.flatMap Piece.render ++ [0]) =
      some (res ++ text ++ pieces.flatMap (Piece.expand get)) := by
  induction pieces generalizing fuel res text with
  | nil =>
      obtain ⟨fuel, rfl⟩ : ∃ n, fuel = n + 1 := ⟨fuel - 1, by omega⟩
      simp [substLoop, strchrBrace_append htext.copied, strchrBrace, braceOpen]
  | cons p pieces ih =>
      have hp := h p List.mem_cons_self
      have hrest := fun q hq => h q (List.mem_cons_of_mem p hq)
      cases p with
      | text bytes =>
          -- the text of the piece joins the text the scan is still to pass over
          have hjoined := ih hrest fuel hfuel res (htext.append hp)
          simpa [Piece.render, Piece.expand] using hjoined
      | reference before name after =>
          have hcount : (pieces.filterMap Piece.name?).length + 1 < fuel := hfuel
          obtain ⟨fuel, rfl⟩ : ∃ n, fuel = n + 1 := ⟨fuel - 1, by omega⟩
          have hfirst := substLoop_reference get fuel res (pieces.flatMap Piece.render ++ [0]) htext hp
          have hturn := ih hrest fuel (by omega) (res ++ text ++ get name) Plain.nil
          simp only [List.flatMap_cons, ← List.append_assoc] at hfirst ⊢
          rw [hfirst]
          simpa [Piece.expand] using hturn

namespace Template

theorem length_filterMap_name?_le (pieces : List Piece) :
    (pieces.filterMap Piece.name?).length ≤ (pieces.flatMap Piece.render).length := by
  induction pieces with
  | nil => exact Nat.le_refl 0
  | cons p pieces ih =>
      rw [List.flatMap_cons, List.length_append]
      cases p with
      | text bytes => exact Nat.le_add_left_of_le ih
      | reference before name after =>
          have hone : 1 ≤ (Piece.reference before name after).render.length := Nat.succ_pos _
          have hcons : ((Piece.reference before name after :: pieces).filterMap Piece.name?).length =
            (pieces.filterMap Piece.name?).length + 1 := rfl
          omega

/-- A well formed string is scanned without reading behind its end, and each
reference is replaced. -/
theorem substConfigReferenceVariables_render (get : Str → Str) (t : Template) :
    substConfigReferenceVariables get t.render = some (t.expand get) := by
  have hfuel : (t.pieces.filterMap Piece.name?).length < t.render.length + 2 := by
    have hle := length_filterMap_name?_le t.pieces
    unfold render
    omega
  have hloop := substLoop_pieces get t.valid (t.render.length + 2) hfuel [] Plain.nil
  simpa [substConfigReferenceVariables, render, expand] using hloop

/-- Only the values of the names that occur matter. -/
theorem expand_congr {get get' : Str → Str} (t : Template)
    (h : ∀ name ∈ t.names, get name = get' name) : t.expand get = t.expand get' := by
  apply List.flatMap_congr
  intro p hp
  cases p with
  | text bytes => rfl
  | reference before name after =>
      exact h name (List.mem_filterMap.mpr ⟨_, hp, rfl⟩)

/-- Without references the string stands for itself. -/
theorem expand_eq_render {t : Template} (h : t.names = []) (get : Str → Str) :
    t.expand get = t.render := by
  apply List.flatMap_congr
  intro p hp
  cases p with
  | text bytes => rfl
  | reference before name after =>
      exact nomatch List.filterMap_eq_nil_iff.mp h _ hp

theorem plain_expand {get : Str → Str} (t : Template) (h : ∀ name ∈ t.names, Plain (get name)) :
    Plain (t.expand get) := by
  apply Plain.flatMap
  intro p hp
  cases p with
  | text bytes => exact t.valid _ hp
  | reference before name after => exact h name (List.mem_filterMap.mpr ⟨_, hp, rfl⟩)

theorem mem_expand {get : Str → Str} (t : Template) {name : Str} (hname : name ∈ t.names)
    {c : UInt8} (hc : c ∈ get name) : c ∈ t.expand get := by
  obtain ⟨p, hp, heq⟩ := List.mem_filterMap.mp hname
  apply List.mem_flatMap.mpr
  refine ⟨p, hp, ?_⟩
  cases p with
  | text bytes => nomatch heq
  | reference before name' after =>
      cases heq
      exact hc

theorem braceOpen_mem_render {t : Template} (h : t.names ≠ []) : braceOpen ∈ t.render := by
  obtain ⟨name, hname⟩ := List.exists_mem_of_ne_nil _ h
  obtain ⟨p, hp, heq⟩ := List.mem_filterMap.mp hname
  apply List.mem_flatMap.mpr
  refine ⟨p, hp, ?_⟩
  cases p with
  | text bytes => nomatch heq
  | reference before name' after => exact List.mem_cons_self

end Template

end StrusWebService.Config
