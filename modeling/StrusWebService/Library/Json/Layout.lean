import StrusWebService.Library.Json.Deciding
import StrusWebService.Library.Text

/-! # Values written with line breaks

A value is written with every member on a line of its own. Names of members and
numbers are written as they are, strings by an encoder that the parser inverts. The
parser gets the value back if and only if the names consist of plain bytes and the
numbers are numbers; on other names and numbers it fails or reads another value.
-/

namespace Json

open Text (colon)

/-! ### The writer -/

/-- An encoder of strings that the parser inverts and that breaks no line. -/
structure Encoder where
  encode : Bytes → Bytes
  read : ∀ s rest, string? (encode s ++ rest) = some (s, rest)
  noBreak : ∀ s, 10 ∉ encode s

/-- A line break and an indentation by tabs. -/
def newline (indent : Nat) : Bytes := 10 :: List.replicate indent 9

section Write

variable (encoder : Encoder)

mutual

def write (indent : Nat) : Json → Bytes
  | null => [110, 117, 108, 108]
  | bool true => [116, 114, 117, 101]
  | bool false => [102, 97, 108, 115, 101]
  | number literal => literal
  | string s => encoder.encode s
  | array elements =>
      openBracket :: (List.intercalate [comma] (writeElements (indent + 1) elements) ++
        (newline indent ++ [closeBracket]))
  | object members =>
      openBrace :: (List.intercalate [comma] (writeMembers (indent + 1) members) ++
        (newline indent ++ [closeBrace]))

def writeElements (indent : Nat) : List Json → List Bytes
  | [] => []
  | v :: elements => write indent v :: writeElements indent elements

def writeMembers (indent : Nat) : List (Bytes × Json) → List Bytes
  | [] => []
  | (name, v) :: members =>
      (newline indent ++ (quoted name ++ colon :: 32 :: write indent v)) ::
        writeMembers indent members

end

def writeMember (indent : Nat) (m : Bytes × Json) : Bytes :=
  quoted m.1 ++ colon :: 32 :: write encoder indent m.2

theorem writeElements_eq (indent : Nat) (elements : List Json) :
    writeElements encoder indent elements = elements.map (write encoder indent) := by
  induction elements with
  | nil => rfl
  | cons v elements ih => rw [writeElements, ih, List.map_cons]

theorem writeMembers_eq (indent : Nat) (members : List (Bytes × Json)) :
    writeMembers encoder indent members =
      members.map fun m => newline indent ++ writeMember encoder indent m := by
  induction members with
  | nil => rfl
  | cons m members ih => rw [writeMembers, ih, List.map_cons, writeMember]

theorem write_array (indent : Nat) (elements : List Json) (rest : Bytes) :
    write encoder indent (array elements) ++ rest =
      openBracket :: (listed [] (write encoder (indent + 1)) elements ++
        (newline indent ++ closeBracket :: rest)) := by
  rw [write, writeElements_eq]
  simp [listed]

theorem write_object (indent : Nat) (members : List (Bytes × Json)) (rest : Bytes) :
    write encoder indent (object members) ++ rest =
      openBrace :: (listed (newline (indent + 1)) (writeMember encoder (indent + 1)) members ++
        (newline indent ++ closeBrace :: rest)) := by
  rw [write, writeMembers_eq]
  simp [listed]

end Write

mutual

/-- All numbers and all names of members. -/
def All (p q : Bytes → Prop) : Json → Prop
  | null => True
  | bool _ => True
  | number literal => p literal
  | string _ => True
  | array elements => AllElements p q elements
  | object members => AllMembers p q members

def AllElements (p q : Bytes → Prop) : List Json → Prop
  | [] => True
  | v :: elements => v.All p q ∧ AllElements p q elements

def AllMembers (p q : Bytes → Prop) : List (Bytes × Json) → Prop
  | [] => True
  | (name, v) :: members => (q name ∧ v.All p q) ∧ AllMembers p q members

end

theorem all_array {p q : Bytes → Prop} (elements : List Json) :
    (array elements).All p q ↔ ∀ v ∈ elements, v.All p q := by
  rw [All]
  induction elements with
  | nil => simp [AllElements]
  | cons v elements ih => rw [AllElements, ih, List.forall_mem_cons]

theorem all_object {p q : Bytes → Prop} (members : List (Bytes × Json)) :
    (object members).All p q ↔ ∀ m ∈ members, q m.1 ∧ m.2.All p q := by
  rw [All]
  induction members with
  | nil => simp [AllMembers]
  | cons m members ih => rw [AllMembers, ih, List.forall_mem_cons]

/-! ### The writer and the parser -/

@[elab_as_elim] theorem induct {P : Json → Prop} (hnull : P null) (hbool : ∀ b, P (bool b))
    (hnumber : ∀ literal, P (number literal)) (hstring : ∀ s, P (string s))
    (harray : ∀ elements, (∀ v ∈ elements, P v) → P (array elements))
    (hobject : ∀ members, (∀ m ∈ members, P m.2) → P (object members)) (v : Json) : P v :=
  @Json.rec P (fun elements => ∀ v ∈ elements, P v)
    (fun members : List (Bytes × Json) => ∀ m ∈ members, P m.2) (fun m : Bytes × Json => P m.2)
    hnull hbool hnumber hstring harray hobject
    (fun _ hv => nomatch hv) (fun _ _ hv helements => List.forall_mem_cons.mpr ⟨hv, helements⟩)
    (fun _ hm => nomatch hm) (fun _ _ hm hmembers => List.forall_mem_cons.mpr ⟨hm, hmembers⟩)
    (fun _ _ hv => hv) v

/-- What the text of a number may be. -/
def Numeral (literal : Bytes) : Prop := literal ≠ [] ∧ ∀ c ∈ literal, isScalarByte c = true

theorem ne_of_isScalarByte {c d : UInt8} (hc : isScalarByte c = true)
    (hd : isScalarByte d = false) :
    c ≠ d := by
  intro heq
  rw [heq, hd] at hc
  nomatch hc

theorem value_literal {literal rest : Bytes} (hliteral : Numeral literal) (hrest : Delimited rest)
    (depth : Nat) :
    value (depth + 1) (literal ++ rest) = (scalarOf literal).map fun v => (v, rest) := by
  cases hlit : literal with
  | nil => exact absurd hlit hliteral.1
  | cons c behind =>
      have hc := hliteral.2 c (by rw [hlit]; exact List.mem_cons_self)
      rw [List.cons_append, value, if_neg (ne_of_isScalarByte hc rfl),
        if_neg (ne_of_isScalarByte hc rfl), if_neg (ne_of_isScalarByte hc rfl),
        ← List.cons_append, ← hlit, scalar, takeWhile_append_stop hliteral.2 hrest,
        dropWhile_append_stop hliteral.2 hrest]

theorem scalarOf_number_iff (literal : Bytes) :
    scalarOf literal = some (number literal) ↔ isNumber literal = true := by
  constructor
  · intro h
    unfold scalarOf at h
    split_ifs at h with _ _ _ hnumber
    · cases h
    · cases h
    · cases h
    · exact hnumber
  · intro h
    have hword : ∀ word, isNumber word = false → literal ≠ word := by
      intro word hword heq
      rw [heq, hword] at h
      nomatch h
    rw [scalarOf, if_neg (hword _ (by decide)), if_neg (hword _ (by decide)),
      if_neg (hword _ (by decide)), if_pos h]

theorem isSpace_of_isScalarByte {c : UInt8} (h : isScalarByte c = true) : isSpace c = false := by
  cases hc : isSpace c with
  | false => rfl
  | true =>
      rw [isScalarByte_of_isSpace hc] at h
      nomatch h

section Write

variable (encoder : Encoder)

theorem encode_start (s : Bytes) : ∃ behind, encoder.encode s = quote :: behind := by
  have hread := encoder.read s []
  rw [List.append_nil] at hread
  cases hencode : encoder.encode s with
  | nil =>
      rw [hencode] at hread
      cases hread
  | cons c behind =>
      rw [hencode, string?] at hread
      split at hread
      · rename_i hc
        exact ⟨behind, by rw [hc]⟩
      · cases hread

/-- The first byte of a value neither is space nor closes an array. -/
theorem write_start (indent : Nat) (v : Json) (hv : v.All Numeral fun _ => True) :
    ∃ c behind, write encoder indent v = c :: behind ∧ isSpace c = false ∧ c ≠ closeBracket := by
  cases v with
  | null => exact ⟨110, _, rfl, rfl, by decide⟩
  | bool b =>
      cases b with
      | true => exact ⟨116, _, rfl, rfl, by decide⟩
      | false => exact ⟨102, _, rfl, rfl, by decide⟩
  | number literal =>
      rw [All] at hv
      cases literal with
      | nil => exact absurd rfl hv.1
      | cons c behind =>
          have hc := hv.2 c List.mem_cons_self
          exact ⟨c, behind, rfl, isSpace_of_isScalarByte hc, ne_of_isScalarByte hc rfl⟩
  | string s =>
      obtain ⟨behind, hencode⟩ := encode_start encoder s
      exact ⟨quote, behind, hencode, rfl, by decide⟩
  | array elements => exact ⟨openBracket, _, rfl, rfl, by decide⟩
  | object members => exact ⟨openBrace, _, rfl, rfl, by decide⟩

theorem isSpace_newline (indent : Nat) : ∀ c ∈ newline indent, isSpace c = true := by
  intro c hc
  cases List.mem_cons.mp hc with
  | inl heq => rw [heq]; rfl
  | inr hmem => rw [List.eq_of_mem_replicate hmem]; rfl

/-- The parser gets a value back at this depth, if it is well written, and not at all
otherwise. -/
def ReadBack (depth indent : Nat) (v : Json) : Prop :=
  ∀ rest, Delimited rest → ∀ r, value depth (write encoder indent v ++ rest) = some (v, r) ↔
    v.All (isNumber · = true) Plain ∧ r = rest

theorem decides_element {depth indent : Nat} {v : Json} (hv : v.All Numeral fun _ => True)
    (h : ReadBack encoder depth indent v) :
    Decides (value depth) (write encoder indent) id (fun v => v.All (isNumber · = true) Plain)
      closeBracket v where
  start := write_start encoder indent v hv
  read := h

theorem decides_member {depth indent : Nat} {m : Bytes × Json} (hm : m.2.All Numeral fun _ => True)
    (h : ReadBack encoder depth indent m.2) :
    Decides (member (value depth)) (writeMember encoder indent) id
      (fun m => Plain m.1 ∧ m.2.All (isNumber · = true) Plain) closeBrace m where
  start := ⟨quote, _, rfl, rfl, by decide⟩
  read := by
    intro rest hrest r
    rcases m with ⟨name, v⟩
    have hskip : skipSpace (colon :: 32 :: (write encoder indent v ++ rest)) =
        colon :: 32 :: (write encoder indent v ++ rest) := skipSpace_cons rfl _
    have hvalue : skipSpace (32 :: (write encoder indent v ++ rest)) =
        write encoder indent v ++ rest := by
      obtain ⟨c, behind, hwrite, hc, -⟩ := write_start encoder indent v hm
      rw [← List.singleton_append, skipSpace_append (by decide), hwrite]
      exact skipSpace_cons hc _
    have htext : writeMember encoder indent (name, v) ++ rest =
        quoted name ++ colon :: 32 :: (write encoder indent v ++ rest) := by simp [writeMember]
    rw [htext, member, Option.bind_eq_some_iff]
    constructor
    · rintro ⟨⟨key, behind⟩, hkey, hmore⟩
      dsimp only at hmore
      split at hmore
      · cases hmore
      · rename_i c behind' hbehind
        split at hmore
        · obtain ⟨⟨v', rest'⟩, hv, heq⟩ := Option.map_eq_some_iff.mp hmore
          cases heq
          obtain ⟨hplain, rfl⟩ := (string?_quoted_iff _ _ _).mp hkey
          rw [hskip] at hbehind
          cases hbehind
          rw [hvalue] at hv
          obtain ⟨hall, hr⟩ := (h rest hrest _).mp hv
          exact ⟨⟨hplain, hall⟩, hr⟩
        · cases hmore
    · rintro ⟨⟨hplain, hall⟩, hr⟩
      refine ⟨(name, _), string?_quoted hplain _, ?_⟩
      have hread := (h rest hrest r).mpr ⟨hall, hr⟩
      simp [hskip, hvalue, hread]

theorem readBack_literal {literal : Bytes} {v : Json} {ok : Prop} (hliteral : Numeral literal)
    (hv : scalarOf literal = some v ↔ ok) {depth : Nat} (hdepth : literal.length ≤ depth)
    {rest : Bytes} (hrest : Delimited rest) (r : Bytes) :
    value depth (literal ++ rest) = some (v, r) ↔ ok ∧ r = rest := by
  obtain ⟨depth, rfl⟩ : ∃ d, depth = d + 1 := by
    have hpos := List.length_pos_of_ne_nil hliteral.1
    exact ⟨depth - 1, by omega⟩
  rw [value_literal hliteral hrest, ← hv, Option.map_eq_some_iff]
  constructor
  · intro ⟨v', hv', heq⟩
    cases heq
    exact ⟨hv', rfl⟩
  · intro ⟨hv', hr⟩
    exact ⟨v, hv', by rw [hr]⟩

theorem length_text_le_listed {β : Type*} {space : Bytes} {text : β → Bytes} {bs : List β} {b : β}
    (hb : b ∈ bs) : (text b).length ≤ (listed space text bs).length := by
  induction bs with
  | nil => nomatch hb
  | cons b' bs ih =>
      cases bs with
      | nil =>
          rw [List.mem_singleton] at hb
          rw [hb, listed_singleton, List.length_append]
          omega
      | cons b'' bs =>
          rw [listed_cons_cons, List.length_append, List.length_append, List.length_cons]
          cases List.mem_cons.mp hb with
          | inl heq => rw [heq]; omega
          | inr hmem => exact (ih hmem).trans (by omega)

theorem map_some_iff {α β : Type*} {f : α → β} (hf : Function.Injective f) {x : Option (α × Bytes)}
    {a : α} {r : Bytes} : x.map (fun (a, text) => (f a, text)) = some (f a, r) ↔ x = some (a, r) := by
  cases x with
  | none => simp
  | some y =>
      constructor
      · intro h
        cases y
        simp only [Option.map_some, Option.some.injEq, Prod.mk.injEq] at h
        rw [hf h.1, h.2]
      · intro h
        cases h
        rfl

/-- The members of an object may be indented otherwise than its closing brace. -/
theorem value_members_iff {members : List (Bytes × Json)} {inner depth : Nat}
    (hall : ∀ m ∈ members, m.2.All Numeral fun _ => True)
    (hread : ∀ m ∈ members, ReadBack encoder depth inner m.2) (outer : Nat) (rest r : Bytes) :
    value (depth + 1) (openBrace :: (listed (newline inner) (writeMember encoder inner) members ++
        (newline outer ++ closeBrace :: rest))) = some (object members, r) ↔
      (object members).All (isNumber · = true) Plain ∧ r = rest := by
  have henclosed := enclosed_listed_iff
    (fun m hm => decides_member encoder (hall m hm) (hread m hm)) (isSpace_newline inner)
    (isSpace_newline outer) rfl rfl (by decide) rest r
  rw [List.map_id] at henclosed
  rw [all_object, value, if_neg (by decide), if_pos rfl, map_some_iff fun _ _ => object.inj]
  exact henclosed

theorem length_value_le {members : List (Bytes × Json)} {m : Bytes × Json} (hm : m ∈ members)
    (indent : Nat) : (write encoder indent m.2).length ≤
      (listed (newline indent) (writeMember encoder indent) members).length := by
  have hle : (writeMember encoder indent m).length ≤
      (listed (newline indent) (writeMember encoder indent) members).length :=
    length_text_le_listed hm
  have hvalue : (write encoder indent m.2).length ≤ (writeMember encoder indent m).length := by
    simp only [writeMember, List.length_append, List.length_cons]
    omega
  exact hvalue.trans hle

/-- Exactly the well written values are read back, at any depth not below the length. -/
theorem value_write_iff (v : Json) (hv : v.All Numeral fun _ => True) (indent depth : Nat)
    (hdepth : (write encoder indent v).length ≤ depth) : ReadBack encoder depth indent v := by
  intro rest hrest r
  induction v using induct generalizing indent depth rest r with
  | hnull =>
      rw [write] at hdepth ⊢
      exact readBack_literal (by constructor <;> decide) (by simp [All, scalarOf]) hdepth hrest r
  | hbool b =>
      cases b with
      | true =>
          rw [write] at hdepth ⊢
          exact readBack_literal (by constructor <;> decide) (by simp [All, scalarOf]) hdepth hrest r
      | false =>
          rw [write] at hdepth ⊢
          exact readBack_literal (by constructor <;> decide) (by simp [All, scalarOf]) hdepth hrest r
  | hnumber literal =>
      rw [write] at hdepth ⊢
      rw [All] at hv ⊢
      exact readBack_literal hv (scalarOf_number_iff literal) hdepth hrest r
  | hstring s =>
      have hread := encoder.read s rest
      obtain ⟨behind, hencode⟩ := encode_start encoder s
      rw [write] at hdepth ⊢
      rw [hencode] at hdepth hread ⊢
      obtain ⟨depth, rfl⟩ : ∃ d, depth = d + 1 := ⟨depth - 1, by simp at hdepth; omega⟩
      rw [List.cons_append] at hread ⊢
      rw [value, if_neg (by decide), if_neg (by decide), if_pos rfl, hread]
      simp [All, eq_comm]
  | harray elements ih =>
      have htext := write_array encoder indent elements []
      rw [List.append_nil] at htext
      rw [htext, List.length_cons, List.length_append] at hdepth
      obtain ⟨depth, rfl⟩ : ∃ d, depth = d + 1 := ⟨depth - 1, by omega⟩
      have hall := (all_array elements).mp hv
      have hitems : ∀ v ∈ elements, Decides (value depth) (write encoder (indent + 1)) id
          (fun v => v.All (isNumber · = true) Plain) closeBracket v := by
        intro v hmem
        apply decides_element encoder (hall v hmem)
        intro rest hrest r
        have hle : (write encoder (indent + 1) v).length ≤
            (listed [] (write encoder (indent + 1)) elements).length := length_text_le_listed hmem
        exact ih v hmem (hall v hmem) (indent + 1) depth (by omega) rest hrest r
      have hspace : ∀ c ∈ ([] : Bytes), isSpace c = true := fun c hc => absurd hc List.not_mem_nil
      have henclosed := enclosed_listed_iff hitems hspace (isSpace_newline indent) rfl rfl
        (by decide) rest r
      rw [List.map_id] at henclosed
      rw [write_array, all_array, value, if_pos rfl, map_some_iff fun _ _ => array.inj]
      exact henclosed
  | hobject members ih =>
      have htext := write_object encoder indent members []
      rw [List.append_nil] at htext
      rw [htext, List.length_cons, List.length_append] at hdepth
      obtain ⟨depth, rfl⟩ : ∃ d, depth = d + 1 := ⟨depth - 1, by omega⟩
      have hall := (all_object members).mp hv
      rw [write_object]
      apply value_members_iff encoder fun m hmem => (hall m hmem).2
      intro m hmem rest hrest r
      have hle := length_value_le encoder hmem (indent + 1)
      exact ih m hmem (hall m hmem).2 (indent + 1) depth (by omega) rest hrest r

/-- A text of one object, with its members as far to the left as its braces. -/
def writeText (members : List (Bytes × Json)) : Bytes :=
  openBrace :: (listed (newline 0) (writeMember encoder 0) members ++ (newline 0 ++ [closeBrace, 10]))

theorem parse_writeText_iff (members : List (Bytes × Json))
    (hmembers : (object members).All Numeral fun _ => True) :
    parse (writeText encoder members) = some (object members) ↔
      (object members).All (isNumber · = true) Plain := by
  have hall := (all_object members).mp hmembers
  have hread : ∀ m ∈ members, ReadBack encoder (writeText encoder members).length 0 m.2 := by
    intro m hm
    apply value_write_iff encoder m.2 (hall m hm).2
    have hle := length_value_le encoder hm 0
    rw [writeText, List.length_cons, List.length_append]
    omega
  have hiff := value_members_iff encoder (fun m hm => (hall m hm).2) hread 0 [10]
  have hskip : skipSpace (writeText encoder members) = writeText encoder members := skipSpace_cons rfl _
  rw [parse, hskip, Option.bind_eq_some_iff]
  constructor
  · intro ⟨⟨v, r⟩, hv, hend⟩
    dsimp only at hend
    split at hend
    · cases hend
      exact ((hiff r).mp hv).1
    · nomatch hend
  · intro hlegal
    exact ⟨(object members, [10]), (hiff [10]).mpr ⟨hlegal, rfl⟩, rfl⟩

/-! ### Moving a text to the right -/

/-- Every line break is followed by more tabs. -/
def reindent (tabs : Nat) (text : Bytes) : Bytes :=
  text.flatMap fun c => if c = 10 then newline tabs else [c]

theorem reindent_append (tabs : Nat) (text text' : Bytes) :
    reindent tabs (text ++ text') = reindent tabs text ++ reindent tabs text' :=
  List.flatMap_append

theorem reindent_cons {c : UInt8} (hc : c ≠ 10) (tabs : Nat) (text : Bytes) :
    reindent tabs (c :: text) = c :: reindent tabs text := by
  rw [reindent, List.flatMap_cons, if_neg hc]
  rfl

theorem reindent_line (tabs : Nat) {text : Bytes}
    (htext : 10 ∉ text) : reindent tabs text = text := by
  induction text with
  | nil => rfl
  | cons c text ih =>
      rw [reindent_cons (fun heq => htext (heq ▸ List.mem_cons_self)),
        ih fun hmem => htext (List.mem_cons_of_mem c hmem)]

theorem reindent_newline (tabs indent : Nat) :
    reindent tabs (newline indent) = newline (tabs + indent) := by
  have hline : 10 ∉ List.replicate indent (9 : UInt8) := by
    intro hmem
    exact absurd (List.eq_of_mem_replicate hmem) (by decide)
  have htabs := reindent_line tabs hline
  rw [newline, ← List.singleton_append, reindent_append, htabs]
  show newline tabs ++ [] ++ _ = _
  rw [newline, newline, List.append_nil, List.cons_append, List.replicate_append_replicate]

theorem reindent_intercalate (tabs : Nat) (pieces : List Bytes) :
    reindent tabs (List.intercalate [comma] pieces) =
      List.intercalate [comma] (pieces.map (reindent tabs)) := by
  cases pieces with
  | nil => rfl
  | cons piece pieces =>
      rw [List.map_cons, intercalate_cons, intercalate_cons, reindent_append]
      congr 1
      induction pieces with
      | nil => rfl
      | cons piece' pieces ih =>
          rw [List.flatMap_cons, reindent_append, ih, reindent_cons (by decide), List.map_cons,
            List.flatMap_cons]

/-- A moved text is the text of the same value written further to the right. -/
theorem reindent_write (tabs : Nat) (v : Json) (hv : v.All (10 ∉ ·) (10 ∉ ·)) (indent : Nat) :
    reindent tabs (write encoder indent v) = write encoder (tabs + indent) v := by
  induction v using induct generalizing indent with
  | hnull =>
      rw [write, write]
      exact reindent_line tabs (by decide)
  | hbool b =>
      cases b with
      | true =>
          rw [write, write]
          exact reindent_line tabs (by decide)
      | false =>
          rw [write, write]
          exact reindent_line tabs (by decide)
  | hnumber literal =>
      rw [write, write]
      exact reindent_line tabs hv
  | hstring s =>
      rw [write, write]
      exact reindent_line tabs (encoder.noBreak s)
  | harray elements ih =>
      have hall := (all_array elements).mp hv
      have hpieces : (elements.map (write encoder (indent + 1))).map (reindent tabs) =
          elements.map (write encoder (tabs + indent + 1)) := by
        rw [List.map_map]
        apply List.map_congr_left
        intro v hmem
        exact ih v hmem (hall v hmem) (indent + 1)
      rw [write, write, writeElements_eq, writeElements_eq, reindent_cons (by decide),
        reindent_append, reindent_intercalate, hpieces, reindent_append, reindent_newline]
      rfl
  | hobject members ih =>
      have hall := (all_object members).mp hv
      have hpieces : (members.map fun m => newline (indent + 1) ++ writeMember encoder (indent + 1) m).map
          (reindent tabs) =
          members.map fun m => newline (tabs + indent + 1) ++ writeMember encoder (tabs + indent + 1) m := by
        rw [List.map_map]
        apply List.map_congr_left
        intro m hmem
        obtain ⟨hname, hvalue⟩ := hall m hmem
        have hquoted : 10 ∉ Json.quoted m.1 := by simp [quoted, hname, (by decide : (10 : UInt8) ≠ quote)]
        rw [Function.comp_apply, writeMember, reindent_append, reindent_newline, reindent_append,
          reindent_line tabs hquoted, reindent_cons (by decide), reindent_cons (by decide),
          ih m hmem hvalue]
        rfl
      rw [write, write, writeMembers_eq, writeMembers_eq, reindent_cons (by decide),
        reindent_append, reindent_intercalate, hpieces, reindent_append, reindent_newline]
      rfl

end Write

end Json
