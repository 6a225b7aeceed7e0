import StrusWebService.Library.Json.Weight

/-! # Texts that are read as written

A string of plain bytes between quotes is read back, and so are arrays and objects
whose items are, whatever space stands before the items and the closing bracket.
-/

namespace Json

open Text (colon)

theorem skipSpace_append {space : Bytes} (h : ∀ c ∈ space, isSpace c = true) (text : Bytes) :
    skipSpace (space ++ text) = skipSpace text :=
  List.dropWhile_append_of_pos h

theorem skipSpace_cons {c : UInt8} (h : isSpace c = false) (text : Bytes) :
    skipSpace (c :: text) = c :: text :=
  List.dropWhile_cons_of_neg (by rw [h]; decide)

/-! ### Strings -/

theorem characters_plain {s : Bytes} (h : Plain s) (rest : Bytes) (fuel : Nat)
    (hfuel : s.length < fuel) : characters fuel (s ++ quote :: rest) = some (s, rest) := by
  induction s generalizing fuel with
  | nil =>
      obtain ⟨fuel, rfl⟩ : ∃ n, fuel = n + 1 := ⟨fuel - 1, by omega⟩
      rfl
  | cons c s ih =>
      obtain ⟨fuel, rfl⟩ : ∃ n, fuel = n + 1 := ⟨fuel - 1, by omega⟩
      obtain ⟨hlow, hquote, hback⟩ := h c List.mem_cons_self
      have hs := ih (fun d hd => h d (List.mem_cons_of_mem c hd)) fuel (Nat.lt_of_succ_lt_succ hfuel)
      have hc : character (c :: (s ++ quote :: rest)) = some ([c], s ++ quote :: rest) := by
        rw [character, if_neg hback, if_neg]
        intro hbad
        cases hbad with
        | inl hlt => exact absurd hlow (UInt8.not_le.mpr hlt)
        | inr heq => exact hquote heq
      simp [characters, hquote, hc, hs]

/-- A string as it stands in a text. -/
def quoted (s : Bytes) : Bytes := quote :: (s ++ [quote])

theorem weight_quoted (s : Bytes) : weight (quoted s) = weight s := by
  have hquote : weight [quote] = 0 := rfl
  rw [quoted, ← List.singleton_append, weight_append, weight_append, hquote]
  omega

theorem string?_quoted {s : Bytes} (h : Plain s) (rest : Bytes) :
    string? (quoted s ++ rest) = some (s, rest) := by
  have hlength : s.length < (s ++ quote :: rest).length + 1 := by
    rw [List.length_append]
    omega
  have hs := characters_plain h rest _ hlength
  simpa [quoted, string?] using hs

theorem value_quoted {s : Bytes} (h : Plain s) (depth : Nat) (rest : Bytes) :
    value (depth + 1) (quoted s ++ rest) = some (string s, rest) := by
  have hs := string?_quoted h rest
  rw [quoted, List.cons_append] at hs ⊢
  rw [value, if_neg (by decide), if_neg (by decide), if_pos rfl, hs]
  rfl

/-! ### Arrays and objects -/

theorem mem_intercalate {c : UInt8} {piece : Bytes} {pieces : List Bytes} (hpiece : piece ∈ pieces)
    (hc : c ∈ piece) : c ∈ List.intercalate [comma] pieces := by
  cases pieces with
  | nil => nomatch hpiece
  | cons first pieces =>
      rw [intercalate_cons]
      cases List.mem_cons.mp hpiece with
      | inl heq => exact List.mem_append_left _ (heq ▸ hc)
      | inr hmem =>
          apply List.mem_append_right
          exact List.mem_flatMap.mpr ⟨piece, hmem, List.mem_cons_of_mem comma hc⟩

theorem weight_intercalate (pieces : List Bytes) :
    weight (List.intercalate [comma] pieces) = weight pieces.flatten := by
  have hcomma : weight [comma] = 0 := rfl
  cases pieces with
  | nil => rfl
  | cons piece pieces =>
      rw [intercalate_cons, List.flatten_cons, weight_append, weight_append]
      congr 1
      induction pieces with
      | nil => rfl
      | cons piece' pieces ih =>
          rw [List.flatMap_cons, List.flatten_cons, weight_append, weight_append, ih,
            ← List.singleton_append, weight_append, hcomma, Nat.zero_add]

/-- What is written for items: each behind some space, with commas between them. -/
def listed {β : Type*} (space : Bytes) (text : β → Bytes) (bs : List β) : Bytes :=
  List.intercalate [comma] (bs.map fun b => space ++ text b)

section Listed

variable {α β : Type*} {item : Reader α} {text : β → Bytes} {result : β → α}
  {space tail : Bytes} {close : UInt8}

@[simp] theorem listed_nil : listed space text ([] : List β) = [] := rfl

@[simp] theorem listed_singleton (b : β) : listed space text [b] = space ++ text b := by
  simp [listed]

theorem listed_cons_cons (b b' : β) (bs : List β) :
    listed space text (b :: b' :: bs) =
      space ++ text b ++ comma :: listed space text (b' :: bs) := by
  simp [listed, List.intercalate]

/-- The reader gets the result of the item back, and the text starts with a quote. -/
structure Written (item : Reader α) (text : β → Bytes) (result : β → α) (b : β) : Prop where
  read : ∀ rest, item (text b ++ rest) = some (result b, rest)
  quoted : (text b).head? = some quote

theorem Written.skipSpace {b : β} (h : Written item text result b)
    (hspace : ∀ c ∈ space, isSpace c = true) (rest : Bytes) :
    Json.skipSpace (space ++ text b ++ rest) = text b ++ rest := by
  rw [List.append_assoc, skipSpace_append hspace]
  have hquote := h.quoted
  cases htext : text b with
  | nil =>
      rw [htext] at hquote
      nomatch hquote
  | cons c body =>
      rw [htext] at hquote
      cases hquote
      exact skipSpace_cons rfl _

theorem items_listed {bs : List β} (hbs : ∀ b ∈ bs, Written item text result b) (hne : bs ≠ [])
    (hspace : ∀ c ∈ space, isSpace c = true) (htail : ∀ c ∈ tail, isSpace c = true)
    (hclose : isSpace close = false) (hcomma : close ≠ comma) (fuel : Nat)
    (hfuel : bs.length ≤ fuel) (rest : Bytes) :
    items item close fuel (skipSpace (listed space text bs ++ (tail ++ close :: rest))) =
      some (bs.map result, rest) := by
  induction bs generalizing fuel with
  | nil => contradiction
  | cons b bs ih =>
      obtain ⟨fuel, rfl⟩ : ∃ n, fuel = n + 1 := ⟨fuel - 1, by simp at hfuel; omega⟩
      have hb := hbs b List.mem_cons_self
      cases bs with
      | nil =>
          rw [listed_singleton, hb.skipSpace hspace, items, hb.read]
          simp [skipSpace_append htail, skipSpace_cons hclose]
      | cons b' bs =>
          have hrest := ih (fun x hx => hbs x (List.mem_cons_of_mem b hx)) (List.cons_ne_nil b' bs)
            fuel (Nat.le_of_succ_le_succ hfuel)
          rw [listed_cons_cons, List.append_assoc, hb.skipSpace hspace, items, hb.read]
          simp [skipSpace_cons (by decide : isSpace comma = false), hcomma.symm, hrest]

theorem Written.ne_nil {b : β} (h : Written item text result b) : text b ≠ [] := by
  intro hnil
  have hquote := h.quoted
  rw [hnil] at hquote
  nomatch hquote

theorem length_le_length_listed (space : Bytes) {bs : List β} (hbs : ∀ b ∈ bs, text b ≠ []) :
    bs.length ≤ (listed space text bs).length := by
  induction bs with
  | nil => exact Nat.le_refl 0
  | cons b bs ih =>
      have hpos : 0 < (text b).length := List.length_pos_of_ne_nil (hbs b List.mem_cons_self)
      have hrest := ih fun x hx => hbs x (List.mem_cons_of_mem b hx)
      cases bs with
      | nil =>
          rw [listed_singleton, List.length_append, List.length_singleton]
          omega
      | cons b' bs =>
          rw [listed_cons_cons]
          simp only [List.length_append, List.length_cons] at hrest ⊢
          omega

theorem enclosed_listed {bs : List β} (hbs : ∀ b ∈ bs, Written item text result b)
    (hspace : ∀ c ∈ space, isSpace c = true) (htail : ∀ c ∈ tail, isSpace c = true)
    (hclose : isSpace close = false) (hcomma : close ≠ comma) (hquote : close ≠ quote)
    (rest : Bytes) :
    enclosed item close (listed space text bs ++ (tail ++ close :: rest)) =
      some (bs.map result, rest) := by
  cases bs with
  | nil => simp [enclosed, skipSpace_append htail, skipSpace_cons hclose]
  | cons b bs =>
      have hlength := length_le_length_listed space fun b hb => (hbs b hb).ne_nil
      have hitems := items_listed hbs (List.cons_ne_nil b bs) hspace htail hclose hcomma
        ((listed space text (b :: bs) ++ (tail ++ close :: rest)).length + 1)
        (by simp only [List.length_append]; omega) rest
      have hhead : (skipSpace (listed space text (b :: bs) ++ (tail ++ close :: rest))).head? ≠
          some close := by
        have hb := hbs b List.mem_cons_self
        have hfirst : ∃ behind, listed space text (b :: bs) ++ (tail ++ close :: rest) =
            space ++ text b ++ behind := by
          cases bs with
          | nil => exact ⟨_, by rw [listed_singleton]⟩
          | cons b' bs => exact ⟨_, by rw [listed_cons_cons, List.append_assoc]⟩
        rcases hfirst with ⟨behind, hbehind⟩
        rw [hbehind, hb.skipSpace hspace, List.head?_append, hb.quoted]
        intro heq
        exact hquote (Option.some.inj heq).symm
      rw [enclosed, if_neg hhead]
      exact hitems

theorem value_array {depth : Nat} {result : β → Json} {bs : List β}
    (hbs : ∀ b ∈ bs, Written (value depth) text result b)
    (hspace : ∀ c ∈ space, isSpace c = true) (htail : ∀ c ∈ tail, isSpace c = true)
    (rest : Bytes) :
    value (depth + 1) (openBracket :: (listed space text bs ++ (tail ++ closeBracket :: rest))) =
      some (array (bs.map result), rest) := by
  rw [value, if_pos rfl, enclosed_listed hbs hspace htail rfl (by decide) (by decide)]
  rfl

theorem value_object {depth : Nat} {result : β → Bytes × Json} {bs : List β}
    (hbs : ∀ b ∈ bs, Written (member (value depth)) text result b)
    (hspace : ∀ c ∈ space, isSpace c = true) (htail : ∀ c ∈ tail, isSpace c = true)
    (rest : Bytes) :
    value (depth + 1) (openBrace :: (listed space text bs ++ (tail ++ closeBrace :: rest))) =
      some (object (bs.map result), rest) := by
  rw [value, if_neg (by decide), if_pos rfl,
    enclosed_listed hbs hspace htail rfl (by decide) (by decide)]
  rfl

end Listed

/-- A member is written as its key, a colon and the text of its value. -/
theorem member_written {reader : Reader Json} {key valueText rest : Bytes} {v : Json}
    (hkey : Plain key) (hvalue : reader (skipSpace (valueText ++ rest)) = some (v, rest)) :
    member reader (quoted key ++ colon :: (valueText ++ rest)) = some ((key, v), rest) := by
  rw [member, string?_quoted hkey]
  simp [skipSpace_cons (by decide : isSpace colon = false), hvalue]

end Json
