import StrusWebService.Client.Serialization
import StrusWebService.Library.Json.Literals

/-! # Serialized results are read back

The text written for the tokens of a tree is accepted and decodes to the tree, with
any reading of string literals that gives the encoded strings of the tree back. One
is the inverse of `jsonEncodeValue`, which gives all strings back. That of RFC 8259
is another; it gives back the strings without control characters, except for the
five that are encoded.
-/

namespace StrusWebService.Client

open Json (quote backslash comma openBracket closeBracket openBrace closeBrace quoted skipSpace
  isSpace valueWith memberWith items parseWith Reader)
open Text (colon)

/-! ### String literals -/

/-- What the letter behind a backslash stands for. -/
def jsonDecodeLetter (c : UInt8) : Option UInt8 :=
  if c = 98 then some 8
  else if c = 102 then some 12
  else if c = 110 then some 10
  else if c = 114 then some 13
  else if c = 116 then some 9
  else if c = quote then some quote
  else if c = backslash then some backslash
  else none

/-- The characters of a string up to its closing quote, each as it is encoded. -/
def encodedCharacters : Reader Bytes
  | [] => none
  | c :: text =>
      if c = quote then some ([], text)
      else if c = backslash then
        match text with
        | [] => none
        | d :: text =>
            (jsonDecodeLetter d).bind fun e =>
              (encodedCharacters text).map fun (s, text) => (e :: s, text)
      else if (jsonEncodeValueMap c).isSome then none
      else (encodedCharacters text).map fun (s, text) => (c :: s, text)

/-- A literal denotes the string whose encoding stands between its quotes. -/
def literal : Reader Bytes
  | [] => none
  | c :: text => if c = quote then encodedCharacters text else none

/-- The bytes that are encoded, and the letters for them. -/
theorem jsonEncodeValueMap_eq_some {c : UInt8} {entity : Bytes} :
    jsonEncodeValueMap c = some entity ↔
      ∃ d, entity = [backslash, d] ∧ jsonDecodeLetter d = some c := by
  constructor
  · intro h
    unfold jsonEncodeValueMap at h
    split_ifs at h with h₁ h₂ h₃ h₄ h₅ h₆ h₇
    all_goals
      obtain rfl := Option.some.inj h
      subst c
      exact ⟨_, rfl, rfl⟩
  · intro ⟨d, hentity, hd⟩
    unfold jsonDecodeLetter at hd
    split_ifs at hd with h₁ h₂ h₃ h₄ h₅ h₆ h₇
    all_goals
      obtain rfl := Option.some.inj hd
      subst d
      rw [hentity]
      rfl

theorem encodedCharacters_quote (text : Bytes) :
    encodedCharacters (quote :: text) = some ([], text) := by
  rw [encodedCharacters.eq_def]
  exact if_pos rfl

theorem encodedCharacters_backslash (d : UInt8) (text : Bytes) :
    encodedCharacters (backslash :: d :: text) =
      (jsonDecodeLetter d).bind fun e =>
        (encodedCharacters text).map fun (s, text) => (e :: s, text) := by
  rw [encodedCharacters.eq_def]
  exact (if_neg (by decide)).trans (if_pos rfl)

theorem ne_of_plain {c : UInt8} (hc : jsonEncodeValueMap c = none) : c ≠ quote ∧ c ≠ backslash := by
  constructor
  · intro h
    rw [h] at hc
    exact absurd hc (by decide)
  · intro h
    rw [h] at hc
    exact absurd hc (by decide)

theorem encodedCharacters_plain {c : UInt8} (hc : jsonEncodeValueMap c = none) (text : Bytes) :
    encodedCharacters (c :: text) = (encodedCharacters text).map fun (s, text) => (c :: s, text) := by
  obtain ⟨hquote, hback⟩ := ne_of_plain hc
  rw [encodedCharacters.eq_def]
  dsimp only
  rw [if_neg hquote, if_neg hback, if_neg (by simp [hc])]

theorem jsonEncodeValue_cons (c : UInt8) (s : Bytes) :
    jsonEncodeValue (c :: s) = (jsonEncodeValueMap c).getD [c] ++ jsonEncodeValue s :=
  List.flatMap_cons

theorem encodedCharacters_encode (s rest : Bytes) :
    encodedCharacters (jsonEncodeValue s ++ quote :: rest) = some (s, rest) := by
  induction s with
  | nil => exact encodedCharacters_quote rest
  | cons c s ih =>
      rw [jsonEncodeValue_cons, List.append_assoc]
      cases hmap : jsonEncodeValueMap c with
      | some entity =>
          obtain ⟨d, rfl, hd⟩ := jsonEncodeValueMap_eq_some.mp hmap
          show encodedCharacters (backslash :: d :: (jsonEncodeValue s ++ quote :: rest)) = _
          rw [encodedCharacters_backslash, hd, ih]
          rfl
      | none =>
          show encodedCharacters (c :: (jsonEncodeValue s ++ quote :: rest)) = _
          rw [encodedCharacters_plain hmap, ih]
          rfl

/-- Nothing but the encoding of a string is accepted. -/
theorem encodedCharacters_eq_some (text : Bytes) {s rest : Bytes}
    (h : encodedCharacters text = some (s, rest)) : text = jsonEncodeValue s ++ quote :: rest := by
  match text with
  | [] => nomatch h
  | c :: text =>
      by_cases hquote : c = quote
      · rw [hquote, encodedCharacters_quote] at h
        cases h
        rw [hquote]
        rfl
      · by_cases hback : c = backslash
        · match text with
          | [] =>
              rw [hback] at h
              nomatch h
          | d :: text =>
              rw [hback, encodedCharacters_backslash] at h
              obtain ⟨e, he, htail⟩ := Option.bind_eq_some_iff.mp h
              obtain ⟨⟨s', rest'⟩, hs', heq⟩ := Option.map_eq_some_iff.mp htail
              cases heq
              have ih := encodedCharacters_eq_some text hs'
              have hmap := jsonEncodeValueMap_eq_some.mpr ⟨d, rfl, he⟩
              rw [jsonEncodeValue_cons, hmap, hback, ih]
              rfl
        · cases hmap : jsonEncodeValueMap c with
          | some entity =>
              rw [encodedCharacters.eq_def] at h
              simp [hquote, hback, hmap] at h
          | none =>
              rw [encodedCharacters_plain hmap] at h
              obtain ⟨⟨s', rest'⟩, hs', heq⟩ := Option.map_eq_some_iff.mp h
              cases heq
              have ih := encodedCharacters_eq_some text hs'
              rw [jsonEncodeValue_cons, hmap, ih]
              rfl

/-- Exactly the encoded strings between quotes are literals. -/
theorem literal_iff (text s rest : Bytes) :
    literal text = some (s, rest) ↔ text = quoted (jsonEncodeValue s) ++ rest := by
  constructor
  · intro h
    match text with
    | [] => nomatch h
    | c :: text =>
        rw [literal, Option.ite_none_right_eq_some] at h
        rcases h with ⟨rfl, hs⟩
        rw [encodedCharacters_eq_some text hs, quoted]
        simp
  · intro h
    rw [h, quoted, List.cons_append, literal, if_pos rfl, List.append_assoc]
    exact encodedCharacters_encode s rest

/-! ### Trees -/

mutual

/-- All names and strings of a tree. -/
def Members.All (p : Bytes → Prop) : Members → Prop
  | .nil => True
  | .member name value rest => p name ∧ value.All p ∧ rest.All p

def Value.All (p : Bytes → Prop) : Value → Prop
  | .string s => p s
  | .object members => members.All p
  | .array first rest => first.All p ∧ rest.All p

def Elements.All (p : Bytes → Prop) : Elements → Prop
  | .nil => True
  | .element first rest => first.All p ∧ rest.All p

def Element.All (p : Bytes → Prop) : Element → Prop
  | .string s => p s
  | .object members => members.All p

end

section Read

variable {string : Reader Bytes} {p : Bytes → Prop} {s indent behind rest : Bytes} {depth fuel : Nat}

/-- The encoded strings that meet `p` are read back. -/
def ReadsBack (string : Reader Bytes) (p : Bytes → Prop) : Prop :=
  ∀ s, p s → ∀ rest, string (quoted (jsonEncodeValue s) ++ rest) = some (s, rest)

theorem skipSpace_quoted (k rest : Bytes) : skipSpace (quoted k ++ rest) = quoted k ++ rest :=
  Json.skipSpace_cons (by decide) _

theorem valueWith_quoted (reads : ReadsBack string p) (hs : p s) (rest : Bytes) :
    valueWith string (depth + 1) (quoted (jsonEncodeValue s) ++ rest) =
      some (.string s, rest) := by
  have hread := reads s hs rest
  rw [quoted, List.cons_append] at hread ⊢
  rw [valueWith, if_neg (by decide), if_neg (by decide), if_pos rfl, hread]
  rfl

theorem memberWith_quoted (reads : ReadsBack string p) (hs : p s) {value : Reader Json}
    {text : Bytes} {v : Json} (hvalue : value (skipSpace (text ++ rest)) = some (v, rest)) :
    memberWith string value (quoted (jsonEncodeValue s) ++ colon :: (text ++ rest)) =
      some ((s, v), rest) := by
  have hcolon : skipSpace (colon :: (text ++ rest)) = colon :: (text ++ rest) :=
    Json.skipSpace_cons (by decide) _
  rw [memberWith, reads s hs]
  simp [hcolon, hvalue]

theorem deeper_spaces (hspace : ∀ c ∈ indent, isSpace c = true) :
    ∀ c ∈ indent ++ [32, 32], isSpace c = true := by
  intro c hc
  cases List.mem_append.mp hc with
  | inl hc => exact hspace c hc
  | inr hc =>
      rw [show c = 32 by simpa using hc]
      rfl

/-- The text of a first member starts with its name. -/
theorem skipSpace_members (hspace : ∀ c ∈ indent, isSpace c = true) (name : Bytes) (value : Value)
    (ms : Members) (behind : Bytes) :
    skipSpace ((Members.member name value ms).text indent ++ behind) =
      quoted (jsonEncodeValue name) ++ colon ::
        (value.text indent ++ (ms.comma ++ (ms.text indent ++ behind))) := by
  rw [Members.text]
  simp only [List.append_assoc, List.cons_append]
  rw [Json.skipSpace_append hspace, skipSpace_quoted]

/-- The text of an element starts with a quote or a brace. -/
theorem skipSpace_element (hspace : ∀ c ∈ indent, isSpace c = true) (e : Element)
    (behind : Bytes) :
    (skipSpace (e.text indent ++ behind)).head? ≠ some closeBracket := by
  cases e with
  | string s =>
      rw [Element.text, skipSpace_quoted]
      exact fun h => by cases h
  | object members =>
      rw [Element.text, List.append_assoc, Json.skipSpace_append hspace, List.cons_append,
        Json.skipSpace_cons (by decide)]
      exact fun h => by cases h

theorem enclosed_members (hspace : ∀ c ∈ indent, isSpace c = true) {ms : Members}
    {item : Reader (Bytes × Json)} (hbehind : skipSpace behind = closeBrace :: rest)
    (hitems : ms.comma ≠ [] → ∀ fuel, (ms.text indent).length ≤ fuel →
      items item closeBrace fuel (skipSpace (ms.text indent ++ behind)) = some (ms.toJson, rest)) :
    Json.enclosed item closeBrace (ms.text indent ++ behind) = some (ms.toJson, rest) := by
  cases ms with
  | nil =>
      rw [Members.text, Members.toJson]
      exact Json.enclosed_nil hbehind
  | member name value more =>
      apply Json.enclosed_items
      · rw [skipSpace_members hspace]
        exact fun h => by cases h
      · apply hitems (by simp [Members.comma])
        rw [List.length_append]
        omega

theorem valueWith_object {ms : Members} {text : Bytes}
    (h : Json.enclosed (memberWith string (valueWith string depth)) closeBrace text =
      some (ms.toJson, rest)) :
    valueWith string (depth + 1) (openBrace :: text) = some (.object ms.toJson, rest) := by
  rw [valueWith, if_neg (by decide), if_pos rfl, h]
  rfl

theorem valueWith_array {vs : List Json} {text : Bytes}
    (h : Json.enclosed (valueWith string depth) closeBracket text = some (vs, rest)) :
    valueWith string (depth + 1) (openBracket :: text) = some (.array vs, rest) := by
  rw [valueWith, if_pos rfl, h]
  rfl

theorem skipSpace_close {c : UInt8} (hc : isSpace c = false) :
    skipSpace (c :: rest) = c :: rest :=
  Json.skipSpace_cons hc rest

mutual

/-- The text of a value is read back at any depth not below its length. -/
theorem Value.read (reads : ReadsBack string p) (v : Value) (indent : Bytes)
    (hspace : ∀ c ∈ indent, isSpace c = true) (hall : v.All p) (depth : Nat)
    (hdepth : (v.text indent).length ≤ depth) (rest : Bytes) :
    valueWith string depth (skipSpace (v.text indent ++ rest)) = some (v.toJson, rest) := by
  cases v with
  | string s =>
      rw [Value.All] at hall
      obtain ⟨depth, rfl⟩ : ∃ d, depth = d + 1 := by
        rw [Value.text] at hdepth
        simp [quoted] at hdepth
        exact ⟨depth - 1, by omega⟩
      rw [Value.text, skipSpace_quoted, valueWith_quoted reads hall, Value.toJson]
  | object members =>
      rw [Value.All] at hall
      rw [Value.text] at hdepth
      simp only [List.length_cons, List.length_append, List.length_nil] at hdepth
      obtain ⟨depth, rfl⟩ : ∃ d, depth = d + 1 := ⟨depth - 1, by omega⟩
      rw [Value.text, Value.toJson]
      show valueWith string (depth + 1) (openBrace ::
        ((members.text (indent ++ [32, 32]) ++ [closeBrace]) ++ rest)) = _
      rw [List.append_assoc, List.singleton_append]
      apply valueWith_object
      apply enclosed_members (deeper_spaces hspace) (skipSpace_close (by decide))
      intro hne fuel hfuel
      exact Members.read reads members _ (deeper_spaces hspace) hall depth (by omega) fuel hfuel
        hne (skipSpace_close (by decide))
  | array first more =>
      rw [Value.All] at hall
      rw [Value.text] at hdepth
      simp only [List.length_cons, List.length_append, List.length_nil] at hdepth
      obtain ⟨depth, rfl⟩ : ∃ d, depth = d + 1 := ⟨depth - 1, by omega⟩
      rw [Value.text, Value.toJson]
      show valueWith string (depth + 1) (openBracket ::
        ((first.text (indent ++ [32, 32]) ++ more.comma ++ more.text (indent ++ [32, 32]) ++
          [closeBracket]) ++ rest)) = _
      simp only [List.append_assoc, List.singleton_append]
      apply valueWith_array
      apply Json.enclosed_items (skipSpace_element (deeper_spaces hspace) first _)
      have hfirst := Element.read reads first _ (deeper_spaces hspace) hall.1 depth (by omega)
        (more.comma ++ (more.text (indent ++ [32, 32]) ++ closeBracket :: rest))
      apply Elements.read reads more _ (deeper_spaces hspace) hall.2 depth (by omega) _ _ hfirst
      · exact skipSpace_close (by decide)
      · simp only [List.length_append]
        omega

theorem Members.read (reads : ReadsBack string p) (ms : Members) (indent : Bytes)
    (hspace : ∀ c ∈ indent, isSpace c = true) (hall : ms.All p) (depth : Nat)
    (hdepth : (ms.text indent).length ≤ depth) (fuel : Nat)
    (hfuel : (ms.text indent).length ≤ fuel) (hne : ms.comma ≠ []) {behind rest : Bytes}
    (hbehind : skipSpace behind = closeBrace :: rest) :
    items (memberWith string (valueWith string depth)) closeBrace fuel
      (skipSpace (ms.text indent ++ behind)) = some (ms.toJson, rest) := by
  cases ms with
  | nil => exact absurd rfl hne
  | member name value more =>
      rw [Members.All] at hall
      rw [Members.text] at hdepth hfuel
      simp only [List.length_cons, List.length_append] at hdepth hfuel
      obtain ⟨fuel, rfl⟩ : ∃ f, fuel = f + 1 := ⟨fuel - 1, by omega⟩
      rw [skipSpace_members hspace, Members.toJson]
      have hvalue := Value.read reads value indent hspace hall.2.1 depth (by omega)
        (more.comma ++ (more.text indent ++ behind))
      have hmember := memberWith_quoted reads hall.1 hvalue
      cases more with
      | nil =>
          rw [Members.toJson]
          exact Json.items_last hmember hbehind
      | member name' value' more =>
          apply Json.items_more (by decide) hmember
          exact Members.read reads (.member name' value' more) indent hspace hall.2.2 depth
            (by omega) fuel (by omega) (by simp [Members.comma]) hbehind

/-- What stands behind an element that was read. -/
theorem Elements.read (reads : ReadsBack string p) (es : Elements) (indent : Bytes)
    (hspace : ∀ c ∈ indent, isSpace c = true) (hall : es.All p) (depth : Nat)
    (hdepth : (es.text indent).length ≤ depth) (fuel : Nat) (text : Bytes) {v : Json}
    {behind rest : Bytes}
    (hfirst : valueWith string depth text = some (v, es.comma ++ (es.text indent ++ behind)))
    (hbehind : skipSpace behind = closeBracket :: rest) (hfuel : (es.text indent).length ≤ fuel) :
    items (valueWith string depth) closeBracket (fuel + 1) text = some (v :: es.toJson, rest) := by
  cases es with
  | nil =>
      rw [Elements.toJson]
      exact Json.items_last hfirst hbehind
  | element first more =>
      rw [Elements.All] at hall
      rw [Elements.text] at hdepth hfuel
      simp only [List.length_append] at hdepth hfuel
      have hpos : 0 < (first.text indent).length := by
        cases first <;> rw [Element.text] <;> simp [quoted]
      obtain ⟨fuel, rfl⟩ : ∃ f, fuel = f + 1 := ⟨fuel - 1, by omega⟩
      rw [Elements.toJson]
      apply Json.items_more (by decide) hfirst
      rw [Elements.text, List.append_assoc, List.append_assoc]
      have hnext := Element.read reads first indent hspace hall.1 depth (by omega)
        (more.comma ++ (more.text indent ++ behind))
      exact Elements.read reads more indent hspace hall.2 depth (by omega) fuel _ hnext hbehind
        (by omega)

theorem Element.read (reads : ReadsBack string p) (e : Element) (indent : Bytes)
    (hspace : ∀ c ∈ indent, isSpace c = true) (hall : e.All p) (depth : Nat)
    (hdepth : (e.text indent).length ≤ depth) (rest : Bytes) :
    valueWith string depth (skipSpace (e.text indent ++ rest)) = some (e.toJson, rest) := by
  cases e with
  | string s =>
      rw [Element.All] at hall
      obtain ⟨depth, rfl⟩ : ∃ d, depth = d + 1 := by
        rw [Element.text] at hdepth
        simp [quoted] at hdepth
        exact ⟨depth - 1, by omega⟩
      rw [Element.text, skipSpace_quoted, valueWith_quoted reads hall, Element.toJson]
  | object members =>
      rw [Element.All] at hall
      rw [Element.text] at hdepth
      simp only [List.length_cons, List.length_append, List.length_nil] at hdepth
      obtain ⟨depth, rfl⟩ : ∃ d, depth = d + 1 := ⟨depth - 1, by omega⟩
      rw [Element.text, Element.toJson, List.append_assoc, Json.skipSpace_append hspace,
        List.cons_append, skipSpace_close (by decide), List.append_assoc, List.singleton_append]
      apply valueWith_object
      apply enclosed_members (deeper_spaces hspace) (skipSpace_close (by decide))
      intro hne fuel hfuel
      exact Members.read reads members _ (deeper_spaces hspace) hall depth (by omega) fuel hfuel
        hne (skipSpace_close (by decide))

end

/-- The whole text is read back. -/
theorem parseWith_tokens (reads : ReadsBack string p) (ms : Members) (hall : ms.All p) :
    (serializationToJson ms.tokens).bind (parseWith string) = some (.object ms.toJson) := by
  have hspace : ∀ c ∈ ([10] : Bytes), isSpace c = true := by decide
  have hclose : skipSpace [10, closeBrace, 10] = [closeBrace, 10] := rfl
  rw [serializationToJson_tokens, Option.bind_some, parseWith, skipSpace_close (by decide)]
  have hvalue : valueWith string
      ((openBrace :: (ms.text [10] ++ [10, closeBrace, 10])).length + 1)
      (openBrace :: (ms.text [10] ++ [10, closeBrace, 10])) = some (.object ms.toJson, [10]) := by
    apply valueWith_object
    apply enclosed_members hspace hclose
    intro hne fuel hfuel
    apply Members.read reads ms _ hspace hall _ _ fuel hfuel hne hclose
    simp only [List.length_cons, List.length_append]
    omega
  rw [hvalue]
  rfl

end Read

mutual

theorem Members.all_true (ms : Members) : ms.All fun _ => True := by
  cases ms with
  | nil => exact trivial
  | member name value rest => exact ⟨trivial, Value.all_true value, Members.all_true rest⟩

theorem Value.all_true (v : Value) : v.All fun _ => True := by
  cases v with
  | string s => exact trivial
  | object members => exact Members.all_true members
  | array first rest => exact ⟨Element.all_true first, Elements.all_true rest⟩

theorem Elements.all_true (es : Elements) : es.All fun _ => True := by
  cases es with
  | nil => exact trivial
  | element first rest => exact ⟨Element.all_true first, Elements.all_true rest⟩

theorem Element.all_true (e : Element) : e.All fun _ => True := by
  cases e with
  | string s => exact trivial
  | object members => exact Members.all_true members

end

theorem readsBack_literal : ReadsBack literal fun _ => True :=
  fun s _ rest => (literal_iff _ s rest).mpr rfl

/-- The tokens of any tree are written as a text that is accepted and decodes to the
tree, where a literal denotes the string whose encoding it is. -/
theorem serializationToJson_decodes (ms : Members) :
    ∃ text, serializationToJson ms.tokens = some text ∧
      parseWith literal text = some (.object ms.toJson) := by
  have reads : ReadsBack literal fun _ => True := fun s _ rest => (literal_iff _ s rest).mpr rfl
  exact Option.bind_eq_some_iff.mp (parseWith_tokens reads ms ms.all_true)

/-! ### The strings of RFC 8259 -/

/-- No control characters but those that are encoded. -/
def Printable (s : Bytes) : Prop := ∀ c ∈ s, 32 ≤ c ∨ (jsonEncodeValueMap c).isSome

theorem escape_letter {c d : UInt8} (h : jsonDecodeLetter d = some c) (text : Bytes) :
    Json.escape (d :: text) = some ([c], text) := by
  unfold jsonDecodeLetter at h
  split_ifs at h with h₁ h₂ h₃ h₄ h₅ h₆ h₇
  all_goals
    obtain rfl := Option.some.inj h
    subst d
    rfl

/-- A byte that is not encoded is a character unless it is a control character. -/
theorem character_plain {c : UInt8} (hc : jsonEncodeValueMap c = none) (text : Bytes) :
    Json.character (c :: text) = if 32 ≤ c then some ([c], text) else none := by
  obtain ⟨hquote, hback⟩ := ne_of_plain hc
  rw [Json.character, if_neg hback]
  by_cases hlow : 32 ≤ c
  · rw [if_pos hlow, if_neg fun hbad => hbad.elim (UInt8.not_lt.mpr hlow) hquote]
  · rw [if_neg hlow, if_pos (Or.inl (UInt8.not_le.mp hlow))]

/-- A string between quotes is read back, up to a control character that is not encoded. -/
theorem characters_encode (s rest : Bytes) (fuel : Nat) (hfuel : s.length < fuel) :
    (Printable s → Json.characters fuel (jsonEncodeValue s ++ quote :: rest) = some (s, rest)) ∧
      (¬Printable s → Json.characters fuel (jsonEncodeValue s ++ quote :: rest) = none) := by
  induction s generalizing fuel with
  | nil =>
      obtain ⟨fuel, rfl⟩ : ∃ n, fuel = n + 1 := ⟨fuel - 1, by omega⟩
      exact ⟨fun _ => rfl, fun h => absurd (List.forall_mem_nil _) h⟩
  | cons c s ih =>
      obtain ⟨fuel, rfl⟩ : ∃ n, fuel = n + 1 := ⟨fuel - 1, by omega⟩
      have hs := ih fuel (Nat.lt_of_succ_lt_succ hfuel)
      have hcons : Printable (c :: s) ↔ (32 ≤ c ∨ (jsonEncodeValueMap c).isSome) ∧ Printable s :=
        List.forall_mem_cons
      rw [jsonEncodeValue_cons, List.append_assoc, hcons]
      cases hmap : jsonEncodeValueMap c with
      | some entity =>
          obtain ⟨d, rfl, hd⟩ := jsonEncodeValueMap_eq_some.mp hmap
          have hescape := escape_letter hd (jsonEncodeValue s ++ quote :: rest)
          have hback : backslash ≠ quote := by decide
          constructor
          · intro h
            simp [Json.characters, Json.character, hescape, hback, hs.1 h.2]
          · intro h
            have hnot : ¬Printable s := fun hprint => h ⟨Or.inr rfl, hprint⟩
            simp [Json.characters, Json.character, hescape, hback, hs.2 hnot]
      | none =>
          have hchar := character_plain hmap (jsonEncodeValue s ++ quote :: rest)
          have hquote := (ne_of_plain hmap).1
          constructor
          · intro h
            have hlow : 32 ≤ c := h.1.resolve_right (by simp)
            rw [if_pos hlow] at hchar
            simp [Json.characters, hquote, hchar, hs.1 h.2]
          · intro h
            by_cases hlow : 32 ≤ c
            · have hnot : ¬Printable s := fun hprint => h ⟨Or.inl hlow, hprint⟩
              rw [if_pos hlow] at hchar
              simp [Json.characters, hquote, hchar, hs.2 hnot]
            · rw [if_neg hlow] at hchar
              simp [Json.characters, hquote, hchar]

theorem length_le_jsonEncodeValue (s : Bytes) : s.length ≤ (jsonEncodeValue s).length := by
  induction s with
  | nil => exact Nat.le_refl 0
  | cons c s ih =>
      rw [jsonEncodeValue_cons, List.length_cons, List.length_append]
      have hpos : 1 ≤ ((jsonEncodeValueMap c).getD [c]).length := by
        cases hmap : jsonEncodeValueMap c with
        | none => exact Nat.le_refl 1
        | some entity =>
            obtain ⟨d, rfl, -⟩ := jsonEncodeValueMap_eq_some.mp hmap
            exact Nat.le_succ 1
      omega

/-- The same for the literal with its quotes. -/
theorem string_encode (s rest : Bytes) :
    (Printable s → Json.string? (quoted (jsonEncodeValue s) ++ rest) = some (s, rest)) ∧
      (¬Printable s → Json.string? (quoted (jsonEncodeValue s) ++ rest) = none) := by
  have hlength := length_le_jsonEncodeValue s
  have hread := characters_encode s rest ((jsonEncodeValue s ++ quote :: rest).length + 1)
    (by simp; omega)
  simpa [quoted, Json.string?] using hread

/-- No two strings have the same encoding. -/
theorem jsonEncodeValue_injective {s t : Bytes}
    (h : jsonEncodeValue s = jsonEncodeValue t) : s = t := by
  have hs := encodedCharacters_encode s []
  rw [h, encodedCharacters_encode t []] at hs
  exact (Prod.mk.inj (Option.some.inj hs)).1.symm

/-- A literal with the encoding of a string denotes the string exactly if it has no control
characters but those that are encoded; distinct strings have distinct encodings. -/
theorem jsonEncodeValue_decodes_iff (s : Bytes) :
    (Json.string? (quoted (jsonEncodeValue s)) = some (s, []) ↔ Printable s) ∧
      ∀ t, jsonEncodeValue s = jsonEncodeValue t → s = t := by
  have hread := string_encode s []
  rw [List.append_nil] at hread
  refine ⟨⟨?_, hread.1⟩, fun t h => jsonEncodeValue_injective h⟩
  intro hdecode
  by_contra hnot
  rw [hread.2 hnot] at hdecode
  nomatch hdecode

/-- The control character 1. -/
theorem jsonEncodeValue_control : Json.string? (quoted (jsonEncodeValue [1])) = none := by
  decide

/-- The text of a tree of printable strings is a JSON text of the tree. -/
theorem parse_tokens (ms : Members) (hall : ms.All Printable) :
    (serializationToJson ms.tokens).bind Json.parse = some (.object ms.toJson) := by
  have reads : ReadsBack Json.string? Printable := fun s hs rest => (string_encode s rest).1 hs
  have hparse : Json.parse = parseWith Json.string? := funext fun text =>
    (Json.parseWith_string? text).symm
  rw [hparse]
  exact parseWith_tokens reads ms hall

end StrusWebService.Client
