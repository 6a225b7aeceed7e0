import StrusWebService.Library.Json.Layout

/-! # Texts that are read as written or rejected

Where the names of a value are plain, its text is read as this value or not at all, so
what is read tells that the value is well written. For the members of an object this
holds also under a condition on the members that have been read.
-/

namespace Json

open Text (colon)

section Determines

variable {α β : Type*} {item : Reader α} {text : β → Bytes} {result : β → α} {ok : β → Prop}
  {space tail : Bytes} {close : UInt8} {expected : α → Prop}

/-- Where the reader gets an expected item, it is the result of the one written there. -/
structure Determines (item : Reader α) (text : β → Bytes) (result : β → α) (ok : β → Prop)
    (close : UInt8) (expected : α → Prop) (b : β) : Prop where
  start : ∃ c behind, text b = c :: behind ∧ isSpace c = false ∧ c ≠ close
  read : ∀ rest, Delimited rest → ∀ a r, expected a → item (text b ++ rest) = some (a, r) →
    ok b ∧ a = result b ∧ r = rest

theorem Determines.skipSpace {b : β} (h : Determines item text result ok close expected b)
    (hspace : ∀ c ∈ space, isSpace c = true) (rest : Bytes) :
    Json.skipSpace (space ++ text b ++ rest) = text b ++ rest := by
  obtain ⟨c, behind, htext, hc, -⟩ := h.start
  rw [List.append_assoc, skipSpace_append hspace, htext]
  exact skipSpace_cons hc _

/-- What is read is not empty. -/
theorem items_ne_nil {fuel : Nat} {text r : Bytes} {as : List α}
    (h : items item close fuel text = some (as, r)) : ∃ a more, as = a :: more := by
  cases fuel with
  | zero => cases h
  | succ fuel =>
      rw [items, Option.bind_eq_some_iff] at h
      obtain ⟨⟨a, behind⟩, -, hmore⟩ := h
      dsimp only at hmore
      split at hmore
      · cases hmore
      · split at hmore
        · cases hmore
          exact ⟨a, [], rfl⟩
        · split at hmore
          · obtain ⟨⟨more, rest⟩, -, heq⟩ := Option.map_eq_some_iff.mp hmore
            cases heq
            exact ⟨a, more, rfl⟩
          · cases hmore

theorem items_listed_determined {bs : List β} {as : List α}
    (hbs : ∀ b ∈ bs, Determines item text result ok close expected b) (has : ∀ a ∈ as, expected a)
    (hne : bs ≠ []) (hspace : ∀ c ∈ space, isSpace c = true) (htail : ∀ c ∈ tail, isSpace c = true)
    (hclose : isSpace close = false) (hscalar : isScalarByte close = false) (hcomma : close ≠ comma)
    {fuel : Nat} {rest r : Bytes}
    (h : items item close fuel (Json.skipSpace (listed space text bs ++ (tail ++ close :: rest))) =
      some (as, r)) : (∀ b ∈ bs, ok b) ∧ as = bs.map result ∧ r = rest := by
  have hend : Json.skipSpace (tail ++ close :: rest) = close :: rest := by
    rw [skipSpace_append htail, skipSpace_cons hclose]
  induction bs generalizing as fuel with
  | nil => contradiction
  | cons b bs ih =>
      obtain ⟨a, more, rfl⟩ := items_ne_nil h
      obtain ⟨ha, hexpected⟩ := List.forall_mem_cons.mp has
      obtain ⟨fuel, rfl⟩ : ∃ n, fuel = n + 1 := by
        cases fuel with
        | zero => cases h
        | succ fuel => exact ⟨fuel, rfl⟩
      have hb := hbs b List.mem_cons_self
      cases bs with
      | nil =>
          rw [listed_singleton, hb.skipSpace hspace, items_cons_iff hcomma] at h
          obtain ⟨behind, hitem, hcases⟩ := h
          obtain ⟨hok, rfl, rfl⟩ := hb.read _ (delimited_append htail hscalar rest) a behind ha hitem
          rw [hend] at hcases
          cases hcases with
          | inl hlast =>
              rcases hlast with ⟨rfl, heq⟩
              exact ⟨List.forall_mem_singleton.mpr hok, rfl, (List.cons.inj heq).2.symm⟩
          | inr hmore =>
              rcases hmore with ⟨_, heq, -⟩
              exact absurd (List.cons.inj heq).1 hcomma
      | cons b' bs =>
          have hdelimited : Delimited
              (comma :: (listed space text (b' :: bs) ++ (tail ++ close :: rest))) := by
            intro c hc
            cases hc
            rfl
          have hskip : ∀ more : Bytes, Json.skipSpace (comma :: more) = comma :: more :=
            skipSpace_cons rfl
          rw [listed_cons_cons, List.append_assoc, hb.skipSpace hspace, items_cons_iff hcomma] at h
          obtain ⟨behind, hitem, hcases⟩ := h
          obtain ⟨hok, rfl, rfl⟩ := hb.read _ hdelimited a behind ha hitem
          rw [hskip] at hcases
          cases hcases with
          | inl hlast => exact absurd (List.cons.inj hlast.2).1.symm hcomma
          | inr hmore =>
              rcases hmore with ⟨text', heq, hitems⟩
              rw [← (List.cons.inj heq).2] at hitems
              obtain ⟨hall, rfl, rfl⟩ := ih (fun x hx => hbs x (List.mem_cons_of_mem b hx))
                hexpected (List.cons_ne_nil b' bs) hitems
              exact ⟨List.forall_mem_cons.mpr ⟨hok, hall⟩, rfl, rfl⟩

theorem enclosed_listed_determined {bs : List β} {as : List α}
    (hbs : ∀ b ∈ bs, Determines item text result ok close expected b) (has : ∀ a ∈ as, expected a)
    (hspace : ∀ c ∈ space, isSpace c = true) (htail : ∀ c ∈ tail, isSpace c = true)
    (hclose : isSpace close = false) (hscalar : isScalarByte close = false) (hcomma : close ≠ comma)
    {rest r : Bytes}
    (h : enclosed item close (listed space text bs ++ (tail ++ close :: rest)) = some (as, r)) :
    (∀ b ∈ bs, ok b) ∧ as = bs.map result ∧ r = rest := by
  cases bs with
  | nil =>
      have hskip : Json.skipSpace (tail ++ close :: rest) = close :: rest := by
        rw [skipSpace_append htail, skipSpace_cons hclose]
      rw [listed_nil, List.nil_append, enclosed, hskip, List.head?_cons, if_pos rfl] at h
      cases h
      exact ⟨fun b hb => absurd hb List.not_mem_nil, rfl, rfl⟩
  | cons b bs =>
      have hb := hbs b List.mem_cons_self
      obtain ⟨c, behind, htext, -, hc⟩ := hb.start
      have hfirst : ∃ behind', listed space text (b :: bs) = space ++ text b ++ behind' := by
        cases bs with
        | nil => exact ⟨[], by simp⟩
        | cons b' bs => exact ⟨_, listed_cons_cons b b' bs⟩
      rcases hfirst with ⟨behind', hbehind'⟩
      have hhead : (Json.skipSpace (listed space text (b :: bs) ++ (tail ++ close :: rest))).head? ≠
          some close := by
        rw [hbehind', List.append_assoc, hb.skipSpace hspace, htext]
        intro heq
        exact hc (Option.some.inj heq)
      rw [enclosed, if_neg hhead] at h
      exact items_listed_determined hbs has (List.cons_ne_nil b bs) hspace htail hclose hscalar
        hcomma h

end Determines

/-! ### Values -/

/-- What looks like a number, which no word does. -/
structure Figures (literal : Bytes) : Prop where
  numeral : Numeral literal
  noWord : ∀ c ∈ literal.head?, c < 97

theorem Figures.scalarOf {literal : Bytes} (h : Figures literal) {v : Json}
    (hv : scalarOf literal = some v) : isNumber literal = true ∧ v = number literal := by
  have hword : ∀ c word, 97 ≤ c → literal ≠ c :: word := by
    intro c word hc heq
    have hlt := h.noWord c (by rw [heq]; rfl)
    exact absurd hc (UInt8.not_le.mpr hlt)
  rw [Json.scalarOf, if_neg (hword _ _ (by decide)), if_neg (hword _ _ (by decide)),
    if_neg (hword _ _ (by decide))] at hv
  split at hv
  · rename_i hnumber
    cases hv
    exact ⟨hnumber, rfl⟩
  · cases hv

section Write

variable (encoder : Encoder)

/-- What is read where a value is written is this value, and it is well written. -/
def ReadOnly (depth indent : Nat) (v : Json) : Prop :=
  ∀ rest, Delimited rest → ∀ v' r, value depth (write encoder indent v ++ rest) = some (v', r) →
    v.All (isNumber · = true) Plain ∧ v' = v ∧ r = rest

/-- A member is read as it is written where its value is, if its name is plain. -/
theorem member_writeMember {depth indent : Nat} {m : Bytes × Json} (hname : Plain m.1)
    (hm : m.2.All Numeral fun _ => True) {rest r : Bytes} {m' : Bytes × Json}
    (h : member (value depth) (writeMember encoder indent m ++ rest) = some (m', r)) :
    m'.1 = m.1 ∧ value depth (write encoder indent m.2 ++ rest) = some (m'.2, r) := by
  have hskip : skipSpace (colon :: 32 :: (write encoder indent m.2 ++ rest)) =
      colon :: 32 :: (write encoder indent m.2 ++ rest) := skipSpace_cons rfl _
  have hvalue : skipSpace (32 :: (write encoder indent m.2 ++ rest)) =
      write encoder indent m.2 ++ rest := by
    obtain ⟨c, behind, hwrite, hc, -⟩ := write_start encoder indent m.2 hm
    rw [← List.singleton_append, skipSpace_append (by decide), hwrite]
    exact skipSpace_cons hc _
  have htext : writeMember encoder indent m ++ rest =
      quoted m.1 ++ colon :: 32 :: (write encoder indent m.2 ++ rest) := by simp [writeMember]
  rw [htext, member, string?_quoted hname, Option.bind_some] at h
  simp only [hskip, if_pos, hvalue] at h
  obtain ⟨⟨v, r'⟩, hv, heq⟩ := Option.map_eq_some_iff.mp h
  cases heq
  exact ⟨rfl, hv⟩

theorem numeral_of_figures {v : Json} (h : v.All Figures Plain) :
    v.All Numeral fun _ => True := by
  induction v using induct with
  | hnull | hbool | hstring => trivial
  | hnumber literal => exact h.numeral
  | harray elements ih =>
      have hall := (all_array elements).mp h
      exact (all_array elements).mpr fun v hv => ih v hv (hall v hv)
  | hobject members ih =>
      have hall := (all_object members).mp h
      exact (all_object members).mpr fun m hm => ⟨trivial, ih m hm (hall m hm).2⟩

theorem determines_member {depth indent : Nat} {m : Bytes × Json} (hname : Plain m.1)
    (hm : m.2.All Numeral fun _ => True) (h : ReadOnly encoder depth indent m.2)
    (expected : Bytes × Json → Prop) :
    Determines (member (value depth)) (writeMember encoder indent) id
      (fun m => Plain m.1 ∧ m.2.All (isNumber · = true) Plain) closeBrace expected m where
  start := ⟨quote, _, rfl, rfl, by decide⟩
  read := by
    intro rest hrest m' r _ hmember
    obtain ⟨hkey, hvalue⟩ := member_writeMember encoder hname hm hmember
    obtain ⟨hall, heq, hr⟩ := h rest hrest m'.2 r hvalue
    exact ⟨⟨hname, hall⟩, Prod.ext hkey heq, hr⟩

/-- A member of any kind is determined where only its own value is expected under its name. -/
theorem determines_expected {depth indent : Nat} {m : Bytes × Json} (hname : Plain m.1)
    (hm : m.2.All Numeral fun _ => True) (h : ReadBack encoder depth indent m.2)
    {expected : Bytes × Json → Prop} (hexpected : ∀ m', expected m' → m'.1 = m.1 → m'.2 = m.2) :
    Determines (member (value depth)) (writeMember encoder indent) id
      (fun m => Plain m.1 ∧ m.2.All (isNumber · = true) Plain) closeBrace expected m where
  start := ⟨quote, _, rfl, rfl, by decide⟩
  read := by
    intro rest hrest m' r hm' hmember
    obtain ⟨hkey, hvalue⟩ := member_writeMember encoder hname hm hmember
    have heq := hexpected m' hm' hkey
    rw [heq] at hvalue
    obtain ⟨hall, hr⟩ := (h rest hrest r).mp hvalue
    exact ⟨⟨hname, hall⟩, Prod.ext hkey heq, hr⟩

theorem readOnly_literal {literal : Bytes} {v : Json} {ok : Prop} (hliteral : Numeral literal)
    (hv : ∀ v', scalarOf literal = some v' → ok ∧ v' = v) {depth : Nat} {rest : Bytes}
    (hrest : Delimited rest) {v' : Json} {r : Bytes}
    (h : value depth (literal ++ rest) = some (v', r)) : ok ∧ v' = v ∧ r = rest := by
  cases depth with
  | zero => cases h
  | succ depth =>
      rw [value_literal hliteral hrest] at h
      obtain ⟨v'', hscalar, heq⟩ := Option.map_eq_some_iff.mp h
      cases heq
      obtain ⟨hok, heq⟩ := hv _ hscalar
      exact ⟨hok, heq, rfl⟩

theorem readOnly_zero (indent : Nat) (v : Json) : ReadOnly encoder 0 indent v := by
  intro rest _ v' r h
  cases h

theorem readOnly_string (depth indent : Nat) (s : Bytes) :
    ReadOnly encoder depth indent (string s) := by
  intro rest _ v' r h
  have hread := encoder.read s rest
  obtain ⟨behind, hencode⟩ := encode_start encoder s
  cases depth with
  | zero => cases h
  | succ depth =>
      rw [write, hencode] at h
      rw [hencode, List.cons_append] at hread
      rw [List.cons_append, value, if_neg (by decide), if_neg (by decide), if_pos rfl, hread] at h
      cases h
      exact ⟨trivial, rfl, rfl⟩

theorem readOnly_array {depth indent : Nat} {elements : List Json}
    (hall : ∀ v ∈ elements, v.All Figures Plain)
    (h : ∀ v ∈ elements, ReadOnly encoder depth (indent + 1) v) :
    ReadOnly encoder (depth + 1) indent (array elements) := by
  intro rest _ v' r hread
  have hspace : ∀ c ∈ ([] : Bytes), isSpace c = true := fun c hc => absurd hc List.not_mem_nil
  have hitems : ∀ v ∈ elements, Determines (value depth) (write encoder (indent + 1)) id
      (fun v => v.All (isNumber · = true) Plain) closeBracket (fun _ => True) v := by
    intro v hmem
    constructor
    · exact write_start encoder (indent + 1) v (numeral_of_figures (hall v hmem))
    · intro rest hrest v' r _ hv'
      exact h v hmem rest hrest v' r hv'
  rw [write_array, value, if_pos rfl] at hread
  obtain ⟨⟨elements', r'⟩, henclosed, heq⟩ := Option.map_eq_some_iff.mp hread
  cases heq
  obtain ⟨hok, heq, hr⟩ := enclosed_listed_determined hitems (fun _ _ => trivial) hspace
    (isSpace_newline indent) rfl rfl (by decide) henclosed
  rw [heq, List.map_id]
  exact ⟨(all_array elements).mpr hok, rfl, hr⟩

/-- An object of members that are determined is read as it is written, if what is expected of
its members is read. -/
theorem object_determined {depth indent : Nat} {members : List (Bytes × Json)}
    {expected : Bytes × Json → Prop}
    (hitems : ∀ m ∈ members, Determines (member (value depth)) (writeMember encoder (indent + 1)) id
      (fun m => Plain m.1 ∧ m.2.All (isNumber · = true) Plain) closeBrace expected m)
    {rest r : Bytes} {v' : Json}
    (h : value (depth + 1) (write encoder indent (object members) ++ rest) = some (v', r)) :
    ∃ members', v' = object members' ∧ ((∀ m ∈ members', expected m) →
      (object members).All (isNumber · = true) Plain ∧ members' = members ∧ r = rest) := by
  rw [write_object, value, if_neg (by decide), if_pos rfl] at h
  obtain ⟨⟨members', r'⟩, henclosed, heq⟩ := Option.map_eq_some_iff.mp h
  cases heq
  refine ⟨members', rfl, fun hexpected => ?_⟩
  obtain ⟨hok, heq, hr⟩ := enclosed_listed_determined hitems hexpected
    (isSpace_newline (indent + 1)) (isSpace_newline indent) rfl rfl (by decide) henclosed
  rw [heq, List.map_id]
  exact ⟨(all_object members).mpr hok, rfl, hr⟩

theorem readOnly_object {depth indent : Nat} {members : List (Bytes × Json)}
    (hall : ∀ m ∈ members, Plain m.1 ∧ m.2.All Figures Plain)
    (h : ∀ m ∈ members, ReadOnly encoder depth (indent + 1) m.2) :
    ReadOnly encoder (depth + 1) indent (object members) := by
  intro rest _ v' r hread
  have hitems : ∀ m ∈ members, Determines (member (value depth)) (writeMember encoder (indent + 1))
      id (fun m => Plain m.1 ∧ m.2.All (isNumber · = true) Plain) closeBrace (fun _ => True) m := by
    intro m hmem
    obtain ⟨hname, hm⟩ := hall m hmem
    exact determines_member encoder hname (numeral_of_figures hm) (h m hmem) _
  obtain ⟨members', rfl, hmembers⟩ := object_determined encoder hitems hread
  obtain ⟨hok, rfl, hr⟩ := hmembers fun _ _ => trivial
  exact ⟨hok, rfl, hr⟩

/-- Values with plain names and figures for numbers are read as they are or not at all. -/
theorem value_write_only (v : Json) (hv : v.All Figures Plain) (indent depth : Nat) :
    ReadOnly encoder depth indent v := by
  induction v using induct generalizing indent depth with
  | hnull =>
      intro rest hrest v' r h
      rw [write] at h
      exact readOnly_literal (by constructor <;> decide) (by simp [All, scalarOf, eq_comm]) hrest h
  | hbool b =>
      intro rest hrest v' r h
      cases b with
      | true =>
          rw [write] at h
          exact readOnly_literal (by constructor <;> decide) (by simp [All, scalarOf, eq_comm]) hrest h
      | false =>
          rw [write] at h
          exact readOnly_literal (by constructor <;> decide) (by simp [All, scalarOf, eq_comm]) hrest h
  | hnumber literal =>
      intro rest hrest v' r h
      rw [write] at h
      rw [All] at hv ⊢
      exact readOnly_literal hv.numeral (fun _ hscalar => hv.scalarOf hscalar) hrest h
  | hstring s => exact readOnly_string encoder depth indent s
  | harray elements ih =>
      have hall := (all_array elements).mp hv
      cases depth with
      | zero => exact readOnly_zero encoder indent _
      | succ depth =>
          exact readOnly_array encoder hall fun v hmem => ih v hmem (hall v hmem) _ _
  | hobject members ih =>
      have hall := (all_object members).mp hv
      cases depth with
      | zero => exact readOnly_zero encoder indent _
      | succ depth =>
          exact readOnly_object encoder hall fun m hmem => ih m hmem (hall m hmem).2 _ _

/-! ### The text of one value -/

theorem skipSpace_write (indent : Nat) {v : Json} (hv : v.All Numeral fun _ => True) :
    skipSpace (write encoder indent v) = write encoder indent v := by
  obtain ⟨c, behind, hwrite, hc, -⟩ := write_start encoder indent v hv
  rw [hwrite]
  exact skipSpace_cons hc behind

/-- A text that consists of one value is read as this value exactly if it is well written. -/
theorem parse_write_iff (indent : Nat) {v : Json} (hv : v.All Numeral fun _ => True) :
    parse (write encoder indent v) = some v ↔ v.All (isNumber · = true) Plain := by
  have hread := value_write_iff encoder v hv indent ((write encoder indent v).length + 1)
    (Nat.le_succ _) [] (by intro c hc; cases hc)
  rw [List.append_nil] at hread
  rw [parse, skipSpace_write encoder indent hv, Option.bind_eq_some_iff]
  constructor
  · rintro ⟨⟨v', r⟩, hvalue, hend⟩
    dsimp only at hend
    split at hend
    · cases hend
      exact ((hread r).mp hvalue).1
    · cases hend
  · intro hall
    exact ⟨(v, []), (hread []).mpr ⟨hall, rfl⟩, rfl⟩

/-- Where an object is read with the value expected under one name, and the other names
are plain, it has been read as written. -/
theorem all_of_parse_members {members members' : List (Bytes × Json)} {name : Bytes} {v : Json}
    (indent : Nat) (hnumerals : (object members).All Numeral fun _ => True) (hname : Plain name)
    (hmembers : ∀ m ∈ members, m = (name, v) ∨ Plain m.1 ∧ m.2.All Figures Plain)
    (hparse : parse (write encoder indent (object members)) = some (object members'))
    (hexpected : ∀ m ∈ members', m.1 = name → m.2 = v) :
    (object members).All (isNumber · = true) Plain ∧ members' = members := by
  have htext := write_object encoder indent members []
  have hall := (all_object members).mp hnumerals
  rw [List.append_nil] at htext
  have hitems : ∀ m ∈ members,
      Determines (member (value (write encoder indent (object members)).length))
        (writeMember encoder (indent + 1)) id (fun m => Plain m.1 ∧ m.2.All (isNumber · = true) Plain)
        closeBrace (fun m => m.1 = name → m.2 = v) m := by
    intro m hm
    have hle := length_value_le encoder hm (indent + 1)
    cases hmembers m hm with
    | inl heq =>
        apply determines_expected encoder (by rw [heq]; exact hname) (hall m hm).2
        · apply value_write_iff encoder m.2 (hall m hm).2
          rw [htext, List.length_cons, List.length_append]
          omega
        · intro m' hm' hkey
          rw [heq] at hkey ⊢
          exact hm' hkey
    | inr hplain =>
        exact determines_member encoder hplain.1 (hall m hm).2
          (value_write_only encoder m.2 hplain.2 _ _) _
  rw [parse, skipSpace_write encoder indent hnumerals] at hparse
  obtain ⟨⟨v', r⟩, hvalue, hend⟩ := Option.bind_eq_some_iff.mp hparse
  dsimp only at hend
  split at hend
  · cases hend
    rw [← List.append_nil (write encoder indent (object members)), List.length_append,
      List.length_nil, Nat.add_zero] at hvalue
    obtain ⟨members'', heq, hread⟩ := object_determined encoder hitems hvalue
    cases heq
    obtain ⟨hok, heq, -⟩ := hread hexpected
    exact ⟨hok, heq⟩
  · cases hend

end Write

end Json
