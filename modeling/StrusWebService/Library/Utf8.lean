import StrusWebService.Library.Text

/-! # Cutting UTF-8

A valid text consists of encoded characters: a lead byte and the continuation bytes that
belong to it. Cut behind an ASCII byte, both parts are valid; cut behind another lead
byte, the first part is not.
-/

namespace Utf8

def Valid (bytes : List UInt8) : Prop := bytes.toByteArray.IsValidUTF8

/-- A continuation byte, one in the middle of a character. -/
def Mid (c : UInt8) : Prop := c &&& 0xC0 = 0x80

instance : DecidablePred Mid := fun c => inferInstanceAs (Decidable (c &&& 0xC0 = 0x80))

def Ascii (c : UInt8) : Prop := c < 128

instance : DecidablePred Ascii := fun c => inferInstanceAs (Decidable (c < 128))

section Characters

theorem not_mid_of_ascii {c : UInt8} (h : Ascii c) : ¬Mid c := by
  have hall : ∀ n < 128, ¬Mid (UInt8.ofNat n) := by decide
  have := hall c.toNat (UInt8.lt_iff_toNat_lt.mp h)
  rwa [UInt8.ofNat_toNat] at this

theorem mid_of_lt {n : Nat} (h : n < 64) : Mid (UInt8.ofNat (n + 0x80)) := by
  have hall : ∀ n < 64, Mid (UInt8.ofNat (n + 0x80)) := by decide
  exact hall n h

/-- The lead byte of a character that takes several bytes. -/
theorem lead_of_lt {n : Nat} (h : n < 56) :
    ¬Mid (UInt8.ofNat (n + 0xc0)) ∧ ¬Ascii (UInt8.ofNat (n + 0xc0)) := by
  have hall : ∀ n < 56, ¬Mid (UInt8.ofNat (n + 0xc0)) ∧ ¬Ascii (UInt8.ofNat (n + 0xc0)) := by decide
  exact hall n h

/-- How a character is encoded: an ASCII byte, or a lead byte with continuation bytes. -/
theorem utf8EncodeChar_spec (c : Char) :
    (∃ byte, String.utf8EncodeChar c = [byte] ∧ Ascii byte) ∨
      ∃ lead tail, String.utf8EncodeChar c = lead :: tail ∧ tail ≠ [] ∧ ¬Mid lead ∧
        ¬Ascii lead ∧ ∀ byte ∈ tail, Mid byte := by
  have hmid : ∀ v : Nat, Mid (UInt8.ofNat (v % 0x40 + 0x80)) := fun v =>
    mid_of_lt (Nat.mod_lt v (by decide))
  have htail : ∀ l : List Nat, ∀ byte ∈ l.map fun v => UInt8.ofNat (v % 0x40 + 0x80), Mid byte := by
    intro l byte h
    obtain ⟨v, -, rfl⟩ := List.mem_map.mp h
    exact hmid v
  unfold String.utf8EncodeChar
  dsimp only
  split
  · rename_i h
    refine Or.inl ⟨_, rfl, ?_⟩
    rw [Ascii, UInt8.lt_iff_toNat_lt, UInt8.toNat_ofNat']
    exact Nat.lt_of_le_of_lt (Nat.mod_le _ _) (Nat.lt_succ_of_le h)
  · right
    split
    · obtain ⟨hlead, hascii⟩ := lead_of_lt (n := c.val.toNat / 64 % 0x20) (by omega)
      exact ⟨_, _, rfl, List.cons_ne_nil _ _, hlead, hascii, htail [c.val.toNat]⟩
    · split
      · obtain ⟨hlead, hascii⟩ := lead_of_lt (n := c.val.toNat / 4096 % 0x10 + 0x20) (by omega)
        exact ⟨_, _, rfl, List.cons_ne_nil _ _, hlead, hascii, htail [c.val.toNat / 64, c.val.toNat]⟩
      · obtain ⟨hlead, hascii⟩ := lead_of_lt (n := c.val.toNat / 262144 % 0x08 + 0x30) (by omega)
        exact ⟨_, _, rfl, List.cons_ne_nil _ _, hlead, hascii, htail [c.val.toNat / 4096, c.val.toNat / 64, c.val.toNat]⟩

end Characters

section Texts

theorem valid_iff {bytes : List UInt8} :
    Valid bytes ↔ ∃ chars : List Char, bytes = chars.flatMap String.utf8EncodeChar := by
  constructor
  · intro h
    rcases h with ⟨chars, h⟩
    refine ⟨chars, ?_⟩
    simpa [List.utf8Encode] using congrArg (fun b => b.data.toList) h
  · rintro ⟨chars, rfl⟩
    exact ⟨chars, rfl⟩

/-- A text starts with no continuation byte. -/
theorem Valid.head {bytes : List UInt8} (h : Valid bytes) : ∀ c ∈ bytes.head?, ¬Mid c := by
  obtain ⟨chars, rfl⟩ := valid_iff.mp h
  cases chars with
  | nil => simp
  | cons c chars =>
      intro byte hbyte
      rw [List.flatMap_cons] at hbyte
      cases utf8EncodeChar_spec c with
      | inl hascii =>
          rcases hascii with ⟨b, hb, hascii⟩
          rw [hb] at hbyte
          cases hbyte
          exact not_mid_of_ascii hascii
      | inr hmulti =>
          rcases hmulti with ⟨lead, tail, hb, -, hlead, -⟩
          rw [hb] at hbyte
          cases hbyte
          exact hlead

/-- A text ends with an ASCII byte or a continuation byte. -/
theorem Valid.last {bytes : List UInt8} (h : Valid bytes) :
    ∀ c ∈ bytes.getLast?, Ascii c ∨ Mid c := by
  obtain ⟨chars, rfl⟩ := valid_iff.mp h
  cases List.eq_nil_or_concat chars with
  | inl hnil => simp [hnil]
  | inr hconcat =>
      rcases hconcat with ⟨init, c, rfl⟩
      intro byte hbyte
      rw [List.concat_eq_append, List.flatMap_append, List.flatMap_singleton] at hbyte
      cases utf8EncodeChar_spec c with
      | inl hascii =>
          rcases hascii with ⟨b, hb, hascii⟩
          rw [hb, List.getLast?_append] at hbyte
          cases hbyte
          exact Or.inl hascii
      | inr hmulti =>
          rcases hmulti with ⟨lead, tail, hb, hne, -, -, hmid⟩
          have hlast : tail.getLast? = some (tail.getLast hne) := List.getLast?_eq_some_getLast hne
          rw [hb, List.getLast?_append, List.getLast?_cons, hlast] at hbyte
          cases hbyte
          exact Or.inr (hmid _ (List.getLast_mem hne))

/-- Cut behind an ASCII byte, both parts are texts. -/
theorem Valid.cut {bytes : List UInt8} (h : Valid bytes) {k : Nat} {c : UInt8}
    (hc : bytes[k]? = some c) (hascii : Ascii c) :
    Valid (bytes.take (k + 1)) ∧ Valid (bytes.drop (k + 1)) := by
  obtain ⟨chars, rfl⟩ := valid_iff.mp h
  clear h
  induction chars generalizing k with
  | nil => cases hc
  | cons char chars ih =>
      rw [List.flatMap_cons] at hc ⊢
      by_cases hk : k < (String.utf8EncodeChar char).length
      · rw [List.getElem?_append_left hk] at hc
        cases utf8EncodeChar_spec char with
        | inl hsingle =>
            rcases hsingle with ⟨b, hb, -⟩
            rw [hb] at hk ⊢
            obtain rfl : k = 0 := Nat.lt_one_iff.mp hk
            exact ⟨valid_iff.mpr ⟨[char], by simp [hb]⟩, valid_iff.mpr ⟨chars, rfl⟩⟩
        | inr hmulti =>
            rcases hmulti with ⟨lead, tail, hb, -, -, hlead, hmid⟩
            rw [hb] at hc
            cases k with
            | zero =>
                cases hc
                exact absurd hascii hlead
            | succ k => exact absurd (hmid c (List.mem_of_getElem? hc)) (not_mid_of_ascii hascii)
      · have hle := Nat.le_of_not_lt hk
        rw [List.getElem?_append_right hle] at hc
        obtain ⟨hbefore, hbehind⟩ := ih hc
        have hsub : k - (String.utf8EncodeChar char).length + 1 =
            k + 1 - (String.utf8EncodeChar char).length := by omega
        rw [hsub] at hbefore hbehind
        rw [List.take_append, List.drop_append, List.take_of_length_le (by omega),
          List.drop_of_length_le (by omega), List.nil_append]
        refine ⟨?_, hbehind⟩
        obtain ⟨before, hb⟩ := valid_iff.mp hbefore
        exact valid_iff.mpr ⟨char :: before, by rw [hb, List.flatMap_cons]⟩

/-- Behind an ASCII byte stands no continuation byte. -/
theorem Valid.not_mid {bytes : List UInt8} (h : Valid bytes) {k : Nat} {c d : UInt8}
    (hc : bytes[k]? = some c) (hascii : Ascii c) (hd : bytes[k + 1]? = some d) : ¬Mid d := by
  apply (h.cut hc hascii).2.head
  rw [List.head?_drop, hd]
  exact rfl

/-- A text cut behind a byte that is not a continuation byte is a text just if that byte
is ASCII. -/
theorem Valid.take_iff {bytes : List UInt8} (h : Valid bytes) {k : Nat} {c : UInt8}
    (hc : bytes[k]? = some c) (hmid : ¬Mid c) : Valid (bytes.take (k + 1)) ↔ Ascii c := by
  constructor
  · intro hvalid
    have hlast : (bytes.take (k + 1)).getLast? = some c := by
      rw [List.getLast?_take, if_neg (Nat.succ_ne_zero k), Nat.add_sub_cancel, hc]
      rfl
    cases hvalid.last c hlast with
    | inl hascii => exact hascii
    | inr hcmid => exact absurd hcmid hmid
  · intro hascii
    exact (h.cut hc hascii).1

end Texts

end Utf8
