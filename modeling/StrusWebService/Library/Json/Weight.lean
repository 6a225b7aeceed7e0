import StrusWebService.Library.Json.Parser
import Mathlib.Data.List.TakeWhile

/-! # What a text weighs

Every escape weighs more than what it stands for, so the strings read from a text
weigh at most as much as the text, and when nothing is lost all of them stand in
the text as they are. Together with the fact that no NUL is read, this restricts
the texts from which given strings can be read, without a look at the order in
which the parser meets them.
-/

namespace Json

/-- A backslash counts twice and a `u` once. -/
def weight (bytes : Bytes) : Nat := 2 * bytes.count backslash + bytes.count 117

/-- Bytes that stand for themselves between quotes. -/
def Plain (s : Bytes) : Prop := ∀ c ∈ s, 32 ≤ c ∧ c ≠ quote ∧ c ≠ backslash

instance (s : Bytes) : Decidable (Plain s) := inferInstanceAs (Decidable (∀ c ∈ s, _ ∧ _))

theorem plain_nil : Plain [] := fun _ hc => nomatch hc

theorem Plain.append {s s' : Bytes} (h : Plain s) (h' : Plain s') : Plain (s ++ s') := by
  intro c hc
  cases List.mem_append.mp hc with
  | inl hc => exact h c hc
  | inr hc => exact h' c hc

@[simp] theorem weight_nil : weight [] = 0 := rfl

@[simp] theorem weight_append (bytes bytes' : Bytes) :
    weight (bytes ++ bytes') = weight bytes + weight bytes' := by
  simp only [weight, List.count_append]
  omega

theorem weight_flatten (strings : List Bytes) :
    weight strings.flatten = (strings.map weight).sum := by
  induction strings with
  | nil => rfl
  | cons s strings ih => rw [List.flatten_cons, weight_append, ih, List.map_cons, List.sum_cons]

/-- The strings read from the bytes used. -/
structure Sound (used : Bytes) (strings : List Bytes) : Prop where
  noNul : 0 ∉ used
  le : weight strings.flatten ≤ weight used
  plain : weight strings.flatten = weight used → ∀ s ∈ strings, Plain s

namespace Sound

theorem skip {used : Bytes} (h : 0 ∉ used) : Sound used [] where
  noNul := h
  le := Nat.zero_le _
  plain := fun _ _ hs => nomatch hs

theorem append {used used' : Bytes} {strings strings' : List Bytes} (h : Sound used strings)
    (h' : Sound used' strings') : Sound (used ++ used') (strings ++ strings') where
  noNul := by
    intro hnul
    cases List.mem_append.mp hnul with
    | inl hnul => exact h.noNul hnul
    | inr hnul => exact h'.noNul hnul
  le := by
    rw [List.flatten_append, weight_append, weight_append]
    exact Nat.add_le_add h.le h'.le
  plain := by
    intro heq s hs
    rw [List.flatten_append, weight_append, weight_append] at heq
    have hle := h.le
    have hle' := h'.le
    cases List.mem_append.mp hs with
    | inl hs => exact h.plain (by omega) s hs
    | inr hs => exact h'.plain (by omega) s hs

/-- Two pieces of one string. -/
theorem join {used used' s s' : Bytes} (h : Sound used [s]) (h' : Sound used' [s']) :
    Sound (used ++ used') [s ++ s'] where
  noNul := (h.append h').noNul
  le := by simpa using (h.append h').le
  plain := by
    intro heq t ht
    have hboth := (h.append h').plain (by simpa using heq)
    obtain rfl := List.mem_singleton.mp ht
    apply (hboth s _).append (hboth s' _)
    · simp
    · simp

/-- An escape that weighs more than what it stands for. -/
theorem ofEscape {used s : Bytes} (hnul : 0 ∉ used) (h : weight s < weight used) :
    Sound used [s] where
  noNul := hnul
  le := by simpa using h.le
  plain := by
    intro heq
    rw [List.flatten_cons, List.flatten_nil, List.append_nil] at heq
    omega

end Sound

/-- Whatever the reader reads, it uses a part of the text that accounts for its strings. -/
def Reads {α : Type*} (reader : Reader α) (strings : α → List Bytes) : Prop :=
  ∀ text a rest, reader text = some (a, rest) →
    ∃ used, text = used ++ rest ∧ Sound used (strings a)

/-! ### Strings -/

theorem hexDigit_ne_zero {c : UInt8} {n : Nat} (h : hexDigit c = some n) : c ≠ 0 := by
  have hzero : hexDigit 0 = none := by decide
  intro heq
  rw [heq, hzero] at h
  nomatch h

theorem hexQuad_used {text rest : Bytes} {u : Nat} (h : hexQuad text = some (u, rest)) :
    ∃ used, text = used ++ rest ∧ 0 ∉ used := by
  unfold hexQuad at h
  split at h
  · rename_i a b c d text
    simp only [Option.bind_eq_bind, Option.bind_eq_some_iff] at h
    rcases h with ⟨_, ha, _, hb, _, hc, _, hd, heq⟩
    cases heq
    refine ⟨[a, b, c, d], rfl, ?_⟩
    simp [(hexDigit_ne_zero ha).symm, (hexDigit_ne_zero hb).symm, (hexDigit_ne_zero hc).symm,
      (hexDigit_ne_zero hd).symm]
  · nomatch h

theorem weight_ofNat_cons {n : Nat} (h : 128 ≤ n % 256) (s : Bytes) :
    weight (UInt8.ofNat n :: s) = weight s := by
  have hne : ∀ c : UInt8, c < 128 → UInt8.ofNat n ≠ c := by
    intro c hc heq
    have htoNat := congrArg UInt8.toNat heq
    rw [UInt8.toNat_ofNat'] at htoNat
    have hlt := UInt8.lt_iff_toNat_lt.mp hc
    simp at hlt
    omega
  simp [weight, hne backslash (by decide), hne 117 (by decide)]

theorem weight_singleton_le (c : UInt8) : weight [c] ≤ 2 := by
  by_cases hback : c = backslash
  · rw [hback]
    decide
  · have hcount : [c].count 117 ≤ [c].length := List.count_le_length
    have hnone : [c].count backslash = 0 := by simp [hback]
    have hone : [c].length = 1 := rfl
    rw [weight, hnone]
    omega

theorem weight_utf8_le (u : Nat) : weight (utf8 u) ≤ 2 := by
  unfold utf8
  split
  · exact weight_singleton_le _
  · repeat' split
    all_goals simp (disch := omega) only [weight_ofNat_cons, weight_nil, Nat.zero_le]

/-- The bytes behind `\u`; the `u` itself has been passed. -/
theorem unicodeEscape_used {text rest s : Bytes} (h : unicodeEscape text = some (s, rest)) :
    ∃ used, text = used ++ rest ∧ 0 ∉ used ∧ weight s ≤ 2 := by
  unfold unicodeEscape at h
  obtain ⟨⟨u, behind⟩, hquad, hfirst⟩ := Option.bind_eq_some_iff.mp h
  obtain ⟨used, htext, hused⟩ := hexQuad_used hquad
  dsimp only at hfirst
  split at hfirst
  · split at hfirst
    · rename_i behind
      obtain ⟨⟨v, behind'⟩, hquad', hsecond⟩ := Option.bind_eq_some_iff.mp hfirst
      obtain ⟨used', htext', hused'⟩ := hexQuad_used hquad'
      dsimp only at hsecond
      split at hsecond
      · simp only [Option.some.injEq, Prod.mk.injEq] at hsecond
        rcases hsecond with ⟨hs, hrest⟩
        refine ⟨used ++ 92 :: 117 :: used', by simp [htext, htext', hrest], ?_, ?_⟩
        · simp [hused, hused']
        · rw [← hs]
          exact weight_utf8_le _
      · nomatch hsecond
    · nomatch hfirst
  · split at hfirst
    · nomatch hfirst
    · cases hfirst
      exact ⟨used, htext, hused, weight_utf8_le u⟩

theorem escapeLetter_used {c d : UInt8} (h : escapeLetter c = some d) :
    c ≠ 0 ∧ weight [d] < weight [backslash, c] := by
  unfold escapeLetter at h
  repeat' split at h
  all_goals
    cases h
    try
      subst_vars
      decide

theorem escape_used {text s rest : Bytes} (h : escape text = some (s, rest)) :
    ∃ used, text = used ++ rest ∧ Sound (backslash :: used) [s] := by
  cases text with
  | nil => nomatch h
  | cons c text =>
      rw [escape] at h
      split at h
      · rename_i hc
        obtain ⟨used, htext, hnul, hle⟩ := unicodeEscape_used h
        refine ⟨117 :: used, by rw [hc, htext]; rfl, Sound.ofEscape ?_ ?_⟩
        · simpa [backslash] using hnul
        · have hsplit := weight_append [backslash, 117] used
          have hthree : weight [backslash, 117] = 3 := rfl
          rw [List.cons_append, List.singleton_append] at hsplit
          omega
      · obtain ⟨d, hletter, heq⟩ := Option.map_eq_some_iff.mp h
        cases heq
        obtain ⟨hnul, hlt⟩ := escapeLetter_used hletter
        exact ⟨[c], rfl, Sound.ofEscape (by simp [backslash, hnul.symm]) hlt⟩

theorem sound_plain {c : UInt8} (h : Plain [c]) : Sound [c] [[c]] where
  noNul := by
    intro hnul
    exact absurd (h 0 hnul).1 (by decide)
  le := Nat.le_refl _
  plain := by
    intro _ s hs
    rw [List.mem_singleton] at hs
    rwa [hs]

theorem reads_character : Reads character fun c => [c] := by
  intro text s rest h
  cases text with
  | nil => nomatch h
  | cons c text =>
      rw [character] at h
      split at h
      · rename_i hback
        obtain ⟨used, htext, hused⟩ := escape_used h
        exact ⟨backslash :: used, by rw [hback, htext]; rfl, hused⟩
      · rename_i hback
        split at h
        · nomatch h
        · rename_i hother
          cases h
          refine ⟨[c], rfl, sound_plain ?_⟩
          intro d hd
          rw [List.mem_singleton] at hd
          rw [hd]
          exact ⟨UInt8.not_lt.mp fun hlt => hother (Or.inl hlt), fun heq => hother (Or.inr heq), hback⟩

theorem sound_quote : Sound [quote] [[]] where
  noNul := by decide
  le := Nat.zero_le _
  plain := by
    intro _ s hs
    rw [List.mem_singleton] at hs
    rw [hs]
    exact plain_nil

theorem reads_characters (fuel : Nat) : Reads (characters fuel) fun s => [s] := by
  induction fuel with
  | zero => exact fun _ _ _ h => nomatch h
  | succ fuel ih =>
      intro text s rest h
      rw [characters] at h
      split at h
      · rename_i hquote
        cases h
        cases text with
        | nil => nomatch hquote
        | cons c text =>
            cases hquote
            exact ⟨[quote], rfl, sound_quote⟩
      · obtain ⟨⟨c, text'⟩, hc, hrest⟩ := Option.bind_eq_some_iff.mp h
        obtain ⟨⟨s', rest'⟩, hs', heq⟩ := Option.map_eq_some_iff.mp hrest
        cases heq
        obtain ⟨used, htext, hused⟩ := reads_character _ _ _ hc
        obtain ⟨used', htext', hused'⟩ := ih _ _ _ hs'
        exact ⟨used ++ used', by rw [htext, htext', List.append_assoc], hused.join hused'⟩

theorem reads_string? : Reads string? fun s => [s] := by
  intro text s rest h
  cases text with
  | nil => nomatch h
  | cons c text =>
      rw [string?] at h
      split at h
      · rename_i hquote
        obtain ⟨used, htext, hused⟩ := reads_characters _ _ _ _ h
        exact ⟨[quote] ++ used, by rw [hquote, htext]; rfl, sound_quote.join hused⟩
      · nomatch h

/-! ### Space and scalars -/

theorem zero_not_mem_takeWhile {p : UInt8 → Bool} (h : p 0 = false) (text : Bytes) :
    0 ∉ text.takeWhile p := by
  intro hmem
  have hp := List.mem_takeWhile_imp hmem
  rw [h] at hp
  nomatch hp

theorem skipSpace_used (text : Bytes) : ∃ used, text = used ++ skipSpace text ∧ Sound used [] :=
  ⟨text.takeWhile isSpace, (List.takeWhile_append_dropWhile).symm,
    Sound.skip (zero_not_mem_takeWhile rfl text)⟩

mutual

/-- The strings of a value and the keys of its objects. -/
def strings : Json → List Bytes
  | null => []
  | bool _ => []
  | number _ => []
  | string s => [s]
  | array elements => stringsOfElements elements
  | object members => stringsOfMembers members

def stringsOfElements : List Json → List Bytes
  | [] => []
  | v :: elements => v.strings ++ stringsOfElements elements

def stringsOfMembers : List (Bytes × Json) → List Bytes
  | [] => []
  | (key, v) :: members => key :: (v.strings ++ stringsOfMembers members)

end

theorem stringsOfElements_eq (elements : List Json) :
    stringsOfElements elements = elements.flatMap strings := by
  induction elements with
  | nil => rfl
  | cons v elements ih => rw [stringsOfElements, ih, List.flatMap_cons]

theorem stringsOfMembers_eq (members : List (Bytes × Json)) :
    stringsOfMembers members = members.flatMap fun m => m.1 :: m.2.strings := by
  induction members with
  | nil => rfl
  | cons m members ih => rw [stringsOfMembers, ih, List.flatMap_cons, List.cons_append]

theorem strings_scalarOf {literal : Bytes} {v : Json} (h : scalarOf literal = some v) :
    v.strings = [] := by
  unfold scalarOf at h
  repeat' split at h
  all_goals cases h
  all_goals rfl

theorem reads_scalar : Reads scalar strings := by
  intro text v rest h
  obtain ⟨w, hw, heq⟩ := Option.map_eq_some_iff.mp h
  cases heq
  rw [strings_scalarOf hw]
  exact ⟨text.takeWhile isScalarByte, (List.takeWhile_append_dropWhile).symm,
    Sound.skip (zero_not_mem_takeWhile rfl text)⟩

/-! ### Arrays, objects and texts -/

section Enclosed

variable {α : Type*} {item : Reader α} {parts : α → List Bytes}

theorem reads_items (hitem : Reads item parts) {close : UInt8} (hclose : close ≠ 0) (fuel : Nat) :
    Reads (items item close fuel) fun as => as.flatMap parts := by
  induction fuel with
  | zero => exact fun _ _ _ h => nomatch h
  | succ fuel ih =>
      intro text as rest h
      rw [items] at h
      obtain ⟨⟨a, text'⟩, ha, hmore⟩ := Option.bind_eq_some_iff.mp h
      obtain ⟨used, htext, hused⟩ := hitem _ _ _ ha
      obtain ⟨space, hspace, hskip⟩ := skipSpace_used text'
      dsimp only at hmore
      split at hmore
      · nomatch hmore
      · rename_i c behind hbehind
        rw [hbehind] at hspace
        split at hmore
        · rename_i hc
          cases hmore
          refine ⟨used ++ (space ++ [c]), by simp [htext, hspace], ?_⟩
          have hend := hskip.append (Sound.skip (by simp [hc, hclose.symm] : 0 ∉ [c]))
          simpa using hused.append hend
        · split at hmore
          · rename_i hcomma
            obtain ⟨⟨as', rest'⟩, has', heq⟩ := Option.map_eq_some_iff.mp hmore
            cases heq
            obtain ⟨space', hspace', hskip'⟩ := skipSpace_used behind
            obtain ⟨used', htext', hused'⟩ := ih _ _ _ has'
            refine ⟨used ++ (space ++ ([c] ++ (space' ++ used'))), ?_, ?_⟩
            · rw [htext, hspace, hspace', htext']
              simp
            · have hsep : Sound [c] [] := Sound.skip (by rw [hcomma]; decide)
              have hall := hused.append (hskip.append (hsep.append (hskip'.append hused')))
              simpa using hall
          · nomatch hmore

theorem reads_enclosed (hitem : Reads item parts) {close : UInt8} (hclose : close ≠ 0) :
    Reads (enclosed item close) fun as => as.flatMap parts := by
  intro text as rest h
  obtain ⟨space, hspace, hskip⟩ := skipSpace_used text
  rw [enclosed] at h
  split at h
  · rename_i hhead
    cases h
    cases hinner : skipSpace text with
    | nil =>
        rw [hinner] at hhead
        nomatch hhead
    | cons c behind =>
        rw [hinner] at hhead hspace
        cases hhead
        refine ⟨space ++ [close], by rw [hspace]; simp, ?_⟩
        exact hskip.append (Sound.skip (by simp [hclose.symm]))
  · obtain ⟨used, htext, hused⟩ := reads_items hitem hclose _ _ _ _ h
    refine ⟨space ++ used, ?_, hskip.append hused⟩
    rw [List.append_assoc, ← htext]
    exact hspace

end Enclosed

theorem reads_member {reader : Reader Json} (hreader : Reads reader strings) :
    Reads (member reader) fun m => m.1 :: m.2.strings := by
  intro text m rest h
  obtain ⟨⟨key, text'⟩, hkey, hmore⟩ := Option.bind_eq_some_iff.mp h
  obtain ⟨used, htext, hused⟩ := reads_string? _ _ _ hkey
  obtain ⟨space, hspace, hskip⟩ := skipSpace_used text'
  dsimp only at hmore
  split at hmore
  · nomatch hmore
  · rename_i c behind hbehind
    rw [hbehind] at hspace
    split at hmore
    · rename_i hcolon
      obtain ⟨⟨v, rest'⟩, hv, heq⟩ := Option.map_eq_some_iff.mp hmore
      cases heq
      obtain ⟨space', hspace', hskip'⟩ := skipSpace_used behind
      obtain ⟨used', htext', hused'⟩ := hreader _ _ _ hv
      refine ⟨used ++ (space ++ ([c] ++ (space' ++ used'))), ?_, ?_⟩
      · rw [htext, hspace, hspace', htext']
        simp
      · have hsep : Sound [c] [] := Sound.skip (by rw [hcolon]; decide)
        exact hused.append (hskip.append (hsep.append (hskip'.append hused')))
    · nomatch hmore

theorem reads_value (depth : Nat) : Reads (value depth) strings := by
  induction depth with
  | zero => exact fun _ _ _ h => nomatch h
  | succ depth ih =>
      intro text v rest h
      cases text with
      | nil => nomatch h
      | cons c text =>
          rw [value] at h
          split at h
          · rename_i hc
            obtain ⟨⟨vs, rest'⟩, hvs, heq⟩ := Option.map_eq_some_iff.mp h
            cases heq
            obtain ⟨used, htext, hused⟩ := reads_enclosed ih (by decide) _ _ _ hvs
            have hopen : Sound [c] [] := Sound.skip (by rw [hc]; decide)
            rw [strings, stringsOfElements_eq]
            exact ⟨[c] ++ used, by rw [htext]; rfl, hopen.append hused⟩
          · split at h
            · rename_i hc
              obtain ⟨⟨ms, rest'⟩, hms, heq⟩ := Option.map_eq_some_iff.mp h
              cases heq
              obtain ⟨used, htext, hused⟩ := reads_enclosed (reads_member ih) (by decide) _ _ _ hms
              have hopen : Sound [c] [] := Sound.skip (by rw [hc]; decide)
              rw [strings, stringsOfMembers_eq]
              exact ⟨[c] ++ used, by rw [htext]; rfl, hopen.append hused⟩
            · split at h
              · obtain ⟨⟨s, rest'⟩, hs, heq⟩ := Option.map_eq_some_iff.mp h
                cases heq
                exact reads_string? _ _ _ hs
              · exact reads_scalar _ _ _ h

/-- A text that is accepted accounts for the strings of its value. -/
theorem sound_of_parse {text : Bytes} {v : Json} (h : parse text = some v) :
    Sound text v.strings := by
  obtain ⟨⟨w, rest⟩, hw, hend⟩ := Option.bind_eq_some_iff.mp h
  obtain ⟨space, hspace, hskip⟩ := skipSpace_used text
  obtain ⟨used, htext, hused⟩ := reads_value _ _ _ _ hw
  obtain ⟨space', hspace', hskip'⟩ := skipSpace_used rest
  dsimp only at hend
  split at hend
  · rename_i hempty
    cases hend
    rw [hempty, List.append_nil] at hspace'
    rw [hspace, htext, hspace']
    simpa using hskip.append (hused.append hskip')
  · nomatch hend

end Json
