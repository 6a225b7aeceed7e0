import StrusWebService.Library.Json.Writing

/-! # Texts read back or not at all

A string between quotes is read back if and only if its bytes are plain, and a listing
of items is read back if and only if every item is. An item that is not read back may
be read as something else, which ends elsewhere.
-/

namespace Json

/-! ### Names -/

theorem hexQuad_length {text rest : Bytes} {u : Nat} (h : hexQuad text = some (u, rest)) :
    ∃ used, text = used ++ rest ∧ quote ∉ used ∧ used.length = 4 := by
  have hne : ∀ {c : UInt8} {n : Nat}, hexDigit c = some n → quote ≠ c := by
    intro c n hc heq
    have hnone : hexDigit quote = none := rfl
    rw [← heq, hnone] at hc
    nomatch hc
  unfold hexQuad at h
  split at h
  · rename_i a b c d text
    simp only [Option.bind_eq_bind, Option.bind_eq_some_iff] at h
    rcases h with ⟨_, ha, _, hb, _, hc, _, hd, heq⟩
    cases heq
    exact ⟨[a, b, c, d], rfl, by simp [hne ha, hne hb, hne hc, hne hd], rfl⟩
  · nomatch h

theorem length_utf8_le (u : Nat) : (utf8 u).length ≤ 4 := by
  unfold utf8
  repeat' split
  all_goals simp

theorem unicodeEscape_length {text rest s : Bytes} (h : unicodeEscape text = some (s, rest)) :
    ∃ used, text = used ++ rest ∧ quote ∉ used ∧ s.length ≤ used.length := by
  unfold unicodeEscape at h
  obtain ⟨⟨u, behind⟩, hquad, hfirst⟩ := Option.bind_eq_some_iff.mp h
  obtain ⟨used, htext, hused, hlength⟩ := hexQuad_length hquad
  dsimp only at hfirst
  split at hfirst
  · split at hfirst
    · rename_i behind
      obtain ⟨⟨v, behind'⟩, hquad', hsecond⟩ := Option.bind_eq_some_iff.mp hfirst
      obtain ⟨used', htext', hused', hlength'⟩ := hexQuad_length hquad'
      dsimp only at hsecond
      split at hsecond
      · simp only [Option.some.injEq, Prod.mk.injEq] at hsecond
        rcases hsecond with ⟨hs, hrest⟩
        refine ⟨used ++ 92 :: 117 :: used', by simp [htext, htext', hrest], ?_, ?_⟩
        · intro hmem
          rw [List.mem_append] at hmem
          cases hmem with
          | inl hmem => exact hused hmem
          | inr hmem => simp [quote, show ¬ (34 : UInt8) ∈ used' from hused'] at hmem
        · have hutf := length_utf8_le (0x10000 + (u - 0xD800) * 1024 + (v - 0xDC00))
          rw [← hs, List.length_append]
          omega
      · nomatch hsecond
    · nomatch hfirst
  · split at hfirst
    · nomatch hfirst
    · cases hfirst
      have hutf := length_utf8_le u
      exact ⟨used, htext, hused, by omega⟩

/-- A string reaches up to the first quote and is shorter than the text there, unless
it is this text; or the first quote is escaped and moves to the left. -/
def ReadUpTo (text s rest : Bytes) : Prop :=
  ∃ before behind, text = before ++ quote :: behind ∧ quote ∉ before ∧
    (rest = behind ∧ s.length ≤ before.length ∧ (s.length = before.length → s = before ∧ Plain s) ∨
      ∃ k < before.length, s[k]? = some quote)

/-- An escape without a quote is longer than what it stands for. -/
theorem ReadUpTo.escape {used text chunk s rest : Bytes} (h : ReadUpTo text s rest)
    (hused : quote ∉ used) (hlt : chunk.length < used.length) :
    ReadUpTo (used ++ text) (chunk ++ s) rest := by
  rcases h with ⟨before, behind, htext, hbefore, hcases⟩
  refine ⟨used ++ before, behind, by rw [htext, List.append_assoc], ?_, ?_⟩
  · simp [hused, hbefore]
  · cases hcases with
    | inl hend =>
        rcases hend with ⟨hrest, hle, -⟩
        refine Or.inl ⟨hrest, ?_, ?_⟩
        · simp only [List.length_append]
          omega
        · simp only [List.length_append]
          omega
    | inr hmoved =>
        rcases hmoved with ⟨k, hk, hget⟩
        refine Or.inr ⟨chunk.length + k, ?_, ?_⟩
        · rw [List.length_append]
          omega
        · rw [List.getElem?_append_right (Nat.le_add_right _ _), Nat.add_sub_cancel_left]
          exact hget

/-- A plain byte stands for itself. -/
theorem ReadUpTo.plain {c : UInt8} {text s rest : Bytes} (h : ReadUpTo text s rest)
    (hc : Plain [c]) : ReadUpTo (c :: text) (c :: s) rest := by
  rcases h with ⟨before, behind, htext, hbefore, hcases⟩
  have hquote : c ≠ quote := (hc c (List.mem_singleton_self c)).2.1
  refine ⟨c :: before, behind, by rw [htext]; rfl, ?_, ?_⟩
  · simp [hbefore, Ne.symm hquote]
  · cases hcases with
    | inl hend =>
        rcases hend with ⟨hrest, hle, heq⟩
        refine Or.inl ⟨hrest, Nat.succ_le_succ hle, ?_⟩
        intro hlength
        obtain ⟨hs, hall⟩ := heq (Nat.succ.inj hlength)
        exact ⟨by rw [hs], hc.append hall⟩
    | inr hmoved =>
        rcases hmoved with ⟨k, hk, hget⟩
        exact Or.inr ⟨k + 1, Nat.succ_lt_succ hk, hget⟩

theorem readUpTo_escape {text chunk behind s rest : Bytes}
    (hchunk : Json.escape text = some (chunk, behind)) (h : ReadUpTo behind s rest) :
    ReadUpTo (backslash :: text) (chunk ++ s) rest := by
  cases text with
  | nil => cases hchunk
  | cons d text =>
      rw [Json.escape] at hchunk
      split at hchunk
      · rename_i hd
        obtain ⟨used, htext, hused, hle⟩ := unicodeEscape_length hchunk
        have hno : quote ∉ backslash :: d :: used := by
          rw [hd]
          simpa [quote, backslash] using hused
        have hlt : chunk.length < (backslash :: d :: used).length := by
          simp only [List.length_cons]
          omega
        rw [htext]
        exact h.escape hno hlt
      · obtain ⟨e, hletter, heq⟩ := Option.map_eq_some_iff.mp hchunk
        cases heq
        by_cases hd : d = quote
        · rw [hd] at hletter ⊢
          cases hletter
          exact ⟨[backslash], behind, rfl, by decide, Or.inr ⟨0, Nat.one_pos, rfl⟩⟩
        · have hno : quote ∉ [backslash, d] := by
            simpa [quote, backslash] using fun heq => hd heq.symm
          exact h.escape hno Nat.one_lt_two

theorem readUpTo_character {text chunk behind s rest : Bytes}
    (hquote : text.head? ≠ some quote) (hchunk : character text = some (chunk, behind))
    (h : ReadUpTo behind s rest) : ReadUpTo text (chunk ++ s) rest := by
  cases text with
  | nil => cases hchunk
  | cons c text =>
      rw [character] at hchunk
      split at hchunk
      · rename_i hback
        rw [hback]
        exact readUpTo_escape hchunk h
      · rename_i hback
        split at hchunk
        · cases hchunk
        · rename_i hplain
          cases hchunk
          obtain ⟨hlow, hquote⟩ := not_or.mp hplain
          apply h.plain
          intro d hd
          obtain rfl := List.mem_singleton.mp hd
          exact ⟨UInt8.not_lt.mp hlow, hquote, hback⟩

theorem readUpTo_characters (fuel : Nat) {text s rest : Bytes}
    (h : characters fuel text = some (s, rest)) : ReadUpTo text s rest := by
  induction fuel generalizing text s with
  | zero => cases h
  | succ fuel ih =>
      rw [characters] at h
      split at h
      · rename_i hquote
        cases h
        cases text with
        | nil => cases hquote
        | cons c text =>
            cases hquote
            exact ⟨[], text, rfl, List.not_mem_nil, Or.inl ⟨rfl, Nat.le_refl 0, fun _ => ⟨rfl, plain_nil⟩⟩⟩
      · rename_i hquote
        obtain ⟨⟨chunk, text'⟩, hchunk, hmore⟩ := Option.bind_eq_some_iff.mp h
        obtain ⟨⟨s', rest'⟩, hs', heq⟩ := Option.map_eq_some_iff.mp hmore
        cases heq
        exact readUpTo_character hquote hchunk (ih hs')

/-- Between quotes, the plain strings and no others are read as they are. -/
theorem string?_quoted_iff (s rest r : Bytes) :
    string? (quoted s ++ rest) = some (s, r) ↔ Plain s ∧ r = rest := by
  constructor
  · intro h
    have htext : quoted s ++ rest = quote :: (s ++ quote :: rest) := by simp [quoted]
    rw [htext, string?, if_pos rfl] at h
    obtain ⟨before, behind, hsplit, hbefore, hcases⟩ := readUpTo_characters _ h
    -- the first quote is not in the string
    have hle : before.length ≤ s.length := by
      apply Nat.le_of_not_lt
      intro hlt
      have hget := congrArg (·[s.length]?) hsplit
      simp only [List.getElem?_append_right (Nat.le_refl _), Nat.sub_self,
        List.getElem?_append_left hlt, List.getElem?_cons_zero] at hget
      exact hbefore (List.mem_of_getElem? hget.symm)
    cases hcases with
    | inl hend =>
        rcases hend with ⟨hr, hle', heq⟩
        obtain ⟨hs, hplain⟩ := heq (Nat.le_antisymm hle' hle)
        subst hs
        refine ⟨hplain, ?_⟩
        rw [hr]
        exact (List.cons.inj (List.append_cancel_left hsplit)).2.symm
    | inr hmoved =>
        rcases hmoved with ⟨k, hk, hget⟩
        have hget' := congrArg (·[k]?) hsplit
        simp only [List.getElem?_append_left (Nat.lt_of_lt_of_le hk hle),
          List.getElem?_append_left hk] at hget'
        rw [hget] at hget'
        exact absurd (List.mem_of_getElem? hget'.symm) hbefore
  · rintro ⟨hplain, hr⟩
    rw [hr]
    exact string?_quoted hplain rest

/-! ### Items that are read back or not at all -/

/-- What may stand behind a value. -/
def Delimited (rest : Bytes) : Prop := ∀ c ∈ rest.head?, isScalarByte c = false

theorem isScalarByte_of_isSpace {c : UInt8} (h : isSpace c = true) : isScalarByte c = false := by
  simp only [isSpace, Bool.or_eq_true, beq_iff_eq] at h
  rcases h with ((h | h) | h) | h
  all_goals
    rw [h]
    decide

theorem delimited_append {tail : Bytes} {close : UInt8} (htail : ∀ c ∈ tail, isSpace c = true)
    (hclose : isScalarByte close = false) (rest : Bytes) : Delimited (tail ++ close :: rest) := by
  cases tail with
  | nil =>
      intro c hc
      cases hc
      exact hclose
  | cons d tail =>
      intro c hc
      cases hc
      exact isScalarByte_of_isSpace (htail d List.mem_cons_self)

section Decides

variable {α β : Type*} {item : Reader α} {text : β → Bytes} {result : β → α} {ok : β → Prop}
  {space tail : Bytes} {close : UInt8}

/-- The reader gets the result of the item back under one condition, and with it what
stands behind the item. -/
structure Decides (item : Reader α) (text : β → Bytes) (result : β → α) (ok : β → Prop)
    (close : UInt8) (b : β) : Prop where
  start : ∃ c behind, text b = c :: behind ∧ isSpace c = false ∧ c ≠ close
  read : ∀ rest, Delimited rest → ∀ r, item (text b ++ rest) = some (result b, r) ↔ ok b ∧ r = rest

theorem Decides.skipSpace {b : β} (h : Decides item text result ok close b)
    (hspace : ∀ c ∈ space, isSpace c = true) (rest : Bytes) :
    Json.skipSpace (space ++ text b ++ rest) = text b ++ rest := by
  obtain ⟨c, behind, htext, hc, -⟩ := h.start
  rw [List.append_assoc, skipSpace_append hspace, htext]
  exact skipSpace_cons hc _

theorem items_cons_iff (hcomma : close ≠ comma) {fuel : Nat} {text r : Bytes} {a : α}
    {as : List α} :
    items item close (fuel + 1) text = some (a :: as, r) ↔
      ∃ behind, item text = some (a, behind) ∧
        (as = [] ∧ Json.skipSpace behind = close :: r ∨
          ∃ more, Json.skipSpace behind = comma :: more ∧
            items item close fuel (Json.skipSpace more) = some (as, r)) := by
  rw [items, Option.bind_eq_some_iff]
  constructor
  · rintro ⟨⟨a', behind⟩, hitem, hmore⟩
    dsimp only at hmore
    split at hmore
    · cases hmore
    · rename_i c more hskip
      split at hmore
      · rename_i hc
        subst hc
        cases hmore
        exact ⟨behind, hitem, Or.inl ⟨rfl, hskip⟩⟩
      · split at hmore
        · rename_i hc
          subst hc
          obtain ⟨⟨as', rest⟩, hitems, heq⟩ := Option.map_eq_some_iff.mp hmore
          cases heq
          exact ⟨behind, hitem, Or.inr ⟨more, hskip, hitems⟩⟩
        · cases hmore
  · rintro ⟨behind, hitem, hcases⟩
    refine ⟨(a, behind), hitem, ?_⟩
    cases hcases with
    | inl hlast =>
        rcases hlast with ⟨has, hskip⟩
        simp [hskip, has]
    | inr hmore =>
        rcases hmore with ⟨more, hskip, hitems⟩
        simp [hskip, hcomma.symm, hitems]

theorem items_listed_iff {bs : List β} (hbs : ∀ b ∈ bs, Decides item text result ok close b)
    (hne : bs ≠ []) (hspace : ∀ c ∈ space, isSpace c = true) (htail : ∀ c ∈ tail, isSpace c = true)
    (hclose : isSpace close = false) (hscalar : isScalarByte close = false) (hcomma : close ≠ comma)
    (fuel : Nat) (hfuel : bs.length ≤ fuel) (rest r : Bytes) :
    items item close fuel (Json.skipSpace (listed space text bs ++ (tail ++ close :: rest))) =
        some (bs.map result, r) ↔ (∀ b ∈ bs, ok b) ∧ r = rest := by
  have hend : Json.skipSpace (tail ++ close :: rest) = close :: rest := by
    rw [skipSpace_append htail, skipSpace_cons hclose]
  induction bs generalizing fuel with
  | nil => contradiction
  | cons b bs ih =>
      obtain ⟨fuel, rfl⟩ : ∃ n, fuel = n + 1 := ⟨fuel - 1, by simp at hfuel; omega⟩
      have hb := hbs b List.mem_cons_self
      cases bs with
      | nil =>
          have hread := hb.read _ (delimited_append htail hscalar rest)
          rw [listed_singleton, hb.skipSpace hspace, List.map_singleton, items_cons_iff hcomma,
            List.forall_mem_singleton]
          constructor
          · intro ⟨behind, hitem, hcases⟩
            obtain ⟨hok, rfl⟩ := (hread behind).mp hitem
            rw [hend] at hcases
            cases hcases with
            | inl hlast => exact ⟨hok, (List.cons.inj hlast.2).2.symm⟩
            | inr hmore =>
                rcases hmore with ⟨more, heq, -⟩
                exact absurd (List.cons.inj heq).1 hcomma
          · intro ⟨hok, hr⟩
            rw [hr]
            exact ⟨_, (hread _).mpr ⟨hok, rfl⟩, Or.inl ⟨rfl, hend⟩⟩
      | cons b' bs =>
          have hrest := ih (fun x hx => hbs x (List.mem_cons_of_mem b hx)) (List.cons_ne_nil b' bs)
            fuel (Nat.le_of_succ_le_succ hfuel)
          have hskip : ∀ more : Bytes, Json.skipSpace (comma :: more) = comma :: more :=
            skipSpace_cons rfl
          have hread := hb.read (comma :: (listed space text (b' :: bs) ++ (tail ++ close :: rest)))
            (by intro c hc; cases hc; rfl)
          rw [listed_cons_cons, List.append_assoc, hb.skipSpace hspace, List.map_cons,
            items_cons_iff hcomma, List.forall_mem_cons, and_assoc]
          constructor
          · intro ⟨behind, hitem, hcases⟩
            obtain ⟨hok, rfl⟩ := (hread behind).mp hitem
            rw [hskip] at hcases
            cases hcases with
            | inl hlast => nomatch hlast.1
            | inr hmore =>
                rcases hmore with ⟨more, heq, hitems⟩
                rw [← (List.cons.inj heq).2] at hitems
                exact ⟨hok, hrest.mp hitems⟩
          · intro ⟨hok, hmore⟩
            exact ⟨_, (hread _).mpr ⟨hok, rfl⟩, Or.inr ⟨_, hskip _, hrest.mpr hmore⟩⟩

theorem enclosed_listed_iff {bs : List β} (hbs : ∀ b ∈ bs, Decides item text result ok close b)
    (hspace : ∀ c ∈ space, isSpace c = true) (htail : ∀ c ∈ tail, isSpace c = true)
    (hclose : isSpace close = false) (hscalar : isScalarByte close = false) (hcomma : close ≠ comma)
    (rest r : Bytes) :
    enclosed item close (listed space text bs ++ (tail ++ close :: rest)) = some (bs.map result, r) ↔
      (∀ b ∈ bs, ok b) ∧ r = rest := by
  cases bs with
  | nil =>
      have hskip : Json.skipSpace (tail ++ close :: rest) = close :: rest := by
        rw [skipSpace_append htail, skipSpace_cons hclose]
      simp [enclosed, hskip, eq_comm]
  | cons b bs =>
      have hb := hbs b List.mem_cons_self
      obtain ⟨c, behind, htext, -, hc⟩ := hb.start
      have hfirst : ∃ behind', listed space text (b :: bs) = space ++ text b ++ behind' := by
        cases bs with
        | nil => exact ⟨[], by simp⟩
        | cons b' bs => exact ⟨_, listed_cons_cons b b' bs⟩
      have hlength : (b :: bs).length ≤ (listed space text (b :: bs)).length := by
        apply length_le_length_listed
        intro b hb
        obtain ⟨c, behind, htext, -⟩ := (hbs b hb).start
        rw [htext]
        exact List.cons_ne_nil c behind
      rcases hfirst with ⟨behind', hbehind'⟩
      have hhead : (Json.skipSpace (listed space text (b :: bs) ++ (tail ++ close :: rest))).head? ≠
          some close := by
        rw [hbehind', List.append_assoc, hb.skipSpace hspace, htext]
        intro heq
        exact hc (Option.some.inj heq)
      rw [enclosed, if_neg hhead]
      apply items_listed_iff hbs (List.cons_ne_nil b bs) hspace htail hclose hscalar hcomma
      simp only [List.length_append]
      omega

end Decides

end Json
