import StrusWebService.Form.ToJson
import StrusWebService.Library.Json.Writing
import Mathlib.Data.List.Forall2

/-! # What the loops write

The entries of a multimap with the same key stand next to each other. `formToJson`
writes one piece for each such group, separated by commas: the key, and its only
value or the array of its values in order.
-/

namespace StrusWebService.Form

open Json (quote comma openBracket closeBracket quoted)
open Text (colon)

/-- The runs of entries with the same key. -/
def groups : List Entry → List (Bytes × List Bytes)
  | [] => []
  | (key, value) :: form =>
      match groups form with
      | [] => [(key, [value])]
      | (key', values) :: gs =>
          if key' = key then (key, value :: values) :: gs
          else (key, [value]) :: (key', values) :: gs

/-- What is written for the encoded values of a key. -/
def valuesText : List Bytes → Bytes
  | [value] => quoted value
  | values => [32, openBracket] ++ List.intercalate [comma] (values.map quoted) ++ [closeBracket]

def groupText (key : Bytes) (values : List Bytes) : Bytes :=
  [10, 9, quote] ++ key ++ [quote, colon] ++ valuesText values

/-- The text of a group, if all its values are encoded. -/
def groupText? (enc : Bytes → Option Bytes) (g : Bytes × List Bytes) : Option Bytes :=
  (g.2.mapM enc).map (groupText g.1)

/-- Pieces separated by commas, `idx` of them being written already. -/
def separated (idx : Nat) (pieces : List Bytes) : Bytes :=
  if idx = 0 then List.intercalate [comma] pieces else pieces.flatMap (comma :: ·)

theorem separated_nil (idx : Nat) : separated idx [] = [] := by
  unfold separated
  split <;> rfl

theorem pushComma_separated (content piece : Bytes) (pieces : List Bytes) (idx : Nat) :
    pushComma content idx ++ piece ++ separated (idx + 1) pieces =
      content ++ separated idx (piece :: pieces) := by
  unfold pushComma separated
  split <;> simp_all [intercalate_cons]

theorem pushQuoted_eq (content value : Bytes) :
    pushQuoted content value = content ++ quoted value := by
  simp [pushQuoted, quoted]

/-- The group of the first entry takes the entries behind it that have its key. -/
theorem groups_cons (e : Entry) (form : List Entry) :
    groups (e :: form) =
      (e.1, e.2 :: (form.takeWhile (·.1 == e.1)).map Prod.snd) ::
        groups (form.dropWhile (·.1 == e.1)) := by
  induction form generalizing e with
  | nil => rfl
  | cons e' form ih =>
      rw [groups, ih e']
      by_cases hkey : e'.1 = e.1
      · simp [hkey]
      · simp [hkey, ← ih e']

/-! ### The loops -/

section Loops

variable {enc : Bytes → Option Bytes} {form : List Entry}

theorem deref_of_lt {i : Nat} (h : i < form.length) : deref form i = some form[i] :=
  List.getElem?_eq_getElem h

theorem next_of_lt {i : Nat} (h : i < form.length) : next form i = some (i + 1) := if_pos h

theorem valuesLoop_eq (enc : Bytes → Option Bytes) {fn : Nat} (hfn : fn ≤ form.length) (fuel : Nat) (content : Bytes)
    (fi eidx : Nat) (hfi : fi ≤ fn) (hfuel : fn - fi < fuel) :
    valuesLoop enc form fn fuel content fi eidx =
      (((form.drop fi).take (fn - fi)).mapM fun e => enc e.2).map fun values =>
        (content ++ separated eidx (values.map quoted), fn) := by
  induction fuel generalizing content fi eidx with
  | zero => omega
  | succ fuel ih =>
      rw [valuesLoop]
      by_cases heq : fi = fn
      · subst heq
        simp [separated_nil]
      · have hlt : fi < form.length := by omega
        have htake : fn - fi = fn - (fi + 1) + 1 := by omega
        rw [if_neg heq, deref_of_lt hlt, next_of_lt hlt, List.drop_eq_getElem_cons hlt, htake,
          List.take_succ_cons, List.mapM_cons, Option.bind_some]
        cases hvalue : enc form[fi].2 with
        | none => rfl
        | some value =>
            have hrest := ih (pushQuoted (pushComma content eidx) value) (fi + 1) (eidx + 1)
              (by omega) (by omega)
            rw [Option.bind_some, Option.bind_some, hrest]
            cases ((form.drop (fi + 1)).take (fn - (fi + 1))).mapM fun e => enc e.2 with
            | none => rfl
            | some values =>
                have hjoin := pushComma_separated content (quoted value)
                  (values.map quoted) eidx
                rw [← pushQuoted_eq] at hjoin
                exact congrArg (fun text => some (text, fn)) hjoin

theorem sameKey_eq {fi fn : Nat} {e : Entry} (he : form[fi]? = some e) (hfn : fn ≤ form.length) :
    sameKey form fi fn = some ((form.drop fn).head?.any (·.1 == e.1)) := by
  unfold sameKey
  split
  · rename_i heq
    simp [heq]
  · have hlt : fn < form.length := by omega
    rw [deref_of_lt hlt, deref, he, List.head?_drop, List.getElem?_eq_getElem hlt]
    rfl

theorem runEnd_eq {fi : Nat} {e : Entry} (he : form[fi]? = some e) (fuel fn : Nat)
    (hfn : fn ≤ form.length) (hfuel : form.length - fn < fuel) :
    runEnd form fi fuel fn = some (fn + ((form.drop fn).takeWhile (·.1 == e.1)).length) := by
  induction fuel generalizing fn with
  | zero => omega
  | succ fuel ih =>
      rw [runEnd, sameKey_eq he hfn, Option.bind_some]
      by_cases hend : fn = form.length
      · simp [hend]
      · have hlt : fn < form.length := by omega
        rw [List.drop_eq_getElem_cons hlt, List.head?_cons, Option.any_some]
        by_cases hkey : form[fn].1 = e.1
        · rw [if_pos (by simpa using hkey), next_of_lt hlt, Option.bind_some,
            ih (fn + 1) (by omega) (by omega), List.takeWhile_cons_of_pos (by simpa using hkey),
            List.length_cons]
          congr 1
          omega
        · rw [if_neg (by simpa using hkey), List.takeWhile_cons_of_neg (by simpa using hkey)]
          rfl

theorem take_length_takeWhile {α : Type*} (p : α → Bool) (as : List α) :
    as.take (as.takeWhile p).length = as.takeWhile p := by
  have h : (as.takeWhile p ++ as.dropWhile p).take (as.takeWhile p).length = as.takeWhile p :=
    List.take_left' rfl
  rwa [List.takeWhile_append_dropWhile] at h

theorem drop_length_takeWhile {α : Type*} (p : α → Bool) (as : List α) :
    as.drop (as.takeWhile p).length = as.dropWhile p := by
  have h : (as.takeWhile p ++ as.dropWhile p).drop (as.takeWhile p).length = as.dropWhile p :=
    List.drop_left' rfl
  rwa [List.takeWhile_append_dropWhile] at h

theorem head?_any_eq {α : Type*} (p : α → Bool) (as : List α) :
    as.head?.any p = !(as.takeWhile p).isEmpty := by
  cases as with
  | nil => rfl
  | cons a as => cases h : p a <;> simp [h]

theorem mapM_eq_some_iff {α β : Type} {f : α → Option β} {as : List α} {bs : List β} :
    as.mapM f = some bs ↔ List.Forall₂ (fun a b => f a = some b) as bs := by
  induction as generalizing bs with
  | nil =>
      rw [List.mapM_nil, List.forall₂_nil_left_iff]
      exact Option.some_inj.trans eq_comm
  | cons a as ih =>
      rw [List.mapM_cons, List.forall₂_cons_left_iff]
      cases f a with
      | none => simp
      | some b =>
          cases h : as.mapM f with
          | none => simp [← ih, h]
          | some bs' => simp [← ih, h, eq_comm]

theorem valuesText_of_two {values : List Bytes} (h : 2 ≤ values.length) :
    valuesText values =
      [32, openBracket] ++ List.intercalate [comma] (values.map quoted) ++ [closeBracket] := by
  match values, h with
  | _ :: _ :: _, _ => rfl

/-- What the loop appends for a group. -/
theorem appended_eq (content key : Bytes) (values : List Bytes) :
    content ++ [10, 9, quote] ++ key ++ [quote, colon] ++ valuesText values =
      content ++ groupText key values := by
  simp [groupText]

/-- A turn of the loop for a key that occurs once. -/
theorem entriesLoop_single {fuel fi : Nat} (hlt : fi < form.length)
    (hrun : (form.drop (fi + 1)).takeWhile (·.1 == form[fi].1) = []) (content : Bytes)
    (fidx : Nat) :
    entriesLoop enc form (fuel + 1) content fi fidx =
      (groupText? enc (form[fi].1, [form[fi].2])).bind fun piece =>
        entriesLoop enc form fuel (pushComma content fidx ++ piece) (fi + 1) (fidx + 1) := by
  have he : form[fi]? = some form[fi] := List.getElem?_eq_getElem hlt
  rw [entriesLoop, if_neg (Nat.ne_of_lt hlt), deref_of_lt hlt, next_of_lt hlt, Option.bind_some,
    Option.bind_some, sameKey_eq he hlt, Option.bind_some, head?_any_eq, hrun,
    if_neg (by decide), groupText?]
  simp only [List.mapM_cons, List.mapM_nil]
  cases enc form[fi].2 with
  | none => rfl
  | some value =>
      have hpiece := appended_eq (pushComma content fidx) form[fi].1 [value]
      rw [valuesText] at hpiece
      rw [Option.bind_some, Option.bind_some, pushQuoted_eq, hpiece]
      rfl

/-- A turn of the loop for a key with several values. -/
theorem entriesLoop_several {fuel fi : Nat} {e' : Entry} {run : List Entry}
    (hlt : fi < form.length)
    (hrun : (form.drop (fi + 1)).takeWhile (·.1 == form[fi].1) = e' :: run) (content : Bytes)
    (fidx : Nat) :
    entriesLoop enc form (fuel + 1) content fi fidx =
      (groupText? enc (form[fi].1, (form[fi] :: e' :: run).map Prod.snd)).bind fun piece =>
        entriesLoop enc form fuel (pushComma content fidx ++ piece)
          (fi + 1 + (e' :: run).length) (fidx + 1) := by
  have he : form[fi]? = some form[fi] := List.getElem?_eq_getElem hlt
  have htake := take_length_takeWhile (·.1 == form[fi].1) (form.drop (fi + 1))
  have hlength : ((form.drop (fi + 1)).takeWhile (·.1 == form[fi].1)).length ≤
      (form.drop (fi + 1)).length := (List.takeWhile_sublist _).length_le
  rw [hrun] at htake hlength
  rw [List.length_drop] at hlength
  have hfn : fi + 1 + (e' :: run).length ≤ form.length := by omega
  have hcount : fi + 1 + (e' :: run).length - fi = (e' :: run).length + 1 := by omega
  have hvalues := valuesLoop_eq enc hfn (form.length + 1)
    (pushComma content fidx ++ [10, 9, quote] ++ form[fi].1 ++ [quote, colon] ++
      [32, openBracket]) fi 0 (by omega) (by omega)
  rw [hcount, List.drop_eq_getElem_cons hlt, List.take_succ_cons, htake] at hvalues
  have hencoded : ((form[fi] :: e' :: run).map Prod.snd).mapM enc =
      (form[fi] :: e' :: run).mapM fun e => enc e.2 := by
    rw [List.mapM_map]
    rfl
  have hsame : (!(e' :: run).isEmpty) = true := rfl
  rw [entriesLoop, if_neg (Nat.ne_of_lt hlt), deref_of_lt hlt, next_of_lt hlt, Option.bind_some,
    Option.bind_some, sameKey_eq he hlt, Option.bind_some, head?_any_eq, hrun, if_pos hsame,
    runEnd_eq he _ _ hlt (by omega), hrun, Option.bind_some, hvalues, groupText?, hencoded]
  cases hmap : (form[fi] :: e' :: run).mapM fun e => enc e.2 with
  | none => rfl
  | some values =>
      have htwo : 2 ≤ values.length := by
        rw [← (mapM_eq_some_iff.mp hmap).length_eq]
        simp
      have hpiece := appended_eq (pushComma content fidx) form[fi].1 values
      have hprev : prev (fi + 1 + (e' :: run).length) = some (fi + (e' :: run).length) := by
        rw [prev, if_pos (by omega)]
        congr 1
        omega
      have hnext : next form (fi + (e' :: run).length) =
          some (fi + 1 + (e' :: run).length) := by
        rw [next_of_lt (by omega)]
        congr 1
        omega
      rw [valuesText_of_two htwo, ← List.append_assoc, ← List.append_assoc] at hpiece
      rw [Option.map_some, Option.bind_some]
      dsimp only
      rw [hprev, Option.bind_some, hnext, Option.bind_some, separated, if_pos rfl, hpiece]
      rfl

/-- A turn of the loop writes the piece of a group. -/
theorem entriesLoop_turn {fuel fi : Nat} (hlt : fi < form.length) (content : Bytes)
    (fidx : Nat) :
    entriesLoop enc form (fuel + 1) content fi fidx =
      (groupText? enc (form[fi].1, form[fi].2 ::
        ((form.drop (fi + 1)).takeWhile (·.1 == form[fi].1)).map Prod.snd)).bind fun piece =>
          entriesLoop enc form fuel (pushComma content fidx ++ piece)
            (fi + 1 + ((form.drop (fi + 1)).takeWhile (·.1 == form[fi].1)).length) (fidx + 1) := by
  cases hrun : (form.drop (fi + 1)).takeWhile (·.1 == form[fi].1) with
  | nil => exact entriesLoop_single hlt hrun content fidx
  | cons e' run => exact entriesLoop_several hlt hrun content fidx

/-- From the entry `fi` on, one piece is written for each group. -/
theorem entriesLoop_eq (enc : Bytes → Option Bytes) (form : List Entry) (fuel : Nat)
    (content : Bytes) (fi fidx : Nat) (hfi : fi ≤ form.length) (hfuel : form.length - fi < fuel) :
    entriesLoop enc form fuel content fi fidx =
      ((groups (form.drop fi)).mapM (groupText? enc)).map fun pieces =>
        content ++ separated fidx pieces := by
  induction fuel generalizing content fi fidx with
  | zero => omega
  | succ fuel ih =>
      by_cases hend : fi = form.length
      · rw [entriesLoop]
        simp [hend, groups, separated_nil]
      · have hlt : fi < form.length := by omega
        have hdrop := drop_length_takeWhile (·.1 == form[fi].1) (form.drop (fi + 1))
        have hlength : ((form.drop (fi + 1)).takeWhile (·.1 == form[fi].1)).length ≤
            (form.drop (fi + 1)).length := (List.takeWhile_sublist _).length_le
        rw [List.length_drop] at hlength
        rw [entriesLoop_turn hlt, List.drop_eq_getElem_cons hlt, groups_cons, List.mapM_cons,
          ← hdrop, List.drop_drop]
        cases groupText? enc (form[fi].1, form[fi].2 ::
            ((form.drop (fi + 1)).takeWhile (·.1 == form[fi].1)).map Prod.snd) with
        | none => rfl
        | some piece =>
            have hrest := ih (pushComma content fidx ++ piece)
              (fi + 1 + ((form.drop (fi + 1)).takeWhile (·.1 == form[fi].1)).length) (fidx + 1)
              (by omega) (by omega)
            rw [Option.bind_some, hrest]
            cases (groups (form.drop (fi + 1 +
                ((form.drop (fi + 1)).takeWhile (·.1 == form[fi].1)).length))).mapM
                  (groupText? enc) with
            | none => rfl
            | some pieces => exact congrArg some (pushComma_separated content _ pieces fidx)

theorem formToJson_eq (enc : Bytes → Option Bytes) (form : List Entry) :
    formToJson enc form =
      ((groups form).mapM (groupText? enc)).map fun pieces =>
        header ++ List.intercalate [comma] pieces ++ trailer := by
  have hloop := entriesLoop_eq enc form (form.length + 1) header 0 0 (Nat.zero_le _) (by omega)
  rw [formToJson, hloop, Option.map_map]
  rfl

end Loops

end StrusWebService.Form
