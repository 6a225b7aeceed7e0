import StrusWebService.Form.ToJson
import StrusWebService.Library.Json.Writing

/-! # The encoding of a value

`json_value_encode` looks for the next byte that needs an escape and then appends
from where it stands, instead of the stretch it has passed. The empty value is the
only one that is given back by decoding what is written for it.
-/

namespace StrusWebService.Form

open Json (quoted)

/-- The encoding is computed, and decoding it between quotes gives the value back. -/
def DecodesBack (value : Bytes) : Prop :=
  ∃ encoded, jsonValueEncode value = some encoded ∧
    Json.string? (quoted encoded) = some (value, [])

theorem scanEntity_snd {vi behind : Bytes} (h : scanEntity vi = (none, behind)) : behind = [] := by
  induction vi with
  | nil =>
      cases h
      rfl
  | cons c vi ih =>
      rw [scanEntity] at h
      split at h
      · nomatch h
      · exact ih h

/-- Only the empty value is encoded as itself; what stands for another one, if
anything, is a NUL. -/
theorem jsonValueEncode_eq_some {value encoded : Bytes} (h : jsonValueEncode value = some encoded) :
    value = [] ∧ encoded = [] ∨ encoded = [0] := by
  rw [jsonValueEncode, encodeLoop] at h
  split at h
  · rename_i hempty
    cases h
    exact Or.inl ⟨hempty, rfl⟩
  · rename_i hne
    obtain ⟨rt, hrt, hmore⟩ := Option.bind_eq_some_iff.mp h
    cases hscan : scanEntity value with
    | mk entity vi =>
        rw [hscan] at hrt hmore
        cases entity with
        | some entity => nomatch hmore
        | none =>
            obtain rfl := scanEntity_snd hscan
            unfold appendCount at hrt
            split at hrt
            · rename_i hcount
              have hone : value.length = 1 := by
                have hpos := List.length_pos_iff.mpr hne
                simp only [List.length_nil] at hcount
                omega
              cases hrt
              rw [hone] at hmore
              cases hmore
              exact Or.inr rfl
            · nomatch hrt

/-- A value is given back if and only if it is empty. -/
theorem decodesBack_iff (value : Bytes) : DecodesBack value ↔ value = [] := by
  constructor
  · intro h
    rcases h with ⟨encoded, hencoded, hdecoded⟩
    cases jsonValueEncode_eq_some hencoded with
    | inl hempty => exact hempty.1
    | inr hnul =>
        rw [hnul] at hdecoded
        nomatch hdecoded
  · intro h
    subst h
    exact ⟨[], rfl, rfl⟩

/-- The value `b` is encoded as a NUL, which no string may contain; two bytes are
looked for behind the value and its NUL. -/
theorem decodesBack_fails :
    ¬DecodesBack [98] ∧ jsonValueEncode [98] = some [0] ∧ Json.string? (quoted [0]) = none ∧
      jsonValueEncode [97, 98] = none := by
  refine ⟨?_, rfl, rfl, rfl⟩
  intro h
  cases h with
  | intro encoded h =>
      cases h.1
      nomatch h.2

end StrusWebService.Form
