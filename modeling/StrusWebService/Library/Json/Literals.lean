import StrusWebService.Library.Json.Parser

/-! # JSON with another reading of strings

The grammar with the reader of string literals as a parameter. With the one of
RFC 8259 it is the parser of JSON texts. Items are read one by one here, each
behind the space that stands before it, so that they may be written in any layout.
-/

namespace Json

open Text (colon)

section Literals

variable (string : Reader Bytes)

def memberWith (value : Reader Json) : Reader (Bytes × Json) := fun text =>
  (string text).bind fun (key, text) =>
    match skipSpace text with
    | [] => none
    | c :: text =>
        if c = colon then (value (skipSpace text)).map fun (v, text) => ((key, v), text)
        else none

def valueWith : Nat → Reader Json
  | 0, _ => none
  | _ + 1, [] => none
  | depth + 1, c :: text =>
      if c = openBracket then
        (enclosed (valueWith depth) closeBracket text).map fun (vs, text) => (array vs, text)
      else if c = openBrace then
        (enclosed (memberWith string (valueWith depth)) closeBrace text).map fun (ms, text) =>
          (object ms, text)
      else if c = quote then (string (c :: text)).map fun (s, text) => (.string s, text)
      else scalar (c :: text)

def parseWith (text : Bytes) : Option Json :=
  (valueWith string (text.length + 1) (skipSpace text)).bind fun (v, text) =>
    if skipSpace text = [] then some v else none

end Literals

theorem memberWith_string? (value : Reader Json) : memberWith string? value = member value := rfl

theorem valueWith_string? (depth : Nat) : valueWith string? depth = value depth := by
  induction depth with
  | zero => rfl
  | succ depth ih =>
      funext text
      cases text with
      | nil => rfl
      | cons c text => rw [valueWith, value, ih, memberWith_string?]

/-- With the strings of RFC 8259 it is the parser of JSON texts. -/
theorem parseWith_string? (text : Bytes) : parseWith string? text = parse text := by
  unfold parseWith parse
  rw [valueWith_string?]

/-! ### Reading items one by one -/

section Items

variable {α : Type*} {item : Reader α} {close : UInt8} {text behind rest : Bytes} {a : α}
  {as : List α} {fuel : Nat}

theorem items_last (h : item text = some (a, behind)) (hbehind : skipSpace behind = close :: rest) :
    items item close (fuel + 1) text = some ([a], rest) := by
  rw [items, h]
  simp [hbehind]

theorem items_more (hcomma : close ≠ comma) (h : item text = some (a, comma :: behind))
    (hmore : items item close fuel (skipSpace behind) = some (as, rest)) :
    items item close (fuel + 1) text = some (a :: as, rest) := by
  have hskip : skipSpace (comma :: behind) = comma :: behind :=
    List.dropWhile_cons_of_neg (by decide)
  rw [items, h]
  simp [hskip, hcomma.symm, hmore]

theorem enclosed_nil (hbehind : skipSpace text = close :: rest) :
    enclosed item close text = some ([], rest) := by
  simp [enclosed, hbehind]

theorem enclosed_items (hhead : (skipSpace text).head? ≠ some close)
    (hitems : items item close (text.length + 1) (skipSpace text) = some (as, rest)) :
    enclosed item close text = some (as, rest) := by
  rw [enclosed, if_neg hhead, hitems]

end Items

end Json
