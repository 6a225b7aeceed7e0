import StrusWebService.Library.Json.Parser

/-! # URL parameters as JSON

`form_tojson` writes the parameters of a request as the content of an object. An
iterator is the index of its entry, the one behind the last entry being the end:
dereferencing or advancing it has no value, nor has stepping back from the first
entry. The encoding of the values is a parameter of the loops. `formToJson_eq`
states what they write: one piece for each group of entries with the same key.
-/

namespace StrusWebService.Form

open Json (quote backslash comma openBracket closeBracket openBrace closeBrace)
open Text (colon)

/-! ### json_value_encode -/

/-- The `switch` of `json_value_encode`. -/
def entityOf (c : UInt8) : Option Bytes :=
  if c = 10 then some [backslash, 110]
  else if c = 13 then some [backslash, 114]
  else if c = 8 then some [backslash, 98]
  else if c = 12 then some [backslash, 102]
  else if c = 9 then some [backslash, 116]
  else if c = quote then some [backslash, quote]
  else if c = backslash then some [backslash, backslash]
  else none

/-- `for (; vi != ve; ++vi)`, left with `vi` at an entity or at the end. -/
def scanEntity : Bytes → Option Bytes × Bytes
  | [] => (none, [])
  | c :: vi =>
      match entityOf c with
      | some entity => (some entity, c :: vi)
      | none => scanEntity vi

/-- `rt.append( vi, n)`: `n` bytes from `vi` on, which the value and its NUL must have. -/
def appendCount (rt vi : Bytes) (n : Nat) : Option Bytes :=
  if n ≤ vi.length + 1 then some (rt ++ (vi ++ [0]).take n) else none

/-- `rt.append( vi, entity)`: the range from `vi` to a pointer into another object,
which is no range. -/
def appendRange (_rt _vi _entity : Bytes) : Option Bytes := none

/-- The loop of `json_value_encode`, entered with `rt` and `vi`; `vi` is given by the
bytes up to `ve`. Each turn passes at least one. -/
def encodeLoop : Nat → Bytes → Bytes → Option Bytes
  | 0, _, _ => none
  | fuel + 1, rt, vi =>
      if vi = [] then some rt
      else
        let start := vi
        let (entity, vi) := scanEntity vi
        (appendCount rt vi (start.length - vi.length)).bind fun rt =>
          match entity with
          | none => encodeLoop fuel rt vi
          | some entity => (appendRange rt vi entity).bind fun rt => encodeLoop fuel rt vi.tail

def jsonValueEncode (value : Bytes) : Option Bytes := encodeLoop (value.length + 1) [] value

/-! ### form_tojson -/

abbrev Entry := Bytes × Bytes

def deref (form : List Entry) (i : Nat) : Option Entry := form[i]?

def next (form : List Entry) (i : Nat) : Option Nat := if i < form.length then some (i + 1) else none

def prev (i : Nat) : Option Nat := if 0 < i then some (i - 1) else none

/-- `fn != fe && fn->first == fi->first`. -/
def sameKey (form : List Entry) (fi fn : Nat) : Option Bool :=
  if fn = form.length then some false
  else (deref form fn).bind fun n => (deref form fi).map fun i => n.1 == i.1

/-- `for (; fn != fe && fn->first == fi->first; ++fn){}`. -/
def runEnd (form : List Entry) (fi : Nat) : Nat → Nat → Option Nat
  | 0, _ => none
  | fuel + 1, fn =>
      (sameKey form fi fn).bind fun same =>
        if same then (next form fn).bind (runEnd form fi fuel) else some fn

def pushComma (content : Bytes) (idx : Nat) : Bytes :=
  if idx ≠ 0 then content ++ [comma] else content

def pushQuoted (content value : Bytes) : Bytes := content ++ [quote] ++ value ++ [quote]

/-- `for (int eidx=0; fi != fn; ++fi,++eidx)`. -/
def valuesLoop (enc : Bytes → Option Bytes) (form : List Entry) (fn : Nat) :
    Nat → Bytes → Nat → Nat → Option (Bytes × Nat)
  | 0, _, _, _ => none
  | fuel + 1, content, fi, eidx =>
      if fi = fn then some (content, fi)
      else
        (deref form fi).bind fun e =>
          (enc e.2).bind fun value =>
            (next form fi).bind fun fi' =>
              valuesLoop enc form fn fuel (pushQuoted (pushComma content eidx) value) fi' (eidx + 1)

/-- `for (int fidx=0; fi != fe; ++fi,++fidx)`. -/
def entriesLoop (enc : Bytes → Option Bytes) (form : List Entry) :
    Nat → Bytes → Nat → Nat → Option Bytes
  | 0, _, _, _ => none
  | fuel + 1, content, fi, fidx =>
      if fi = form.length then some content
      else
        (deref form fi).bind fun e =>
          let content := pushComma content fidx ++ [10, 9, quote] ++ e.1 ++ [quote, colon]
          (next form fi).bind fun fn =>
            (sameKey form fi fn).bind fun same =>
              if same then
                (runEnd form fi (form.length + 1) fn).bind fun fn =>
                  (valuesLoop enc form fn (form.length + 1) (content ++ [32, openBracket]) fi 0).bind
                    fun (content, fi) =>
                      (prev fi).bind fun fi =>
                        (next form fi).bind fun fi =>
                          entriesLoop enc form fuel (content ++ [closeBracket]) fi (fidx + 1)
              else
                (enc e.2).bind fun value =>
                  (next form fi).bind fun fi =>
                    entriesLoop enc form fuel (pushQuoted content value) fi (fidx + 1)

def header : Bytes := [openBrace, 10, quote, 103, 101, 116, quote, colon, openBrace]

def trailer : Bytes := [10, closeBrace, closeBrace, 10]

def formToJson (enc : Bytes → Option Bytes) (form : List Entry) : Option Bytes :=
  (entriesLoop enc form (form.length + 1) header 0 0).map (· ++ trailer)

end StrusWebService.Form
