import Mathlib.Data.List.Basic
import StrusWebService.Library.Text
import Mathlib.Algebra.Order.Ring.Nat

/-! # A parser for JSON texts

The grammar of RFC 8259 on bytes. The parser is recursive in the depth of the
value and reads a text from left to right, whitespace between the tokens being
passed over by the reader of what follows or what encloses. Strings are byte
sequences: bytes from 128 on are kept as they are, an escaped code point becomes
its UTF-8 sequence. An object keeps all its members, in the order of the text.
-/

inductive Json where
  | null
  | bool (value : Bool)
  | number (literal : Bytes)
  | string (value : Bytes)
  | array (elements : List Json)
  | object (members : List (Bytes × Json))

namespace Json

open Text (colon isDigit)

abbrev Reader (α : Type*) := Bytes → Option (α × Bytes)

def quote : UInt8 := 34
def backslash : UInt8 := 92
def comma : UInt8 := 44
def openBracket : UInt8 := 91
def closeBracket : UInt8 := 93
def openBrace : UInt8 := 123
def closeBrace : UInt8 := 125

def isSpace (c : UInt8) : Bool := c == 32 || c == 9 || c == 10 || c == 13

def skipSpace (text : Bytes) : Bytes := text.dropWhile isSpace

/-! ### Strings -/

def hexDigit (c : UInt8) : Option Nat :=
  if 48 ≤ c ∧ c ≤ 57 then some (c.toNat - 48)
  else if 97 ≤ c ∧ c ≤ 102 then some (c.toNat - 87)
  else if 65 ≤ c ∧ c ≤ 70 then some (c.toNat - 55)
  else none

def hexQuad : Reader Nat
  | a :: b :: c :: d :: text => do
      let a ← hexDigit a
      let b ← hexDigit b
      let c ← hexDigit c
      let d ← hexDigit d
      some (((a * 16 + b) * 16 + c) * 16 + d, text)
  | _ => none

/-- The UTF-8 sequence of a code point. -/
def utf8 (u : Nat) : Bytes :=
  if u < 0x80 then [.ofNat u]
  else if u < 0x800 then [.ofNat (0xC0 + u / 64), .ofNat (0x80 + u % 64)]
  else if u < 0x10000 then
    [.ofNat (0xE0 + u / 4096), .ofNat (0x80 + u / 64 % 64), .ofNat (0x80 + u % 64)]
  else
    [.ofNat (0xF0 + u / 262144 % 8), .ofNat (0x80 + u / 4096 % 64), .ofNat (0x80 + u / 64 % 64),
      .ofNat (0x80 + u % 64)]

/-- The digits behind `\u`; a high surrogate takes the escape behind it along. -/
def unicodeEscape : Reader Bytes := fun text =>
  (hexQuad text).bind fun (u, text) =>
    if 0xD800 ≤ u ∧ u < 0xDC00 then
      match text with
      | 92 :: 117 :: text =>
          (hexQuad text).bind fun (v, text) =>
            if 0xDC00 ≤ v ∧ v < 0xE000 then
              some (utf8 (0x10000 + (u - 0xD800) * 1024 + (v - 0xDC00)), text)
            else none
      | _ => none
    else if 0xDC00 ≤ u ∧ u < 0xE000 then none
    else some (utf8 u, text)

/-- What the escapes of one letter stand for. -/
def escapeLetter (c : UInt8) : Option UInt8 :=
  if c = quote then some quote
  else if c = backslash then some backslash
  else if c = 47 then some 47
  else if c = 98 then some 8
  else if c = 102 then some 12
  else if c = 110 then some 10
  else if c = 114 then some 13
  else if c = 116 then some 9
  else none

/-- What stands behind a backslash. -/
def escape : Reader Bytes
  | [] => none
  | c :: text =>
      if c = 117 then unicodeEscape text
      else (escapeLetter c).map fun d => ([d], text)

/-- One character of a string that is not its closing quote. -/
def character : Reader Bytes
  | [] => none
  | c :: text =>
      if c = backslash then escape text
      else if c < 32 ∨ c = quote then none
      else some ([c], text)

/-- The characters of a string up to its closing quote. -/
def characters : Nat → Reader Bytes
  | 0, _ => none
  | fuel + 1, text =>
      if text.head? = some quote then some ([], text.tail)
      else
        (character text).bind fun (c, text) =>
          (characters fuel text).map fun (s, text) => (c ++ s, text)

/-- A string with its quotes. -/
def string? : Reader Bytes
  | [] => none
  | c :: text => if c = quote then characters (text.length + 1) text else none

/-! ### Numbers and words -/

def digits (text : Bytes) : Option Bytes :=
  if text.takeWhile isDigit = [] then none else some (text.dropWhile isDigit)

def integerPart (text : Bytes) : Option Bytes :=
  if text.head? = some 48 then some text.tail else digits text

def fractionPart (text : Bytes) : Option Bytes :=
  if text.head? = some 46 then digits text.tail else some text

def exponentPart (text : Bytes) : Option Bytes :=
  if text.head? = some 101 ∨ text.head? = some 69 then
    if text.tail.head? = some 43 ∨ text.tail.head? = some 45 then digits text.tail.tail
    else digits text.tail
  else some text

def isNumber (literal : Bytes) : Bool :=
  let unsigned := if literal.head? = some 45 then literal.tail else literal
  ((integerPart unsigned).bind fractionPart).bind exponentPart == some []

/-- The bytes numbers and words are made of; none of them can follow either. -/
def isScalarByte (c : UInt8) : Bool :=
  isDigit c || c == 43 || c == 45 || c == 46 || (65 ≤ c && c ≤ 90) || (97 ≤ c && c ≤ 122)

def scalarOf (literal : Bytes) : Option Json :=
  if literal = [110, 117, 108, 108] then some null
  else if literal = [116, 114, 117, 101] then some (bool true)
  else if literal = [102, 97, 108, 115, 101] then some (bool false)
  else if isNumber literal then some (number literal)
  else none

def scalar : Reader Json := fun text =>
  (scalarOf (text.takeWhile isScalarByte)).map fun v => (v, text.dropWhile isScalarByte)

/-! ### Arrays, objects and texts -/

/-- Items separated by commas, at least one, up to the closing byte. -/
def items {α : Type*} (item : Reader α) (close : UInt8) : Nat → Reader (List α)
  | 0, _ => none
  | fuel + 1, text =>
      (item text).bind fun (a, text) =>
        match skipSpace text with
        | [] => none
        | c :: text =>
            if c = close then some ([a], text)
            else if c = comma then
              (items item close fuel (skipSpace text)).map fun (as, text) => (a :: as, text)
            else none

/-- What stands behind an opening bracket, up to the closing one. -/
def enclosed {α : Type*} (item : Reader α) (close : UInt8) : Reader (List α) := fun text =>
  let inner := skipSpace text
  if inner.head? = some close then some ([], inner.tail)
  else items item close (text.length + 1) inner

def member (value : Reader Json) : Reader (Bytes × Json) := fun text =>
  (string? text).bind fun (key, text) =>
    match skipSpace text with
    | [] => none
    | c :: text =>
        if c = colon then (value (skipSpace text)).map fun (v, text) => ((key, v), text)
        else none

/-- A value of at most this depth, without the whitespace around it. -/
def value : Nat → Reader Json
  | 0, _ => none
  | _ + 1, [] => none
  | depth + 1, c :: text =>
      if c = openBracket then
        (enclosed (value depth) closeBracket text).map fun (vs, text) => (array vs, text)
      else if c = openBrace then
        (enclosed (member (value depth)) closeBrace text).map fun (ms, text) => (object ms, text)
      else if c = quote then (string? (c :: text)).map fun (s, text) => (string s, text)
      else scalar (c :: text)

/-- A text is one value with whitespace around it. -/
def parse (text : Bytes) : Option Json :=
  (value (text.length + 1) (skipSpace text)).bind fun (v, text) =>
    if skipSpace text = [] then some v else none

end Json
