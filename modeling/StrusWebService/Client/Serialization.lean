import StrusWebService.Library.Json.Writing

/-! # Serialization of results

`serializationToJson` writes a list of tagged tokens as JSON. It keeps a stack of
open brackets and a pending name, and decides by the tag of the next token whether
a bracket opens an array and whether a comma is needed. `serialize_tokens` states
what it writes for the tokens of a tree.
-/

namespace StrusWebService.Client

open Json (quote backslash comma openBracket closeBracket openBrace closeBrace quoted)
open Text (colon)

def jsonEncodeValueMap (c : UInt8) : Option Bytes :=
  if c = 8 then some [backslash, 98]
  else if c = 12 then some [backslash, 102]
  else if c = 10 then some [backslash, 110]
  else if c = 13 then some [backslash, 114]
  else if c = 9 then some [backslash, 116]
  else if c = quote then some [backslash, quote]
  else if c = backslash then some [backslash, backslash]
  else none

def jsonEncodeValue (str : Bytes) : Bytes :=
  str.flatMap fun c => (jsonEncodeValueMap c).getD [c]

/-- The tags `(`, `)`, `=` and `:`. -/
def openTag : UInt8 := 40
def closeTag : UInt8 := 41
def valueTag : UInt8 := 61
def nameTag : UInt8 := 58

/-- The variables of the loop; the last element of `stk` comes first. -/
structure Serializer where
  name : Option Bytes := none
  rt : Bytes := [openBrace]
  indent : Bytes := [10]
  stk : List Nat := []

/-- `substr( $serialization[ $idx+1], 0, 1)`, if there is a next element. -/
def nextTag (next : Option Bytes) : Bytes := (next.getD []).take 1

def separator (next : Option Bytes) : Bytes :=
  if next.isSome ∧ nextTag next ≠ [closeTag] then [comma] else []

namespace Serializer

variable (s : Serializer)

def deeper : Bytes := s.indent ++ [32, 32]

/-- `substr( $indent, 0, -2)`. -/
def shallower : Bytes := s.indent.take (s.indent.length - 2)

def opened (next : Option Bytes) : Serializer :=
  match s.name with
  | some name =>
      if nextTag next = [openTag] ∨ nextTag next = [valueTag] then
        { name := none
          rt := s.rt ++ (s.indent ++ quoted name ++ [colon, 32, openBracket])
          indent := s.deeper
          stk := 1 :: s.stk }
      else
        { name := none
          rt := s.rt ++ (s.indent ++ quoted name ++ [colon, 32, openBrace])
          indent := s.deeper
          stk := 0 :: s.stk }
  | none =>
      { s with
        rt := s.rt ++ (s.indent ++ [openBrace])
        indent := s.deeper
        stk := 0 :: s.stk }

def valued (val : Bytes) (next : Option Bytes) : Serializer :=
  match s.name with
  | some name =>
      { s with
        name := none
        rt := s.rt ++ (s.indent ++ quoted name ++ colon :: quoted val ++ separator next) }
  | none => { s with rt := s.rt ++ (quoted val ++ separator next) }

def closed (next : Option Bytes) : Serializer :=
  { name := none
    rt := s.rt ++ ((if s.stk.head? = some 1 then closeBracket else closeBrace) :: separator next)
    indent := s.shallower
    stk := s.stk.tail }

end Serializer

/-- The body of the loop; an unknown tag ends the program. -/
def serializeToken (s : Serializer) (elem : Bytes) (next : Option Bytes) : Option Serializer :=
  let tag := elem.take 1
  let val := jsonEncodeValue (elem.drop 1)
  if tag = [openTag] then some (s.opened next)
  else if tag = [valueTag] then some (s.valued val next)
  else if tag = [nameTag] then some { s with name := some val }
  else if tag = [closeTag] then some (s.closed next)
  else none

def serialize : Serializer → List Bytes → Option Serializer
  | s, [] => some s
  | s, elem :: serialization =>
      (serializeToken s elem serialization.head?).bind fun s => serialize s serialization

def serializationToJson (serialization : List Bytes) : Option Bytes :=
  (serialize {} serialization).map fun s => s.rt ++ [10, closeBrace, 10]

/-! ### Trees -/

mutual

/-- The members of an object. -/
inductive Members where
  | nil
  | member (name : Bytes) (value : Value) (rest : Members)

/-- An array has a first element. -/
inductive Value where
  | string (s : Bytes)
  | object (members : Members)
  | array (first : Element) (rest : Elements)

inductive Elements where
  | nil
  | element (first : Element) (rest : Elements)

inductive Element where
  | string (s : Bytes)
  | object (members : Members)

end

mutual

/-- The tokens the callers build. -/
def Members.tokens : Members → List Bytes
  | .nil => []
  | .member name value rest => (nameTag :: name) :: (value.tokens ++ rest.tokens)

def Value.tokens : Value → List Bytes
  | .string s => [valueTag :: s]
  | .object members => [openTag] :: (members.tokens ++ [[closeTag]])
  | .array first rest => [openTag] :: (first.tokens ++ rest.tokens ++ [[closeTag]])

def Elements.tokens : Elements → List Bytes
  | .nil => []
  | .element first rest => first.tokens ++ rest.tokens

def Element.tokens : Element → List Bytes
  | .string s => [valueTag :: s]
  | .object members => [openTag] :: (members.tokens ++ [[closeTag]])

end

mutual

/-- The tree as a JSON value. -/
def Members.toJson : Members → List (Bytes × Json)
  | .nil => []
  | .member name value rest => (name, value.toJson) :: rest.toJson

def Value.toJson : Value → Json
  | .string s => .string s
  | .object members => .object members.toJson
  | .array first rest => .array (first.toJson :: rest.toJson)

def Elements.toJson : Elements → List Json
  | .nil => []
  | .element first rest => first.toJson :: rest.toJson

def Element.toJson : Element → Json
  | .string s => .string s
  | .object members => .object members.toJson

end

/-! ### The text -/

/-- The comma before further members. -/
def Members.comma : Members → Bytes
  | .nil => []
  | .member _ _ _ => [Json.comma]

def Elements.comma : Elements → Bytes
  | .nil => []
  | .element _ _ => [Json.comma]

mutual

/-- What is written for a tree at an indentation. -/
def Members.text (indent : Bytes) : Members → Bytes
  | .nil => []
  | .member name value rest =>
      indent ++ quoted (jsonEncodeValue name) ++ colon :: value.text indent ++ rest.comma ++
        rest.text indent

def Value.text (indent : Bytes) : Value → Bytes
  | .string s => quoted (jsonEncodeValue s)
  | .object members => 32 :: openBrace :: (members.text (indent ++ [32, 32]) ++ [closeBrace])
  | .array first rest =>
      32 :: openBracket :: (first.text (indent ++ [32, 32]) ++ rest.comma ++
        rest.text (indent ++ [32, 32]) ++ [closeBracket])

def Elements.text (indent : Bytes) : Elements → Bytes
  | .nil => []
  | .element first rest => first.text indent ++ rest.comma ++ rest.text indent

def Element.text (indent : Bytes) : Element → Bytes
  | .string s => quoted (jsonEncodeValue s)
  | .object members => indent ++ openBrace :: (members.text (indent ++ [32, 32]) ++ [closeBrace])

end

section Run

variable {name : Bytes} {rt indent : Bytes} {stk : List Nat} {more : List Bytes}

@[simp] theorem serialize_cons (s : Serializer) (elem : Bytes) (serialization : List Bytes) :
    serialize s (elem :: serialization) =
      (serializeToken s elem serialization.head?).bind fun s => serialize s serialization := rfl

theorem separator_members (h : separator more.head? = []) (ms : Members) :
    separator (ms.tokens ++ more).head? = ms.comma := by
  cases ms with
  | nil => exact h
  | member name value rest => rw [Members.tokens]; rfl

theorem separator_elements (h : separator more.head? = []) (es : Elements) :
    separator (es.tokens ++ more).head? = es.comma := by
  cases es with
  | nil => exact h
  | element first rest =>
      cases first with
      | string s => rw [Elements.tokens, Element.tokens]; rfl
      | object members => rw [Elements.tokens, Element.tokens]; rfl

theorem serializeToken_open (s : Serializer) (next : Option Bytes) :
    serializeToken s [openTag] next = some (s.opened next) := rfl

theorem serializeToken_value (s : Serializer) (val : Bytes) (next : Option Bytes) :
    serializeToken s (valueTag :: val) next = some (s.valued (jsonEncodeValue val) next) := rfl

theorem serializeToken_name (s : Serializer) (name : Bytes) (next : Option Bytes) :
    serializeToken s (nameTag :: name) next = some { s with name := some (jsonEncodeValue name) } :=
  rfl

theorem serializeToken_close (s : Serializer) (next : Option Bytes) :
    serializeToken s [closeTag] next = some (s.closed next) := rfl

theorem shallower_deeper (rt indent : Bytes) (stk : List Nat) :
    ({ rt := rt, indent := indent ++ [32, 32], stk := stk } : Serializer).shallower = indent := by
  simp [Serializer.shallower]

/-- A bracket opens an object where members or its end follow. -/
theorem opened_object {k : Bytes} (ms : Members) :
    ({ name := some k, rt := rt, indent := indent, stk := stk } : Serializer).opened
        (ms.tokens ++ [closeTag] :: more).head? =
      { rt := rt ++ (indent ++ quoted k ++ [colon, 32, openBrace])
        indent := indent ++ [32, 32]
        stk := 0 :: stk } := by
  cases ms with
  | nil => rfl
  | member name value rest => rw [Members.tokens]; rfl

/-- And an array where an element follows. -/
theorem opened_array {k : Bytes} (first : Element) (es : Elements) :
    ({ name := some k, rt := rt, indent := indent, stk := stk } : Serializer).opened
        (first.tokens ++ es.tokens ++ [closeTag] :: more).head? =
      { rt := rt ++ (indent ++ quoted k ++ [colon, 32, openBracket])
        indent := indent ++ [32, 32]
        stk := 1 :: stk } := by
  cases first with
  | string s => rw [Element.tokens]; rfl
  | object members => rw [Element.tokens]; rfl

theorem separator_close : separator ([closeTag] :: more).head? = [] := rfl

mutual

/-- The tokens of a tree add its text and a comma if something follows. -/
theorem serialize_members (ms : Members) (rt indent : Bytes) (stk : List Nat)
    (more : List Bytes) (h : separator more.head? = []) :
    serialize { rt := rt, indent := indent, stk := stk } (ms.tokens ++ more) =
      serialize { rt := rt ++ ms.text indent, indent := indent, stk := stk } more := by
  cases ms with
  | nil => rw [Members.tokens, Members.text, List.nil_append, List.append_nil]
  | member name value rest =>
      rw [Members.tokens, List.cons_append, serialize_cons, serializeToken_name, Option.bind_some,
        List.append_assoc, serialize_value value, separator_members h, serialize_members rest _ _ _ _ h,
        Members.text]
      simp only [List.append_assoc, List.cons_append]

theorem serialize_value (v : Value) (name rt indent : Bytes) (stk : List Nat)
    (more : List Bytes) :
    serialize { name := some name, rt := rt, indent := indent, stk := stk } (v.tokens ++ more) =
      serialize
        { rt := rt ++ (indent ++ quoted name ++ colon :: v.text indent ++ separator more.head?)
          indent := indent
          stk := stk } more := by
  cases v with
  | string s =>
      rw [Value.tokens, List.singleton_append, serialize_cons, serializeToken_value]
      rfl
  | object members =>
      rw [Value.tokens, List.cons_append, List.append_assoc, List.singleton_append, serialize_cons,
        serializeToken_open, Option.bind_some, opened_object,
        serialize_members members _ _ _ _ separator_close, serialize_cons, serializeToken_close,
        Option.bind_some, Serializer.closed, shallower_deeper, Value.text]
      simp
  | array first rest =>
      rw [Value.tokens, List.cons_append, List.append_assoc, List.singleton_append, serialize_cons,
        serializeToken_open, Option.bind_some, opened_array, List.append_assoc first.tokens,
        serialize_element first, separator_elements separator_close,
        serialize_elements rest _ _ _ _ separator_close, serialize_cons, serializeToken_close,
        Option.bind_some, Serializer.closed, shallower_deeper, Value.text]
      simp

theorem serialize_elements (es : Elements) (rt indent : Bytes) (stk : List Nat)
    (more : List Bytes) (h : separator more.head? = []) :
    serialize { rt := rt, indent := indent, stk := stk } (es.tokens ++ more) =
      serialize { rt := rt ++ es.text indent, indent := indent, stk := stk } more := by
  cases es with
  | nil => rw [Elements.tokens, Elements.text, List.nil_append, List.append_nil]
  | element first rest =>
      rw [Elements.tokens, List.append_assoc, serialize_element first, separator_elements h,
        serialize_elements rest _ _ _ _ h, Elements.text]
      simp only [List.append_assoc]

theorem serialize_element (e : Element) (rt indent : Bytes) (stk : List Nat) (more : List Bytes) :
    serialize { rt := rt, indent := indent, stk := stk } (e.tokens ++ more) =
      serialize
        { rt := rt ++ (e.text indent ++ separator more.head?), indent := indent, stk := stk }
        more := by
  cases e with
  | string s =>
      rw [Element.tokens, List.singleton_append, serialize_cons, serializeToken_value]
      rfl
  | object members =>
      rw [Element.tokens, List.cons_append, List.append_assoc, List.singleton_append,
        serialize_cons, serializeToken_open, Option.bind_some, Serializer.opened, Serializer.deeper,
        serialize_members members _ _ _ _ separator_close, serialize_cons, serializeToken_close,
        Option.bind_some, Serializer.closed, shallower_deeper, Element.text]
      simp

end

end Run

/-- What is written for the tokens of an object. -/
theorem serializationToJson_tokens (ms : Members) :
    serializationToJson ms.tokens =
      some (openBrace :: (ms.text [10] ++ [10, closeBrace, 10])) := by
  have hrun := serialize_members ms [openBrace] [10] [] [] rfl
  rw [List.append_nil] at hrun
  rw [serializationToJson, hrun, serialize, Option.map_some, List.append_assoc,
    List.singleton_append]

end StrusWebService.Client
