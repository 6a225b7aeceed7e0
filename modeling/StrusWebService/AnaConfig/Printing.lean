import StrusWebService.AnaConfig.Commands
import StrusWebService.Library.Json.Layout
import Mathlib.Data.List.DropRight
import Mathlib.Logic.Function.Basic

/-! # Printing commands

The calls that print a command to the text of its section. Commas are decided by a
stack of counters that the calls of all sections share, line breaks are followed by
the tabs of `$indentstr`. `printCommand_eq` states what they come to: the text of one
value, `Command.entry`, behind a comma where it is not the first of its section.
-/

namespace StrusWebService.AnaConfig

open Json (quote comma openBrace closeBrace openBracket closeBracket newline quoted)
open Text (colon isDigit isSpace str)

/-- The state of the calls that print. `$indentstr` is given by the number of its tabs,
the last element of `@cntstk` comes first. -/
structure Output where
  outputmap : Channel → Option Bytes
  curchan : Channel
  indentstr : Nat
  cntstk : List Nat

/-- `^[\-]{0,1}[0-9]+$`. -/
def isInteger (val : Bytes) : Bool :=
  let unsigned := if val.head? = some 45 then val.tail else val
  unsigned ≠ [] && unsigned.all isDigit

/-- `^[\-]{0,1}[0-9]+[\.][0-9]{0,24}$`. -/
def isDecimal (val : Bytes) : Bool :=
  let unsigned := if val.head? = some 45 then val.tail else val
  let fraction := unsigned.dropWhile isDigit
  unsigned.takeWhile isDigit ≠ [] && fraction.head? = some 46 && fraction.tail.length ≤ 24 &&
    fraction.tail.all isDigit

namespace Output

variable (o : Output)

def printChan (arg : Bytes) : Output :=
  { o with
    outputmap := Function.update o.outputmap o.curchan
      (some ((o.outputmap o.curchan).getD [] ++ arg)) }

def printName (tagname : Bytes) : Output :=
  o.printChan (newline o.indentstr ++ (quoted tagname ++ [colon, 32]))

def printOpen : Output :=
  { o.printChan [openBrace] with
    indentstr := o.indentstr + 1
    cntstk := 0 :: o.cntstk }

def printClose : Output :=
  { o.printChan (newline (o.indentstr - 1) ++ [closeBrace]) with
    indentstr := o.indentstr - 1
    cntstk := o.cntstk.tail }

def printOpenar : Output :=
  { o.printChan [openBracket] with
    indentstr := o.indentstr + 1
    cntstk := 0 :: o.cntstk }

def printClosear : Output :=
  { o.printChan (newline (o.indentstr - 1) ++ [closeBracket]) with
    indentstr := o.indentstr - 1
    cntstk := o.cntstk.tail }

/-- The stack is never empty. -/
def printDelim : Output :=
  match o.cntstk with
  | [] => o
  | cnt :: below =>
      { (if cnt ≥ 1 then o.printChan [comma] else o) with
        cntstk := (cnt + 1) :: below }

def printInitDelim : Output := if (o.outputmap o.curchan).isSome then o.printDelim else o

def printValue (json : Json.Encoder) (val : Bytes) : Output :=
  if isInteger val then o.printChan val
  else if isDecimal val then o.printChan val
  else o.printChan (json.encode val)

end Output

/-! ### Functions -/

/-- `([a-zA-Z0-9_]+)[\(](.*)$`, found anywhere. -/
def searchFunction : Bytes → Option (Bytes × Bytes)
  | [] => none
  | c :: src =>
      if (c :: src).takeWhile isWord ≠ [] ∧ ((c :: src).dropWhile isWord).head? = some parenOpen then
        some ((c :: src).takeWhile isWord, ((c :: src).dropWhile isWord).tail)
      else searchFunction src

def fetchArg (src : Bytes) : Option (Bytes × Bytes) :=
  let src := src.dropWhile isSpace
  if src.takeWhile isIdent ≠ [] then some (src.takeWhile isIdent, src.dropWhile isIdent)
  else if src.head? = some quote ∧ quote ∈ src.tail then
    some (src.tail.takeWhile (· ≠ quote), (src.tail.dropWhile (· ≠ quote)).tail)
  else none

def fetchComma (src : Bytes) : Option Bytes :=
  let src := src.dropWhile isSpace
  if src.head? = some comma then some src.tail else none

/-- The loop over further arguments. `my ($aa,$def)` declares another `$def`, so the one
of the loop keeps the argument that was fetched. -/
def argumentsLoop : Nat → List Bytes → Bytes → Option (List Bytes)
  | 0, _, _ => none
  | fuel + 1, arg, src =>
      if src.all isSpace then some arg
      else
        (fetchComma src).bind fun src =>
          (fetchArg src).bind fun (aa, _) => argumentsLoop fuel (arg ++ [aa]) src

/-- `s/[\)]$//`. -/
def stripParen (src : Bytes) : Bytes :=
  if src.getLast? = some parenClose then src.dropLast else src

/-- `$nam` and `@arg` of `DEF_FUNCTION`. -/
def defFunction (src : Bytes) : Option (Bytes × List Bytes) :=
  match searchFunction src with
  | none => some (src, [])
  | some (nam, src) =>
      let src := stripParen src
      if src.all isSpace then some (nam, [])
      else
        (fetchArg src).bind fun (aa, src) =>
          (argumentsLoop (src.length + 1) [aa] src).map fun arg => (nam, arg)

/-- `split /[\,]/`, which gives no empty strings at the end. -/
def splitComma (src : Bytes) : List Bytes := (src.splitOn comma).rdropWhile (· = [])

/-- The name and the arguments of the function of an aggregator, where it has the form of one. -/
def aggregatorFunction (function : Bytes) : Option (Bytes × Option (List Bytes)) :=
  let funcname := function.takeWhile isWord
  let behind := function.dropWhile isWord
  if funcname = [] then none
  else if behind = [] then some (funcname, none)
  else if behind.head? = some parenOpen ∧ behind.tail.getLast? = some parenClose then
    some (funcname, some (splitComma behind.tail.dropLast))
  else none

/-! ### Document classes -/

/-- `(name|…)[=]([^;]*)$`, found anywhere. -/
def searchParameter (names : List Bytes) : Bytes → Option Bytes
  | [] => none
  | c :: src =>
      match names.findSome? fun name => (c :: src).dropPrefix? (name ++ [assign]) with
      | some val => if 59 ∈ val then searchParameter names src else some val
      | none => searchParameter names src

/-- `$mimetype`, `$encoding` and `$schema`. -/
structure DocumentClass where
  mimetype : Option Bytes
  encoding : Option Bytes
  schema : Option Bytes

def documentClassOf (documentClass : Bytes) : DocumentClass :=
  if assign ∈ documentClass then
    { mimetype := searchParameter [str "content", str "mimetype"] documentClass
      encoding := searchParameter [str "encoding", str "charset"] documentClass
      schema := searchParameter [str "schema"] documentClass }
  else
    { mimetype := some documentClass
      encoding := none
      schema := none }

/-! ### The commands -/

section Print

variable (json : Json.Encoder)

namespace Output

variable (o : Output)

/-- A member with a value. -/
def printMember (tagname val : Bytes) : Output := (o.printDelim.printName tagname).printValue json val

def printMember? (tagname : Bytes) : Option Bytes → Output
  | some val => o.printMember json tagname val
  | none => o

def printArg (arg : List Bytes) : Output :=
  (arg.foldl (fun o aa => o.printDelim.printValue json aa)
    (o.printDelim.printName (str "arg")).printOpenar).printClosear

def printFunction (nam : Bytes) (arg : List Bytes) : Output :=
  let o := o.printMember json (str "name") nam
  if arg ≠ [] then o.printArg json arg else o

/-- `DEF_FUNCTION` between the braces of an object. -/
def printDefFunction (src : Bytes) : Option Output :=
  (defFunction src).map fun (nam, arg) => (o.printOpen.printFunction json nam arg).printClose

def printNormalizers (normalizers : List Bytes) : Option Output :=
  (normalizers.foldlM (fun (o : Output) normalizer => o.printDelim.printDefFunction json normalizer)
    (o.printDelim.printName (str "normalizer")).printOpenar).map printClosear

def printOptions (options : List (Bytes × Bytes)) : Output :=
  if options ≠ [] then
    (options.foldl (fun o option => o.printMember json option.1 option.2)
      (o.printDelim.printName (str "option")).printOpen).printClose
  else o

def printAggregatorFunction : Option (Bytes × Option (List Bytes)) → Output
  | some (funcname, some arg) => (o.printMember json (str "name") funcname).printArg json arg
  | some (funcname, none) => o.printMember json (str "name") funcname
  | none => o

def printCommand : Command → Option Output
  | .feature name priority normalizers tokenizer options expression => do
      let o := o.printInitDelim.printOpen.printMember json (str "type") name
      let o ← (o.printDelim.printName (str "tokenizer")).printDefFunction json tokenizer
      let o ← o.printNormalizers json normalizers
      let o := (o.printMember? json (str "priority") priority).printOptions json options
      pure (o.printMember json (str "select") expression).printClose
  | .aggregator name function =>
      let o := o.printInitDelim.printOpen.printMember json (str "type") name
      let o := (o.printDelim.printName (str "function")).printOpen
      some (o.printAggregatorFunction json (aggregatorFunction function)).printClose.printClose
  | .content documentClass expression => do
      let parameters := documentClassOf documentClass
      let o := o.printInitDelim.printOpen.printMember json (str "select") expression
      let mimetype ← parameters.mimetype
      let o := o.printMember json (str "mime") mimetype
      let o := o.printMember? json (str "encoding") parameters.encoding
      pure (o.printMember? json (str "schema") parameters.schema).printClose
  | .document name expression =>
      let o := o.printInitDelim.printOpen.printMember json (str "name") name
      some (o.printMember json (str "select") expression).printClose
  | .field name scopeexpr selectexpr idexpr =>
      let o := o.printInitDelim.printOpen.printMember json (str "name") name
      let o := o.printMember json (str "scope") scopeexpr
      let o := o.printMember json (str "select") selectexpr
      let o := if idexpr ≠ [] then o.printMember json (str "key") idexpr else o
      some o.printClose
  | .structure name headername contentname classname =>
      let o := o.printInitDelim.printOpen.printMember json (str "name") name
      let o := o.printMember json (str "header") headername
      let o := o.printMember json (str "content") contentname
      some (o.printMember json (str "class") classname).printClose

end Output

end Print

/-! ### The value of a command -/

/-- What `VALUE` prints. -/
def valueOf (val : Bytes) : Json := if isInteger val || isDecimal val then .number val else .string val

def functionOf (nam : Bytes) (arg : List Bytes) : Json :=
  .object ((str "name", valueOf nam) ::
    if arg ≠ [] then [(str "arg", .array (arg.map valueOf))] else [])

/-- The function of an aggregator has its arguments even when there are none. -/
def aggregatorOf : Option (Bytes × Option (List Bytes)) → Json
  | some (funcname, some arg) =>
      .object [(str "name", valueOf funcname), (str "arg", .array (arg.map valueOf))]
  | some (funcname, none) => .object [(str "name", valueOf funcname)]
  | none => .object []

def member (tagname val : Bytes) : Bytes × Json := (tagname, valueOf val)

def member? (tagname : Bytes) (val : Option Bytes) : List (Bytes × Json) :=
  (val.map (member tagname)).toList

/-- The object of a command; `none` where the command is not accepted. -/
def Command.entry : Command → Option Json
  | .feature name priority normalizers tokenizer options expression => do
      let (nam, arg) ← defFunction tokenizer
      let functions ← normalizers.mapM defFunction
      pure (.object ([member (str "type") name, (str "tokenizer", functionOf nam arg),
        (str "normalizer", .array (functions.map fun f => functionOf f.1 f.2))] ++
        member? (str "priority") priority ++
        (if options ≠ [] then [(str "option", .object (options.map fun o => member o.1 o.2))] else []) ++
        [member (str "select") expression]))
  | .aggregator name function =>
      some (.object [member (str "type") name,
        (str "function", aggregatorOf (aggregatorFunction function))])
  | .content documentClass expression => do
      let parameters := documentClassOf documentClass
      let mimetype ← parameters.mimetype
      pure (.object ([member (str "select") expression, member (str "mime") mimetype] ++
        member? (str "encoding") parameters.encoding ++ member? (str "schema") parameters.schema))
  | .document name expression =>
      some (.object [member (str "name") name, member (str "select") expression])
  | .field name scopeexpr selectexpr idexpr =>
      some (.object ([member (str "name") name, member (str "scope") scopeexpr,
        member (str "select") selectexpr] ++
        if idexpr ≠ [] then [member (str "key") idexpr] else []))
  | .structure name headername contentname classname =>
      some (.object [member (str "name") name, member (str "header") headername,
        member (str "content") contentname, member (str "class") classname])

/-! ### Objects and arrays in the making -/

section Spec

variable (json : Json.Encoder)

namespace Output

variable (o : Output)

@[simp] theorem printChan_indentstr (arg : Bytes) : (o.printChan arg).indentstr = o.indentstr := rfl

@[simp] theorem printChan_cntstk (arg : Bytes) : (o.printChan arg).cntstk = o.cntstk := rfl

@[simp] theorem printChan_curchan (arg : Bytes) : (o.printChan arg).curchan = o.curchan := rfl

@[simp] theorem printChan_printChan (arg arg' : Bytes) :
    (o.printChan arg).printChan arg' = o.printChan (arg ++ arg') := by
  simp [printChan]

@[simp] theorem printDelim_indentstr : o.printDelim.indentstr = o.indentstr := by
  unfold printDelim
  split
  · rfl
  · split <;> rfl

@[simp] theorem printName_indentstr (tagname : Bytes) :
    (o.printName tagname).indentstr = o.indentstr := rfl

/-- An object has been opened and these members have been printed. -/
def inObject (members : List (Bytes × Json)) : Output :=
  { o.printChan (openBrace ::
      List.intercalate [comma] (Json.writeMembers json (o.indentstr + 1) members)) with
    indentstr := o.indentstr + 1
    cntstk := members.length :: o.cntstk }

/-- An array has been opened and these elements have been printed. -/
def inArray (elements : List Json) : Output :=
  { o.printChan (openBracket ::
      List.intercalate [comma] (Json.writeElements json (o.indentstr + 1) elements)) with
    indentstr := o.indentstr + 1
    cntstk := elements.length :: o.cntstk }

theorem printOpen_eq : o.printOpen = o.inObject json [] := rfl

theorem printOpenar_eq : o.printOpenar = o.inArray json [] := rfl

theorem printClose_inObject (members : List (Bytes × Json)) :
    (o.inObject json members).printClose =
      o.printChan (Json.write json o.indentstr (.object members)) := by
  simp [inObject, printClose, printChan, Json.write]

theorem printClosear_inArray (elements : List Json) :
    (o.inArray json elements).printClosear =
      o.printChan (Json.write json o.indentstr (.array elements)) := by
  simp [inArray, printClosear, printChan, Json.write]

/-- The calls print the text of a value and leave everything else as it is. -/
def Prints (print : Output → Output) (v : Json) : Prop :=
  ∀ o : Output, print o = o.printChan (Json.write json o.indentstr v)

theorem intercalate_concat (pieces : List Bytes) (piece : Bytes) :
    List.intercalate [comma] (pieces ++ [piece]) =
      List.intercalate [comma] pieces ++ ((if pieces.length ≥ 1 then [comma] else []) ++ piece) := by
  cases pieces with
  | nil => simp
  | cons first pieces =>
      rw [List.cons_append, intercalate_cons, intercalate_cons, List.flatMap_append]
      simp

variable {print : Output → Output} {v : Json}

theorem print_member (h : Prints json print v) (members : List (Bytes × Json)) (tagname : Bytes) :
    print ((o.inObject json members).printDelim.printName tagname) =
      o.inObject json (members ++ [(tagname, v)]) := by
  rw [h]
  simp only [inObject, printDelim, printName, Json.writeMembers_eq, List.map_append, List.map_cons,
    List.map_nil, intercalate_concat, List.length_map]
  split <;> simp [printChan, Json.writeMember]

theorem print_element (h : Prints json print v) (elements : List Json) :
    print (o.inArray json elements).printDelim = o.inArray json (elements ++ [v]) := by
  rw [h]
  simp only [inArray, printDelim, Json.writeElements_eq, List.map_append, List.map_cons,
    List.map_nil, intercalate_concat, List.length_map]
  split <;> simp [printChan]

theorem prints_value (val : Bytes) : Prints json (fun o => o.printValue json val) (valueOf val) := by
  intro o
  unfold printValue valueOf
  cases isInteger val with
  | true => simp [Json.write]
  | false =>
      cases isDecimal val with
      | true => simp [Json.write]
      | false => simp [Json.write]

theorem printMember_inObject (members : List (Bytes × Json)) (tagname val : Bytes) :
    (o.inObject json members).printMember json tagname val =
      o.inObject json (members ++ [member tagname val]) :=
  o.print_member json (prints_value json val) members tagname

theorem printMember?_inObject (members : List (Bytes × Json)) (tagname : Bytes)
    (val : Option Bytes) : (o.inObject json members).printMember? json tagname val =
      o.inObject json (members ++ member? tagname val) := by
  cases val with
  | none => simp [printMember?, member?]
  | some val => exact o.printMember_inObject json members tagname val

theorem foldl_value (arg : List Bytes) (elements : List Json) :
    arg.foldl (fun o aa => o.printDelim.printValue json aa) (o.inArray json elements) =
      o.inArray json (elements ++ arg.map valueOf) := by
  induction arg generalizing elements with
  | nil => simp
  | cons aa arg ih =>
      rw [List.foldl_cons, print_element json o (prints_value json aa), ih, List.map_cons,
        List.append_assoc, List.singleton_append]

theorem printArg_inObject (members : List (Bytes × Json)) (arg : List Bytes) :
    (o.inObject json members).printArg json arg =
      o.inObject json (members ++ [(str "arg", .array (arg.map valueOf))]) := by
  have hprints : Prints json (fun o => (arg.foldl (fun o aa => o.printDelim.printValue json aa)
      o.printOpenar).printClosear) (.array (arg.map valueOf)) := by
    intro o
    dsimp only
    rw [printOpenar_eq json, foldl_value, List.nil_append, printClosear_inArray]
  exact o.print_member json hprints members (str "arg")

theorem printFunction_inObject (nam : Bytes) (arg : List Bytes) :
    ((o.inObject json []).printFunction json nam arg).printClose =
      o.printChan (Json.write json o.indentstr (functionOf nam arg)) := by
  rw [printFunction, printMember_inObject]
  split
  · rename_i harg
    rw [printArg_inObject, printClose_inObject, functionOf, if_pos harg]
    rfl
  · rename_i harg
    rw [printClose_inObject, functionOf, if_neg harg]
    rfl

theorem prints_function (nam : Bytes) (arg : List Bytes) :
    Prints json (fun o => (o.printOpen.printFunction json nam arg).printClose)
      (functionOf nam arg) := by
  intro o
  dsimp only
  rw [printOpen_eq json, printFunction_inObject]

theorem printAggregatorFunction_inObject (function : Option (Bytes × Option (List Bytes))) :
    ((o.inObject json []).printAggregatorFunction json function).printClose =
      o.printChan (Json.write json o.indentstr (aggregatorOf function)) := by
  match function with
  | some (funcname, some arg) =>
      rw [printAggregatorFunction, printMember_inObject, printArg_inObject, printClose_inObject]
      rfl
  | some (funcname, none) =>
      rw [printAggregatorFunction, printMember_inObject, printClose_inObject]
      rfl
  | none => exact o.printClose_inObject json []

theorem foldl_member (options : List (Bytes × Bytes)) (members : List (Bytes × Json)) :
    options.foldl (fun o option => o.printMember json option.1 option.2) (o.inObject json members) =
      o.inObject json (members ++ options.map fun o => member o.1 o.2) := by
  induction options generalizing members with
  | nil => simp
  | cons option options ih =>
      rw [List.foldl_cons, printMember_inObject, ih, List.map_cons, List.append_assoc,
        List.singleton_append]

theorem printOptions_inObject (members : List (Bytes × Json)) (options : List (Bytes × Bytes)) :
    (o.inObject json members).printOptions json options =
      o.inObject json (members ++ if options ≠ [] then
        [(str "option", .object (options.map fun o => member o.1 o.2))] else []) := by
  have hprints : Prints json (fun o => (options.foldl
      (fun o option => o.printMember json option.1 option.2) o.printOpen).printClose)
      (.object (options.map fun o => member o.1 o.2)) := by
    intro o
    dsimp only
    rw [printOpen_eq json, foldl_member, List.nil_append, printClose_inObject]
  unfold printOptions
  split
  · exact o.print_member json hprints members (str "option")
  · rw [List.append_nil]

theorem foldlM_function (normalizers : List Bytes) (elements : List Json) :
    normalizers.foldlM (fun (o : Output) normalizer => o.printDelim.printDefFunction json normalizer)
        (o.inArray json elements) =
      (normalizers.mapM defFunction).map fun functions =>
        o.inArray json (elements ++ functions.map fun f => functionOf f.1 f.2) := by
  induction normalizers generalizing elements with
  | nil => simp
  | cons normalizer normalizers ih =>
      rw [List.foldlM_cons, List.mapM_cons, printDefFunction]
      cases defFunction normalizer with
      | none => rfl
      | some f =>
          have hprint := print_element json o (prints_function json f.1 f.2) elements
          simp only [Option.map_some, Option.bind_eq_bind, Option.bind_some]
          rw [hprint, ih]
          cases normalizers.mapM defFunction with
          | none => rfl
          | some functions => simp

theorem printNormalizers_inObject (members : List (Bytes × Json)) (normalizers : List Bytes) :
    (o.inObject json members).printNormalizers json normalizers =
      (normalizers.mapM defFunction).map fun functions =>
        o.inObject json (members ++
          [(str "normalizer", .array (functions.map fun f => functionOf f.1 f.2))]) := by
  have hopen : ∀ o : Output, (normalizers.foldlM (fun (o : Output) normalizer =>
      o.printDelim.printDefFunction json normalizer) o.printOpenar).map printClosear =
      (normalizers.mapM defFunction).map fun functions =>
        o.printChan (Json.write json o.indentstr
          (.array (functions.map fun f => functionOf f.1 f.2))) := by
    intro o
    rw [printOpenar_eq json, foldlM_function, Option.map_map]
    congr 1
    funext functions
    rw [Function.comp_apply, List.nil_append, printClosear_inArray]
  rw [printNormalizers, hopen]
  congr 1
  funext functions
  have hprints : Prints json (fun o => o.printChan (Json.write json o.indentstr
      (.array (functions.map fun f => functionOf f.1 f.2)))) _ := fun o => rfl
  exact o.print_member json hprints members (str "normalizer")

/-- A command prints its object, behind a comma where the section has been begun. -/
theorem printCommand_eq (c : Command) :
    o.printCommand json c =
      c.entry.map fun v => o.printInitDelim.printChan (Json.write json o.printInitDelim.indentstr v) := by
  generalize hstart : o.printInitDelim = o'
  cases c with
  | feature name priority normalizers tokenizer options expression =>
      rw [printCommand, hstart, Command.entry, printOpen_eq json, printMember_inObject,
        printDefFunction]
      cases defFunction tokenizer with
      | none => rfl
      | some f =>
          have htokenizer := print_member json o' (prints_function json f.1 f.2)
            [member (str "type") name] (str "tokenizer")
          simp only [Option.map_some, Option.bind_eq_bind, Option.bind_some, List.nil_append]
          rw [htokenizer, printNormalizers_inObject]
          cases normalizers.mapM defFunction with
          | none => rfl
          | some functions =>
              simp only [Option.map_some, Option.bind_some, printMember?_inObject,
                printOptions_inObject, printMember_inObject, printClose_inObject]
              rfl
  | aggregator name function =>
      have hfunction : Prints json (fun o =>
          (o.printOpen.printAggregatorFunction json (aggregatorFunction function)).printClose)
          (aggregatorOf (aggregatorFunction function)) := by
        intro o
        dsimp only
        rw [printOpen_eq json, printAggregatorFunction_inObject]
      have hmember := print_member json o' hfunction [member (str "type") name] (str "function")
      have htype := o'.printMember_inObject json [] (str "type") name
      rw [printCommand, hstart, Command.entry]
      rw [o'.printOpen_eq json, htype, List.nil_append, hmember, printClose_inObject]
      rfl
  | content documentClass expression =>
      rw [printCommand, hstart, Command.entry, printOpen_eq json, printMember_inObject]
      dsimp only
      cases (documentClassOf documentClass).mimetype with
      | none => rfl
      | some mimetype =>
          simp only [Option.bind_eq_bind, Option.bind_some, printMember_inObject,
            printMember?_inObject, printClose_inObject]
          rfl
  | document name expression =>
      rw [printCommand, hstart]
      simp only [printOpen_eq json, printMember_inObject, printClose_inObject, Command.entry]
      rfl
  | field name scopeexpr selectexpr idexpr =>
      rw [printCommand, hstart, Command.entry]
      simp only [printOpen_eq json, printMember_inObject]
      split
      · rw [printClose_inObject]
        rfl
      · rw [printClose_inObject]
        rfl
  | «structure» name headername contentname classname =>
      rw [printCommand, hstart]
      simp only [printOpen_eq json, printMember_inObject, printClose_inObject, Command.entry]
      rfl

end Output

end Spec

end StrusWebService.AnaConfig
