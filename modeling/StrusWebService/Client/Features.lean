import StrusWebService.Client.Dump

/-! # The vectors of features

`getFeatureVectors.pl` reads a list of feature values, asks the server for the types of each
of them and for the vector of each type, and prints what it has got. A request that fails
leaves out the feature, and the script goes on. The input is read as bytes, the strings of an
answer are decoded: their characters, up to 255 here, are those of Unicode for `\s`.
-/

namespace StrusWebService.Client

open Json (parseWith)
open Text (isSpace str)

/-! ### Input -/

/-- What the script reads from outside besides the server: files, which may fail to open,
and the standard input. -/
structure Input where
  readFile : Bytes → Option Bytes
  stdin : Bytes

/-- The content an argument stands for. -/
def readInput (input : Input) (content : Bytes) : Option Bytes :=
  if content = [] ∨ content = str "0" then some content
  else if content.take 1 = str "@" then input.readFile (content.drop 1)
  else if content = str "-" then some input.stdin
  else some content

/-- `readInput( $content, '@')`. -/
def readInputList (input : Input) (content : Bytes) : Option (List Bytes) :=
  (readInput input content).map (splitFields 10)

/-- `\s` on a string that `from_json` has decoded. -/
def isSpaceDecoded (c : UInt8) : Bool := isSpace c || c == 0x85 || c == 0xA0

/-- `trim`, for what `\s` matches in the string. -/
def trim (space : UInt8 → Bool) (s : Bytes) : Bytes := (s.dropWhile space).rdropWhile space

/-! ### The script -/

structure Feature where
  name : Bytes
  type : Bytes
  vector : List Bytes
  deriving DecidableEq, Repr

def Feature.tokens (f : Feature) : List Bytes :=
  if f.vector = [] then
    [[openTag], Client.name "name", value f.name, Client.name "type", value f.type, [closeTag]]
  else
    [[openTag], Client.name "name", value f.name, Client.name "type", value f.type,
      Client.name "vector", [openTag]] ++ f.vector.map value ++ [[closeTag], [closeTag]]

section Script

variable (server : Server)

/-- The vector of a type of a feature, if the server has it. -/
def vectorOf (url featurevalue featuretype : Bytes) : List Feature :=
  if trim isSpaceDecoded featuretype = [] then []
  else
    let url := url ++ str "/" ++ server.encode (trim isSpaceDecoded featuretype)
    match server.issueRequest url with
    | none => []
    | some reply =>
        [{ name := featurevalue
           type := trim isSpaceDecoded featuretype
           vector := readList server (selectResult reply [str "vstorage", str "value"]) }]

/-- The features with a value, one for each of its types. -/
def featuresOf (storageurl featurevalue : Bytes) : List Feature :=
  if trim isSpace featurevalue = [] then []
  else
    let url := storageurl ++ str "/feature/" ++ server.encode (trim isSpace featurevalue)
    match server.issueRequest url with
    | none => []
    | some reply =>
        (readList server (selectResult reply [str "vstorage", str "link"])).flatMap
          (vectorOf server url (trim isSpace featurevalue))

end Script

/-! ### What is printed -/

/-- The vector is left out if it is empty. -/
def vectorMembers : List Bytes → Members
  | [] => .nil
  | scalars => .member (str "vector") (sectionValue (scalars.map .string)) .nil

def Feature.element (f : Feature) : Element :=
  .object (.member (str "name") (.string f.name)
    (.member (str "type") (.string f.type) (vectorMembers f.vector)))

/-- The object of a feature with its vector, if it has one. -/
def Feature.toJson (f : Feature) : Json :=
  .object ([(str "name", .string f.name), (str "type", .string f.type)] ++
    if f.vector = [] then [] else [(str "vector", .array (f.vector.map .string))])

/-- All texts of a feature are without control characters but those that are encoded. -/
def Feature.Printable (f : Feature) : Prop :=
  Client.Printable f.name ∧ Client.Printable f.type ∧ ∀ scalar ∈ f.vector, Client.Printable scalar

section Document

variable (server : Server) (input : Input) (storageurl inputfeatures : Bytes)

/-- The features the server has answered for, in the order of the input. -/
def features : Option (List Feature) :=
  (readInputList input inputfeatures).map fun featurevalues =>
    featurevalues.flatMap (featuresOf server storageurl)

end Document

/-! ### The features of a document -/

/-- The body of the loop of `getStorageDocumentFeatures.pl`. -/
def printValue (out value : Bytes) : Bytes := if value = [] then out else out ++ (value ++ [10])

/-- The values of a feature type in a document, a line each; without an answer the program ends. -/
def getStorageDocumentFeatures (server : Server) (storageurl docid feattype : Bytes) :
    Option Bytes :=
  (server.issueRequest (storageurl ++ str "/doc/" ++ server.encode docid)).map fun reply =>
    (readList server
      (selectResult reply [str "storage", str "sindex", feattype, str "value"])).foldl
      printValue []

theorem printValue_loop (values : List Bytes) (out : Bytes) :
    values.foldl printValue out = out ++ (values.filter (· ≠ [])).flatMap (· ++ [10]) := by
  have hloop := foldl_skip (fun value => value ++ [(10 : UInt8)]) (fun value => decide (value = []))
    values out
  simp only [decide_eq_true_eq] at hloop
  rw [show printValue = fun out value => if value = [] then out else out ++ (value ++ [10]) from rfl,
    hloop]
  simp

/-- The output of the one script is an input of the other: it is read as the values that are
not empty, in their order, if no value is broken into lines. -/
theorem getStorageDocumentFeatures_read (server : Server) (storageurl docid feattype : Bytes)
    {reply : Node} (values : List Bytes) (hlines : ∀ value ∈ values, 10 ∉ value)
    (hreply : server.issueRequest (storageurl ++ str "/doc/" ++ server.encode docid) = some reply)
    (hvalues : readList server
      (selectResult reply [str "storage", str "sindex", feattype, str "value"]) = values) :
    ∃ out, getStorageDocumentFeatures server storageurl docid feattype = some out ∧
      ∀ readFile,
        readInputList { readFile := readFile, stdin := out } (str "-") =
          some (values.filter (· ≠ [])) ∧
        features server { readFile := readFile, stdin := out } storageurl (str "-") =
          some ((values.filter (· ≠ [])).flatMap (featuresOf server storageurl)) := by
  refine ⟨(values.filter (· ≠ [])).flatMap (· ++ [10]), ?_, fun readFile => ?_⟩
  · rw [getStorageDocumentFeatures, hreply, Option.map_some, hvalues, printValue_loop,
      List.nil_append]
  · have hstdin : readInput { readFile := readFile
                              stdin := (values.filter (· ≠ [])).flatMap (· ++ [10]) } (str "-") =
        some ((values.filter (· ≠ [])).flatMap (· ++ [10])) := rfl
    have hlist : readInputList { readFile := readFile
                                 stdin := (values.filter (· ≠ [])).flatMap (· ++ [10]) } (str "-") =
        some (values.filter (· ≠ [])) := by
      rw [readInputList, hstdin, Option.map_some, splitFields_lines]
      · intro value hvalue
        exact hlines value (List.mem_filter.mp hvalue).1
      · intro value hvalue
        simpa using (List.mem_filter.mp hvalue).2
    exact ⟨hlist, by rw [features, hlist, Option.map_some]⟩

/-- A server with two types of a feature, one of them without a vector, and a document with
this feature and an empty one. -/
def typesServer : Server where
  issueRequest := fun url =>
    if url = str "/feature/x" then
      some (.hash [(str "vstorage", .hash [(str "link", .array [.scalar (str "a"), .scalar (str "b ")])])])
    else if url = str "/feature/x/a" then
      some (.hash [(str "vstorage", .hash [(str "value", .array [.scalar (str "1"), .scalar (str "2")])])])
    else if url = str "/feature/x/b" then
      some (.hash [(str "vstorage", .hash [(str "value", .array [])])])
    else if url = str "/doc/7" then
      some (.hash [(str "storage", .hash [(str "sindex", .hash [(str "word",
        .array [.hash [(str "value", .scalar (str "x"))],
          .hash [(str "value", .scalar [])]])])])])
    else none
  encode := id
  refText := fun _ => str "HASH"

theorem getStorageDocumentFeatures_types :
    ∃ out, getStorageDocumentFeatures typesServer [] (str "7") (str "word") = some out ∧
      ∀ readFile,
        readInputList { readFile := readFile, stdin := out } (str "-") =
          some ([str "x", []].filter (· ≠ [])) ∧
        features typesServer { readFile := readFile, stdin := out } [] (str "-") =
          some (([str "x", []].filter (· ≠ [])).flatMap (featuresOf typesServer [])) :=
  getStorageDocumentFeatures_read typesServer [] (str "7") (str "word") [str "x", []]
    (by decide) rfl (by decide)

/-- The last byte of a type in UTF-8 is taken for a blank, that of a value is not. -/
example : trim isSpaceDecoded (str "voilà") = str "voil" ++ [0xC3] ∧
    trim isSpace (str "voilà ") = str "voilà" := by decide

example : features typesServer { readFile := fun _ => none, stdin := [] } [] (str " x\n\ny") =
    some [{ name := str "x", type := str "a", vector := [str "1", str "2"] },
      { name := str "x", type := str "b", vector := [] }] := by decide

end StrusWebService.Client
