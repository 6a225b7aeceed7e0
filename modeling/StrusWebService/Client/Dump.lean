import StrusWebService.Client.Decoding
import StrusWebService.Client.Select
import Mathlib.Data.List.Nodup

/-! # The dump of a document

`getStorageDocument.pl` asks the server for the parts of a document, pushes the tokens of
the answer onto `@result` and prints them with `serializationToJson`. `dump` is what it
collects, and `getStorageDocument_eq` says that the tokens are those of a tree: the
serializer takes a section for an object where nothing has been pushed for it.
-/

namespace StrusWebService.Client

open Json (parseWith)
open Text (str)

def name (message : String) : Bytes := nameTag :: str message

def value (val : Bytes) : Bytes := valueTag :: val

/-- What the script gets from outside: the decoded content of the answer to a request, if
there is one, the encoding of a document id in a URL, and what references are printed as. -/
structure Server where
  issueRequest : Bytes → Option Node
  encode : Bytes → Bytes
  refText : Node → Bytes

/-! ### Reading results -/

section Read

variable (server : Server)

/-- A node in a string. -/
def interpolate : Node → Bytes
  | .scalar val => val
  | .undefined => []
  | node => server.refText node

/-- `readResult( $content, '@')`. -/
def readList : Node → List Bytes
  | .undefined => []
  | .array nodes => nodes.map (interpolate server)
  | .lvalue val => splitFields 10 val
  | content => splitFields 10 (interpolate server content)

/-- `$rt{ $key} = $value`. -/
def storeEntry (rt : List (Bytes × Bytes)) (key val : Bytes) : List (Bytes × Bytes) :=
  if rt.any (·.1 = key) then rt.map fun e => if e.1 = key then (key, val) else e
  else rt ++ [(key, val)]

/-- The hash of lines with a key and a value. `%rt = {}` leaves a reference as its first key. -/
def readLines (content : Bytes) : List (Bytes × Bytes) :=
  (splitFields 10 content).foldl
    (fun rt line => storeEntry rt (line.takeWhile (· ≠ 9)) (line.dropWhile (· ≠ 9)).tail)
    [(server.refText (.hash []), [])]

/-- `readResult( $content, '%')`. -/
def readMap : Node → List (Bytes × Bytes)
  | .undefined => [(server.refText (.hash []), [])]
  | .hash members => members.map fun m => (m.1, interpolate server m.2)
  | .lvalue val => readLines server val
  | content => readLines server (interpolate server content)

end Read

/-! ### The parts of a document -/

/-- A term with a position. -/
structure Posting where
  type : Bytes
  value : Bytes
  pos : Bytes
  deriving DecidableEq, Repr

def Posting.tokens (p : Posting) : List Bytes :=
  [[openTag], name "type", Client.value p.type, name "value", Client.value p.value, name "pos",
    Client.value p.pos, [closeTag]]

def pairTokens (p : Bytes × Bytes) : List Bytes :=
  [[openTag], name "name", value p.1, name "value", value p.2, [closeTag]]

section Script

variable (server : Server)

def getTermTypes (storageurl : Bytes) : Option (List Bytes) :=
  (server.issueRequest (storageurl ++ str "/termtype")).map fun reply =>
    readList server (selectResult reply [str "storage", str "value"])

/-- The body of the loop over the values of a term type in the search index. -/
def pushTermValue (sindexurl termtype : Bytes) (result : List Bytes) (termvalue : Bytes) :
    Option (List Bytes) :=
  if termvalue = [] then some result
  else
    (server.issueRequest (sindexurl ++ str "/" ++ termtype ++ str "/" ++ termvalue)).map fun reply =>
      (readList server (selectResult reply [str "storage", str "value"])).foldl
        (fun result position =>
          result ++ Posting.tokens { type := termtype, value := termvalue, pos := position }) result

def printResultSearchIndex (termtypes : List Bytes) (docurl : Bytes) (result : List Bytes) :
    Option (List Bytes) :=
  let sindexurl := docurl ++ str "/sindex"
  (server.issueRequest sindexurl).bind fun reply =>
    (termtypes.foldlM (fun result termtype =>
      if termtype = [] then some result
      else
        (readList server (selectResult reply [str "storage", termtype, str "value"])).foldlM
          (pushTermValue server sindexurl termtype) result)
      (result ++ [name "searchindex", [openTag]])).map fun result => result ++ [[closeTag]]

/-- The body of the loop over the term types in the forward index. -/
def pushTermType (docurl : Bytes) (result : List Bytes) (termtype : Bytes) : Option (List Bytes) :=
  if termtype = [] then some result
  else
    match server.issueRequest (docurl ++ str "/findex/" ++ termtype ++ str "/list") with
    | none => some result
    | some reply =>
        let termvalues :=
          readList server (selectResult reply [str "storage", str "value", str "value"])
        let positions :=
          readList server (selectResult reply [str "storage", str "value", str "pos"])
        if termvalues.length ≠ positions.length then none
        else
          some ((termvalues.zip positions).foldl
            (fun result t => result ++ Posting.tokens { type := termtype, value := t.1, pos := t.2 })
            result)

def printResultForwardIndex (termtypes : List Bytes) (docurl : Bytes) (result : List Bytes) :
    Option (List Bytes) :=
  (termtypes.foldlM (pushTermType server docurl) (result ++ [name "forwardindex", [openTag]])).map
    fun result => result ++ [[closeTag]]

/-- A section of names and values, which is also the last part of its URL. -/
def printResultMap (part : String) (docurl : Bytes) (result : List Bytes) : List Bytes :=
  let result := result ++ [name part, [openTag]]
  let result :=
    match server.issueRequest (docurl ++ str "/" ++ str part) with
    | none => result
    | some reply =>
        (readMap server (selectResult reply [str "storage"])).foldl
          (fun result p => if p.1 = [] then result else result ++ pairTokens p) result
  result ++ [[closeTag]]

def printResultAttributes : Bytes → List Bytes → List Bytes := printResultMap server "attribute"

def printResultMetadata : Bytes → List Bytes → List Bytes := printResultMap server "metadata"

def printResultAccess (docurl : Bytes) (result : List Bytes) : List Bytes :=
  match server.issueRequest (docurl ++ str "/access") with
  | none => result
  | some reply =>
      let usernames := readList server (selectResult reply [str "storage", str "value"])
      if usernames = [] then result
      else
        usernames.foldl (fun result username =>
          if username = [] then result else result ++ [value username])
          (result ++ [name "access", [openTag]]) ++ [[closeTag]]

def getStorageDocument (storageurl docid : Bytes) : Option Bytes := do
  let docurl := storageurl ++ str "/doc/" ++ server.encode docid
  let termtypes ← getTermTypes server storageurl
  let result := [name "storage", [openTag], name "document", [openTag], name "id", value docid]
  let result ← printResultSearchIndex server termtypes docurl result
  let result ← printResultForwardIndex server termtypes docurl result
  let result := printResultMetadata server docurl (printResultAttributes server docurl result)
  serializationToJson (printResultAccess server docurl result ++ [[closeTag], [closeTag]])

end Script

/-! ### Loops that push tokens -/

section Push

variable {α β γ : Type} (tokens : β → List γ)

/-- A loop that pushes the tokens of some items for each element, or ends the program. -/
theorem foldlM_push {step : List γ → α → Option (List γ)} {items : α → Option (List β)}
    (h : ∀ result a, step result a = (items a).map fun bs => result ++ bs.flatMap tokens)
    (as : List α) (result : List γ) :
    as.foldlM step result =
      (as.mapM items).map fun bss => result ++ bss.flatten.flatMap tokens := by
  induction as generalizing result with
  | nil => simp
  | cons a as ih =>
      rw [List.foldlM_cons, List.mapM_cons, h]
      cases items a with
      | none => rfl
      | some bs =>
          simp only [Option.map_some, Option.bind_eq_bind, Option.bind_some]
          rw [ih]
          cases as.mapM items with
          | none => rfl
          | some bss => simp [List.append_assoc]

theorem foldl_push (as : List β) (result : List γ) :
    as.foldl (fun result a => result ++ tokens a) result = result ++ as.flatMap tokens := by
  induction as generalizing result with
  | nil => simp
  | cons a as ih => rw [List.foldl_cons, ih, List.flatMap_cons, List.append_assoc]

/-- The elements that are skipped push nothing. -/
theorem foldl_skip (skip : β → Bool) (as : List β) (result : List γ) :
    as.foldl (fun result a => if skip a then result else result ++ tokens a) result =
      result ++ (as.filter fun a => !skip a).flatMap tokens := by
  induction as generalizing result with
  | nil => simp
  | cons a as ih =>
      rw [List.foldl_cons, ih]
      cases hskip : skip a with
      | false => simp [hskip]
      | true => simp [hskip]

end Push

/-! ### What is collected -/

section Collect

variable (server : Server)

/-- The positions of a term in the search index. -/
def valuePostings (sindexurl termtype termvalue : Bytes) : Option (List Posting) :=
  if termvalue = [] then some []
  else
    (server.issueRequest (sindexurl ++ str "/" ++ termtype ++ str "/" ++ termvalue)).map fun reply =>
      (readList server (selectResult reply [str "storage", str "value"])).map fun position =>
        { type := termtype, value := termvalue, pos := position }

/-- The terms of the search index, unless a request fails. -/
def searchPostings (termtypes : List Bytes) (docurl : Bytes) : Option (List Posting) :=
  let sindexurl := docurl ++ str "/sindex"
  (server.issueRequest sindexurl).bind fun reply =>
    (termtypes.mapM fun termtype =>
      if termtype = [] then some []
      else
        ((readList server (selectResult reply [str "storage", termtype, str "value"])).mapM
          (valuePostings server sindexurl termtype)).map List.flatten).map List.flatten

/-- The terms of a type in the forward index, unless their numbers do not match. -/
def typePostings (docurl termtype : Bytes) : Option (List Posting) :=
  if termtype = [] then some []
  else
    match server.issueRequest (docurl ++ str "/findex/" ++ termtype ++ str "/list") with
    | none => some []
    | some reply =>
        let termvalues :=
          readList server (selectResult reply [str "storage", str "value", str "value"])
        let positions :=
          readList server (selectResult reply [str "storage", str "value", str "pos"])
        if termvalues.length ≠ positions.length then none
        else
          some ((termvalues.zip positions).map fun t =>
            { type := termtype, value := t.1, pos := t.2 })

def forwardPostings (termtypes : List Bytes) (docurl : Bytes) : Option (List Posting) :=
  (termtypes.mapM (typePostings server docurl)).map List.flatten

/-- The names and values of a section. -/
def pairsOf (part : String) (docurl : Bytes) : List (Bytes × Bytes) :=
  match server.issueRequest (docurl ++ str "/" ++ str part) with
  | none => []
  | some reply => (readMap server (selectResult reply [str "storage"])).filter fun p => p.1 ≠ []

/-- The users that have access, if there are any. -/
def usersOf (docurl : Bytes) : Option (List Bytes) :=
  match server.issueRequest (docurl ++ str "/access") with
  | none => none
  | some reply =>
      let usernames := readList server (selectResult reply [str "storage", str "value"])
      if usernames = [] then none else some (usernames.filter (· ≠ []))

/-- The parts of a document. -/
structure Dump where
  searchindex : List Posting
  forwardindex : List Posting
  attributes : List (Bytes × Bytes)
  metadata : List (Bytes × Bytes)
  access : Option (List Bytes)
  deriving DecidableEq, Repr

/-- What is collected for a document, unless the program is ended. -/
def dump (storageurl docid : Bytes) : Option Dump := do
  let docurl := storageurl ++ str "/doc/" ++ server.encode docid
  let termtypes ← getTermTypes server storageurl
  let searchindex ← searchPostings server termtypes docurl
  let forwardindex ← forwardPostings server termtypes docurl
  pure
    { searchindex := searchindex
      forwardindex := forwardindex
      attributes := pairsOf server "attribute" docurl
      metadata := pairsOf server "metadata" docurl
      access := usersOf server docurl }

end Collect

/-! ### The tree that is printed -/

def Posting.element (p : Posting) : Element :=
  .object (.member (str "type") (.string p.type) (.member (str "value") (.string p.value)
    (.member (str "pos") (.string p.pos) .nil)))

def pairElement (p : Bytes × Bytes) : Element :=
  .object (.member (str "name") (.string p.1) (.member (str "value") (.string p.2) .nil))

def elementsOf : List Element → Elements
  | [] => .nil
  | e :: es => .element e (elementsOf es)

/-- A section is an object if nothing has been pushed for it, and otherwise an array. -/
def sectionValue : List Element → Value
  | [] => .object .nil
  | e :: es => .array e (elementsOf es)

def sectionTokens (part : String) (tokens : List Bytes) : List Bytes :=
  name part :: [openTag] :: (tokens ++ [[closeTag]])

def accessMembers : Option (List Bytes) → Members
  | none => .nil
  | some usernames => .member (str "access") (sectionValue (usernames.map .string)) .nil

namespace Dump

variable (d : Dump)

/-- The members of the document. -/
def sections (docid : Bytes) : Members :=
  .member (str "id") (.string docid)
    (.member (str "searchindex") (sectionValue (d.searchindex.map Posting.element))
      (.member (str "forwardindex") (sectionValue (d.forwardindex.map Posting.element))
        (.member (str "attribute") (sectionValue (d.attributes.map pairElement))
          (.member (str "metadata") (sectionValue (d.metadata.map pairElement))
            (accessMembers d.access)))))

def tree (docid : Bytes) : Members :=
  .member (str "storage") (.object (.member (str "document") (.object (d.sections docid)) .nil)) .nil

end Dump

theorem elementsOf_tokens (es : List Element) : (elementsOf es).tokens = es.flatMap Element.tokens := by
  induction es with
  | nil => rfl
  | cons e es ih => rw [elementsOf, Elements.tokens, ih, List.flatMap_cons]

theorem sectionValue_tokens (part : String) (es : List Element) :
    name part :: (sectionValue es).tokens = sectionTokens part (es.flatMap Element.tokens) := by
  cases es with
  | nil => rfl
  | cons e es => rw [sectionValue, Value.tokens, elementsOf_tokens, ← List.flatMap_cons, sectionTokens]

theorem posting_tokens (ps : List Posting) :
    (ps.map Posting.element).flatMap Element.tokens = ps.flatMap Posting.tokens := by
  rw [List.flatMap_map]
  rfl

theorem pair_tokens (ps : List (Bytes × Bytes)) :
    (ps.map pairElement).flatMap Element.tokens = ps.flatMap pairTokens := by
  rw [List.flatMap_map]
  rfl

/-- The member of a section in front of others. -/
theorem member_tokens (part : String) (es : List Element) (rest : Members) :
    (Members.member (str part) (sectionValue es) rest).tokens =
      sectionTokens part (es.flatMap Element.tokens) ++ rest.tokens := by
  rw [Members.tokens, ← List.cons_append, ← sectionValue_tokens]
  rfl

theorem tree_tokens (d : Dump) (docid : Bytes) :
    (d.tree docid).tokens =
      [name "storage", [openTag], name "document", [openTag], name "id", value docid] ++
        (sectionTokens "searchindex" (d.searchindex.flatMap Posting.tokens) ++
          (sectionTokens "forwardindex" (d.forwardindex.flatMap Posting.tokens) ++
            (sectionTokens "attribute" (d.attributes.flatMap pairTokens) ++
              (sectionTokens "metadata" (d.metadata.flatMap pairTokens) ++ (accessMembers d.access).tokens)))) ++
        [[closeTag], [closeTag]] := by
  have hsections : (d.sections docid).tokens = name "id" :: value docid ::
      (sectionTokens "searchindex" (d.searchindex.flatMap Posting.tokens) ++
        (sectionTokens "forwardindex" (d.forwardindex.flatMap Posting.tokens) ++
          (sectionTokens "attribute" (d.attributes.flatMap pairTokens) ++
            (sectionTokens "metadata" (d.metadata.flatMap pairTokens) ++ (accessMembers d.access).tokens)))) := by
    rw [Dump.sections, Members.tokens, member_tokens, member_tokens, member_tokens, member_tokens,
      posting_tokens, posting_tokens, pair_tokens, pair_tokens]
    rfl
  simp only [Dump.tree, Members.tokens, Value.tokens, hsections]
  simp [name, value]

section Print

variable (server : Server) (termtypes : List Bytes) (docurl : Bytes) (result : List Bytes)

theorem pushTermValue_eq (sindexurl termtype termvalue : Bytes) :
    pushTermValue server sindexurl termtype result termvalue =
      (valuePostings server sindexurl termtype termvalue).map fun ps =>
        result ++ ps.flatMap Posting.tokens := by
  unfold pushTermValue valuePostings
  split
  · simp
  · rw [Option.map_map]
    congr 1
    funext reply
    rw [Function.comp_apply, List.flatMap_map]
    exact foldl_push _ _ result

theorem printResultSearchIndex_eq :
    printResultSearchIndex server termtypes docurl result =
      (searchPostings server termtypes docurl).map fun ps =>
        result ++ sectionTokens "searchindex" (ps.flatMap Posting.tokens) := by
  unfold printResultSearchIndex searchPostings
  dsimp only
  cases server.issueRequest (docurl ++ str "/sindex") with
  | none => rfl
  | some reply =>
      simp only [Option.bind_some, Option.map_map]
      rw [foldlM_push Posting.tokens, Option.map_map]
      · congr 1
        funext pss
        simp [sectionTokens]
      · intro result termtype
        split
        · simp
        · rw [foldlM_push Posting.tokens fun result termvalue =>
            pushTermValue_eq server result _ termtype termvalue, Option.map_map]
          rfl

theorem pushTermType_eq (termtype : Bytes) :
    pushTermType server docurl result termtype =
      (typePostings server docurl termtype).map fun ps => result ++ ps.flatMap Posting.tokens := by
  unfold pushTermType typePostings
  split
  · simp
  · cases server.issueRequest (docurl ++ str "/findex/" ++ termtype ++ str "/list") with
    | none => simp
    | some reply =>
        dsimp only
        split
        · rfl
        · rw [Option.map_some, List.flatMap_map]
          congr 1
          exact foldl_push _ _ result

theorem printResultForwardIndex_eq :
    printResultForwardIndex server termtypes docurl result =
      (forwardPostings server termtypes docurl).map fun ps =>
        result ++ sectionTokens "forwardindex" (ps.flatMap Posting.tokens) := by
  unfold printResultForwardIndex forwardPostings
  rw [foldlM_push Posting.tokens fun result termtype => pushTermType_eq server docurl result termtype,
    Option.map_map, Option.map_map]
  congr 1
  funext pss
  simp [sectionTokens]

theorem printResultMap_eq (part : String) :
    printResultMap server part docurl result =
      result ++ sectionTokens part ((pairsOf server part docurl).flatMap pairTokens) := by
  unfold printResultMap pairsOf
  dsimp only
  cases server.issueRequest (docurl ++ str "/" ++ str part) with
  | none => simp [sectionTokens]
  | some reply =>
      dsimp only
      have hloop := foldl_skip pairTokens (fun p => decide (p.1 = []))
        (readMap server (selectResult reply [str "storage"])) (result ++ [name part, [openTag]])
      simp only [decide_eq_true_eq] at hloop
      rw [hloop]
      simp [sectionTokens]

theorem value_tokens (usernames : List Bytes) :
    (usernames.map Element.string).flatMap Element.tokens = usernames.map value := by
  rw [List.flatMap_map]
  exact List.map_eq_flatMap.symm

theorem printResultAccess_eq :
    printResultAccess server docurl result =
      result ++ (accessMembers (usersOf server docurl)).tokens := by
  unfold printResultAccess usersOf
  cases server.issueRequest (docurl ++ str "/access") with
  | none => simp [accessMembers, Members.tokens]
  | some reply =>
      dsimp only
      split
      · simp [accessMembers, Members.tokens]
      · have hloop := foldl_skip (fun username => [value username]) (fun username => decide (username = []))
          (readList server (selectResult reply [str "storage", str "value"]))
          (result ++ [name "access", [openTag]])
        have hsection := sectionValue_tokens "access" (((readList server
          (selectResult reply [str "storage", str "value"])).filter (· ≠ [])).map Element.string)
        simp only [decide_eq_true_eq] at hloop
        rw [value_tokens] at hsection
        rw [hloop, accessMembers, Members.tokens, Members.tokens, List.append_nil, ← name, hsection]
        simp [sectionTokens, List.map_eq_flatMap]

end Print

section Document

variable (server : Server) (storageurl docid : Bytes)

/-- What is printed are the tokens of the tree of the parts that have been collected. -/
theorem getStorageDocument_eq :
    getStorageDocument server storageurl docid =
      (dump server storageurl docid).bind fun d => serializationToJson (d.tree docid).tokens := by
  unfold getStorageDocument dump
  cases getTermTypes server storageurl with
  | none => rfl
  | some termtypes =>
      simp only [Option.bind_eq_bind, Option.bind_some, printResultSearchIndex_eq,
        printResultForwardIndex_eq]
      cases searchPostings server termtypes (storageurl ++ str "/doc/" ++ server.encode docid) with
      | none => rfl
      | some searchindex =>
          simp only [Option.map_some, Option.bind_some]
          cases forwardPostings server termtypes (storageurl ++ str "/doc/" ++ server.encode docid) with
          | none => rfl
          | some forwardindex =>
              simp only [Option.map_some, Option.bind_some, Option.pure_def]
              rw [tree_tokens, printResultAccess_eq, printResultMetadata,
                printResultAttributes, printResultMap_eq, printResultMap_eq]
              simp only [List.append_assoc]

end Document

/-! ### Sections that are lists -/

/-- The object of a term in an index. -/
def Posting.toJson (p : Posting) : Json :=
  .object [(str "type", .string p.type), (str "value", .string p.value), (str "pos", .string p.pos)]

/-- The object of an attribute or a metadata element. -/
def pairJson (p : Bytes × Bytes) : Json :=
  .object [(str "name", .string p.1), (str "value", .string p.2)]

theorem elementsOf_toJson (es : List Element) : (elementsOf es).toJson = es.map Element.toJson := by
  induction es with
  | nil => rfl
  | cons e es ih => rw [elementsOf, Elements.toJson, ih, List.map_cons]

theorem sectionValue_toJson (es : List Element) :
    (sectionValue es).toJson = if es = [] then .object [] else .array (es.map Element.toJson) := by
  cases es with
  | nil => rfl
  | cons e es => rw [sectionValue, Value.toJson, elementsOf_toJson, if_neg (List.cons_ne_nil e es), List.map_cons]

/-- The text is that of a document whose four sections are arrays, with one object for each
element in the order in which they have been pushed. -/
def ListSections (d : Dump) (json : Option Json) : Prop :=
  ∃ members, json = some (.object [(str "storage", .object [(str "document", .object members)])]) ∧
    (str "searchindex", .array (d.searchindex.map Posting.toJson)) ∈ members ∧
    (str "forwardindex", .array (d.forwardindex.map Posting.toJson)) ∈ members ∧
    (str "attribute", .array (d.attributes.map pairJson)) ∈ members ∧
    (str "metadata", .array (d.metadata.map pairJson)) ∈ members

/-- An array stands for a section where something has been pushed for it. -/
theorem array_eq_section {α : Type} {element : α → Element} {json : α → Json}
    (h : ∀ a, (element a).toJson = json a) (as : List α) :
    Json.array (as.map json) = (sectionValue (as.map element)).toJson ↔ as ≠ [] := by
  rw [sectionValue_toJson]
  cases as with
  | nil => simp
  | cons a as => simp [h]

theorem sections_toJson (d : Dump) (docid : Bytes) :
    (d.sections docid).toJson =
      (str "id", .string docid) ::
        (str "searchindex", (sectionValue (d.searchindex.map Posting.element)).toJson) ::
        (str "forwardindex", (sectionValue (d.forwardindex.map Posting.element)).toJson) ::
        (str "attribute", (sectionValue (d.attributes.map pairElement)).toJson) ::
        (str "metadata", (sectionValue (d.metadata.map pairElement)).toJson) ::
        (accessMembers d.access).toJson := rfl

/-- The names of the members of a document are distinct. -/
theorem sections_nodup (d : Dump) (docid : Bytes) :
    ((d.sections docid).toJson.map Prod.fst).Nodup := by
  rw [sections_toJson]
  cases d.access with
  | none =>
      simp only [accessMembers, Members.toJson, List.map_cons, List.map_nil]
      decide
  | some usernames =>
      simp only [accessMembers, Members.toJson, List.map_cons, List.map_nil]
      decide

theorem listSections_tree (d : Dump) (docid : Bytes) :
    ListSections d (some (.object (d.tree docid).toJson)) ↔
      d.searchindex ≠ [] ∧ d.forwardindex ≠ [] ∧ d.attributes ≠ [] ∧ d.metadata ≠ [] := by
  have htree : (d.tree docid).toJson =
      [(str "storage", .object [(str "document", .object (d.sections docid).toJson)])] := rfl
  have hmem (part : Bytes) {v w : Json} (hw : (part, w) ∈ (d.sections docid).toJson) :
      (part, v) ∈ (d.sections docid).toJson ↔ v = w := by
    constructor
    · intro hv
      have heq := List.inj_on_of_nodup_map (sections_nodup d docid) hv hw rfl
      exact (Prod.mk.inj heq).2
    · intro heq
      rw [heq]
      exact hw
  rw [← array_eq_section (fun p => (rfl : p.element.toJson = p.toJson)) d.searchindex,
    ← array_eq_section (fun p => (rfl : p.element.toJson = p.toJson)) d.forwardindex,
    ← array_eq_section (fun p => (rfl : (pairElement p).toJson = pairJson p)) d.attributes,
    ← array_eq_section (fun p => (rfl : (pairElement p).toJson = pairJson p)) d.metadata,
    ← hmem (str "searchindex") (by simp [sections_toJson]),
    ← hmem (str "forwardindex") (by simp [sections_toJson]),
    ← hmem (str "attribute") (by simp [sections_toJson]),
    ← hmem (str "metadata") (by simp [sections_toJson]), ListSections, htree]
  constructor
  · intro ⟨members, heq, hsections⟩
    obtain rfl : (d.sections docid).toJson = members := by simpa using heq
    exact hsections
  · intro hsections
    exact ⟨_, rfl, hsections⟩

section Sections

variable (server : Server) (storageurl docid : Bytes)

/-- Where the program is not ended, the sections of the text are lists exactly if something
has been pushed for each of them. For a text without control characters that are not
encoded, this is the text as RFC 8259 reads it. -/
theorem listSections_iff :
    (dump server storageurl docid = none ∧ getStorageDocument server storageurl docid = none) ∨
      ∃ d text, dump server storageurl docid = some d ∧
        getStorageDocument server storageurl docid = some text ∧
        (ListSections d (parseWith literal text) ↔
          d.searchindex ≠ [] ∧ d.forwardindex ≠ [] ∧ d.attributes ≠ [] ∧ d.metadata ≠ []) ∧
        ((d.tree docid).All Printable →
          (ListSections d (Json.parse text) ↔
            d.searchindex ≠ [] ∧ d.forwardindex ≠ [] ∧ d.attributes ≠ [] ∧ d.metadata ≠ [])) := by
  rw [getStorageDocument_eq]
  cases dump server storageurl docid with
  | none => exact Or.inl ⟨rfl, rfl⟩
  | some d =>
      obtain ⟨text, htext, hparse⟩ := Option.bind_eq_some_iff.mp
        (parseWith_tokens readsBack_literal (d.tree docid) (d.tree docid).all_true)
      refine Or.inr ⟨d, text, rfl, htext, ?_, ?_⟩
      · rw [hparse]
        exact listSections_tree d docid
      · intro hall
        have hjson := parse_tokens (d.tree docid) hall
        rw [htext, Option.bind_some] at hjson
        rw [hjson]
        exact listSections_tree d docid

end Sections

/-- A server with a document that has nothing but its id. -/
def emptyServer : Server where
  issueRequest := fun _ => some (.hash [(str "storage", .hash [])])
  encode := id
  refText := fun _ => str "HASH"

theorem getStorageDocument_empty :
    (getStorageDocument emptyServer [] (str "7")).bind Json.parse =
      some (.object [(str "storage", .object [(str "document", .object
        [(str "id", .string (str "7")), (str "searchindex", .object []),
          (str "forwardindex", .object []), (str "attribute", .object []),
          (str "metadata", .object [])])])]) := by
  have hdump : dump emptyServer [] (str "7") =
      some { searchindex := [], forwardindex := [], attributes := [], metadata := [], access := none } := by
    decide
  have hprint : ∀ s ∈ [str "storage", str "document", str "id", str "7", str "searchindex",
      str "forwardindex", str "attribute", str "metadata"], Printable s := by
    have hlow : ∀ s ∈ [str "storage", str "document", str "id", str "7", str "searchindex",
        str "forwardindex", str "attribute", str "metadata"], ∀ c ∈ s, 32 ≤ c := by decide
    exact fun s hs c hc => Or.inl (hlow s hs c hc)
  rw [getStorageDocument_eq, hdump, Option.bind_some]
  apply parse_tokens
  simp only [List.forall_mem_cons] at hprint
  simp only [Dump.tree, Dump.sections, sectionValue, accessMembers, Members.All, Value.All, List.map_nil,
    hprint, and_self]

end StrusWebService.Client
