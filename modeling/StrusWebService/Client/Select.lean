import StrusWebService.Library.Text
import StrusWebService.Library.Json.Writing

/-! # Selecting from a result

`selectResult` follows a path of selectors through a tree that has been decoded from JSON.
`selected` is the value at the end of the path. The code returns another one where it meets
a value that is no reference, which it returns whatever is left of the path.
-/

namespace StrusWebService.Client

open Json (comma)
open Text (str)

/-- A node by what `ref` says of it: a hash, an array, a reference to a value, or none of
these, which is a value or undefined. -/
inductive Node where
  | hash (members : List (Bytes × Node))
  | array (nodes : List Node)
  | lvalue (value : Bytes)
  | scalar (value : Bytes)
  | undefined

/-- What is returned for the choices of a selector. -/
def resultOf : List Node → Node
  | [] => .undefined
  | [node] => node
  | nodes => .array nodes

mutual

def selectResult : Node → List Bytes → Node
  | .hash members, [] => .hash members
  | .hash members, firstsel :: selar =>
      resultOf ((splitFields comma firstsel).flatMap fun selkey =>
        let found := selectMembers members selkey selar
        if found.isEmpty then [.undefined] else found)
  | .array nodes, selar => .array (selectNodes nodes selar)
  | .lvalue value, selar => if selar.length ≠ 0 then .undefined else .scalar value
  | .scalar value, _ => .scalar value
  | .undefined, _ => .undefined

/-- The loop over the keys of a hash. -/
def selectMembers : List (Bytes × Node) → Bytes → List Bytes → List Node
  | [], _, _ => []
  | (nodekey, subnode) :: members, selkey, selar =>
      if selkey = nodekey then selectResult subnode selar :: selectMembers members selkey selar
      else selectMembers members selkey selar

/-- The loop over the elements of an array. -/
def selectNodes : List Node → List Bytes → List Node
  | [], _ => []
  | subnode :: nodes, selar => selectResult subnode selar :: selectNodes nodes selar

end

/-! ### The value at the end of a path -/

mutual

/-- The keys of a hash are distinct, at every depth. -/
def Node.Distinct : Node → Prop
  | .hash members => (members.map Prod.fst).Nodup ∧ DistinctMembers members
  | .array nodes => DistinctNodes nodes
  | _ => True

def DistinctMembers : List (Bytes × Node) → Prop
  | [] => True
  | (_, node) :: members => node.Distinct ∧ DistinctMembers members

def DistinctNodes : List Node → Prop
  | [] => True
  | node :: nodes => node.Distinct ∧ DistinctNodes nodes

end

/-- A tree of hashes, arrays and values. -/
structure Tree where
  node : Node
  distinct : node.Distinct

/-- The keys of a selector, of which there is one at least. -/
def keysOf (selector : Bytes) : List Bytes := selector.splitOn comma

/-- One value is itself, others are a list. -/
def valuesOf : List Node → Node
  | [node] => node
  | nodes => .array nodes

mutual

/-- The value that a path leads to. -/
def Node.selected : Node → List Bytes → Node
  | .hash members, [] => .hash members
  | .hash members, selector :: path =>
      valuesOf ((keysOf selector).map fun key => selectedMember members key path)
  | .array nodes, path => .array (selectedNodes nodes path)
  | .lvalue value, [] => .scalar value
  | .scalar value, [] => .scalar value
  | _, _ => .undefined

/-- Along the member with a name, or undefined if there is none. -/
def selectedMember : List (Bytes × Node) → Bytes → List Bytes → Node
  | [], _, _ => .undefined
  | (name, node) :: members, key, path =>
      if key = name then node.selected path else selectedMember members key path

def selectedNodes : List Node → List Bytes → List Node
  | [], _ => []
  | node :: nodes, path => node.selected path :: selectedNodes nodes path

end

def Node.isUndef : Node → Bool
  | .undefined => true
  | _ => false

mutual

/-- The path leads to no value with selectors left, and at a hash no selector has an empty
key at its end, except for an empty selector that leads to nothing. -/
def Node.follows : Node → List Bytes → Bool
  | .hash _, [] => true
  | .hash members, selector :: path =>
      if (keysOf selector).getLast? ≠ some [] then
        (keysOf selector).all fun key => followsMember members key path
      else selector.isEmpty && (selectedMember members [] path).isUndef
  | .array nodes, path => followsNodes nodes path
  | .scalar _, path => path.isEmpty
  | _, _ => true

def followsMember : List (Bytes × Node) → Bytes → List Bytes → Bool
  | [], _, _ => true
  | (name, node) :: members, key, path =>
      if key = name then node.follows path else followsMember members key path

def followsNodes : List Node → List Bytes → Bool
  | [], _ => true
  | node :: nodes, path => node.follows path && followsNodes nodes path

end

/-! ### What the code selects -/

section Members

variable {members : List (Bytes × Node)} {key : Bytes} {path : List Bytes}

/-- What is pushed for a key: one node, since the keys of a hash are distinct. -/
def foundMember : List (Bytes × Node) → Bytes → List Bytes → Node
  | [], _, _ => .undefined
  | (nodekey, subnode) :: members, selkey, selar =>
      if selkey = nodekey then selectResult subnode selar else foundMember members selkey selar

theorem selectMembers_eq_nil (h : key ∉ members.map Prod.fst) : selectMembers members key path = [] := by
  induction members with
  | nil => rfl
  | cons m members ih =>
      rw [List.map_cons, List.mem_cons, not_or] at h
      rw [selectMembers, if_neg h.1]
      exact ih h.2

theorem pushed_eq (hkeys : (members.map Prod.fst).Nodup) :
    (if (selectMembers members key path).isEmpty then [Node.undefined] else selectMembers members key path) =
      [foundMember members key path] := by
  induction members with
  | nil => rfl
  | cons m members ih =>
      rw [List.map_cons, List.nodup_cons] at hkeys
      rw [selectMembers, foundMember]
      by_cases hkey : key = m.1
      · rw [if_pos hkey, if_pos hkey, selectMembers_eq_nil (hkey ▸ hkeys.1)]
        rfl
      · rw [if_neg hkey, if_neg hkey]
        exact ih hkeys.2

/-- The choices of a selector are one node each. -/
theorem selectResult_hash (hkeys : (members.map Prod.fst).Nodup) (selector : Bytes) :
    selectResult (.hash members) (selector :: path) =
      resultOf ((splitFields comma selector).map fun key => foundMember members key path) := by
  rw [selectResult, List.map_eq_flatMap]
  congr 1
  congr 1
  funext key
  exact pushed_eq hkeys

end Members

/-- The choices are all the keys unless the last one is empty. -/
theorem splitFields_eq_keysOf {selector : Bytes} (h : (keysOf selector).getLast? ≠ some []) :
    splitFields comma selector = keysOf selector := by
  unfold splitFields keysOf at *
  rw [List.rdropWhile_eq_self_iff]
  intro hne
  rw [List.getLast?_eq_getLast_of_ne_nil hne] at h
  simpa using h

/-- Otherwise some of the keys at the end are missing. -/
theorem keysOf_eq_append {selector : Bytes} (h : (keysOf selector).getLast? = some []) :
    ∃ lost, lost ≠ [] ∧ keysOf selector = splitFields comma selector ++ lost := by
  refine ⟨(keysOf selector).rtakeWhile (· = []), ?_, ?_⟩
  · intro hnil
    rw [List.rtakeWhile_eq_nil_iff] at hnil
    have hne : keysOf selector ≠ [] := List.splitOn_ne_nil comma selector
    rw [List.getLast?_eq_getLast_of_ne_nil hne] at h
    simpa [Option.some.inj h] using hnil hne
  · exact (List.rdropWhile_append_rtakeWhile).symm

theorem keysOf_eq_singleton_nil {selector : Bytes}
    (h : keysOf selector = [[]]) : selector = [] := by
  rw [← @List.intercalate_splitOn _ selector _ _ comma, show selector.splitOn comma = [[]] from h]
  rfl

theorem valuesOf_eq_resultOf {nodes : List Node}
    (h : nodes ≠ []) : valuesOf nodes = resultOf nodes := by
  match nodes with
  | [] => exact absurd rfl h
  | [node] => rfl
  | _ :: _ :: _ => rfl

/-- As many results are the same result only if each of them is the same. -/
theorem resultOf_map_iff (keys : List Bytes) (f g : Bytes → Node) :
    resultOf (keys.map f) = resultOf (keys.map g) ↔ ∀ key ∈ keys, f key = g key := by
  match keys with
  | [] => simp
  | [key] => simp [resultOf]
  | key :: key' :: keys => simp [resultOf]

/-! ### Lists around a value -/

/-- The second node is the first element of the first one, or of its first element, and so on. -/
inductive Wraps : Node → Node → Prop
  | first {node : Node} {nodes : List Node} : Wraps (.array (node :: nodes)) node
  | deeper {outer node : Node} {nodes : List Node} (h : Wraps outer node) :
      Wraps (.array (outer :: nodes)) node

theorem Wraps.of_array {outer node : Node} {nodes : List Node}
    (h : Wraps outer (.array (node :: nodes))) :
    Wraps outer node := by
  generalize hinner : Node.array (node :: nodes) = inner at h
  induction h with
  | first =>
      subst hinner
      exact .deeper .first
  | deeper _ ih => exact .deeper (ih hinner)

/-- Between two lists, the relation holds between their first elements. -/
theorem Wraps.of_arrays {outer node : Node} {outers nodes : List Node}
    (h : Wraps (.array (outer :: outers)) (.array (node :: nodes))) : Wraps outer node := by
  cases h with
  | first => exact .first
  | deeper h => exact h.of_array

/-- The results of choices and the values of these and further keys. -/
theorem Wraps.of_choices {keys more : List Bytes} {f g : Bytes → Node}
    (h : Wraps (resultOf (keys.map f)) (valuesOf ((keys ++ more).map g))) :
    ∃ key, Wraps (f key) (g key) := by
  match keys, more with
  | [], _ => nomatch h
  | [key], [] => exact ⟨key, h⟩
  | [key], _ :: _ => exact ⟨key, h.of_array⟩
  | key :: _ :: _, _ => exact ⟨key, h.of_arrays⟩

mutual

/-- What the code returns is no list that starts with the value that is meant. -/
theorem Node.not_wraps (node : Node) (h : node.Distinct) (path : List Bytes) :
    ¬Wraps (selectResult node path) (node.selected path) := by
  match node, path with
  | .hash members, [] =>
      rw [selectResult]
      exact fun hwraps => nomatch hwraps
  | .hash members, selector :: path =>
      rw [Node.Distinct] at h
      rw [selectResult_hash h.1, Node.selected]
      intro hwraps
      have hkeys : keysOf selector =
          splitFields comma selector ++ (keysOf selector).rtakeWhile (· = []) :=
        (List.rdropWhile_append_rtakeWhile).symm
      rw [hkeys] at hwraps
      obtain ⟨key, hkey⟩ := hwraps.of_choices
      exact foundMember_not_wraps members h.2 key path hkey
  | .array nodes, path =>
      rw [Node.Distinct] at h
      rw [selectResult, Node.selected]
      match nodes with
      | [] => exact fun hwraps => nomatch hwraps
      | node :: nodes =>
          rw [DistinctNodes] at h
          rw [selectNodes, selectedNodes]
          exact fun hwraps => node.not_wraps h.1 path hwraps.of_arrays
  | .lvalue value, [] =>
      rw [selectResult]
      exact fun hwraps => nomatch hwraps
  | .lvalue value, _ :: _ =>
      rw [selectResult]
      exact fun hwraps => nomatch hwraps
  | .scalar value, path =>
      rw [selectResult]
      exact fun hwraps => nomatch hwraps
  | .undefined, path =>
      rw [selectResult]
      exact fun hwraps => nomatch hwraps

theorem foundMember_not_wraps (members : List (Bytes × Node)) (h : DistinctMembers members)
    (key : Bytes) (path : List Bytes) :
    ¬Wraps (foundMember members key path) (selectedMember members key path) := by
  match members with
  | [] => exact fun hwraps => nomatch hwraps
  | (name, node) :: members =>
      rw [DistinctMembers] at h
      rw [foundMember, selectedMember]
      split
      · exact node.not_wraps h.1 path
      · exact foundMember_not_wraps members h.2 key path

end

/-! ### Where the code returns the value -/

theorem isUndef_iff (node : Node) : node.isUndef = true ↔ .undefined = node := by
  cases node with
  | undefined => simp [Node.isUndef]
  | hash | array | lvalue | scalar => simp [Node.isUndef]

/-- The keys at the end that are missing are missed, unless nothing is selected anyway. -/
theorem resultOf_lost_iff {selector : Bytes} (hlast : (keysOf selector).getLast? = some [])
    (f g : Bytes → Node) (hwraps : ∀ key, ¬Wraps (f key) (g key)) :
    resultOf ((splitFields comma selector).map f) = valuesOf ((keysOf selector).map g) ↔
      selector.isEmpty ∧ (g []).isUndef = true := by
  obtain ⟨lost, hlost, hkeys⟩ := keysOf_eq_append hlast
  rw [isUndef_iff]
  constructor
  · intro heq
    rw [hkeys] at heq
    match hkept : splitFields comma selector, lost, hlost with
    | [], [key], _ =>
        rw [hkept] at hkeys heq
        have hnil : key = [] := by simpa [hkeys] using hlast
        subst hnil
        exact ⟨List.isEmpty_iff.mpr (keysOf_eq_singleton_nil hkeys), heq⟩
    | [], _ :: _ :: _, _ =>
        rw [hkept] at heq
        nomatch heq
    | [key], _ :: _, _ =>
        rw [hkept] at heq
        have hwrap : Wraps (f key) (g key) := by
          rw [show f key = _ from heq]
          exact .first
        exact absurd hwrap (hwraps key)
    | key :: key' :: keys, _ :: _, _ =>
        rw [hkept] at heq
        have hlength := congrArg List.length (Node.array.inj heq)
        simp at hlength
  · intro ⟨hnil, hundef⟩
    rw [List.isEmpty_iff.mp hnil]
    exact hundef

mutual

theorem Node.selectResult_eq_iff (node : Node) (h : node.Distinct) (path : List Bytes) :
    selectResult node path = node.selected path ↔ node.follows path = true := by
  match node, path with
  | .hash members, [] => simp [selectResult, Node.selected, Node.follows]
  | .hash members, selector :: path =>
      rw [Node.Distinct] at h
      have hne : keysOf selector ≠ [] := List.splitOn_ne_nil comma selector
      rw [selectResult_hash h.1, Node.selected, Node.follows]
      by_cases hlast : (keysOf selector).getLast? = some []
      · rw [if_neg (not_not.mpr hlast), Bool.and_eq_true,
          resultOf_lost_iff hlast _ _ fun key => foundMember_not_wraps members h.2 key path]
      · rw [if_pos hlast, splitFields_eq_keysOf hlast, valuesOf_eq_resultOf (by simpa using hne),
          resultOf_map_iff, List.all_eq_true]
        exact forall₂_congr fun key _ => foundMember_iff members h.2 key path
  | .array nodes, path =>
      rw [Node.Distinct] at h
      rw [selectResult, Node.selected, Node.follows, Node.array.injEq]
      exact selectNodes_iff nodes h path
  | .lvalue value, [] => simp [selectResult, Node.selected, Node.follows]
  | .lvalue value, _ :: _ => simp [selectResult, Node.selected, Node.follows]
  | .scalar value, [] => simp [selectResult, Node.selected, Node.follows]
  | .scalar value, _ :: _ => simp [selectResult, Node.selected, Node.follows]
  | .undefined, path => simp [selectResult, Node.selected, Node.follows]

theorem foundMember_iff (members : List (Bytes × Node)) (h : DistinctMembers members) (key : Bytes)
    (path : List Bytes) :
    foundMember members key path = selectedMember members key path ↔
      followsMember members key path = true := by
  match members with
  | [] => simp [foundMember, selectedMember, followsMember]
  | (name, node) :: members =>
      rw [DistinctMembers] at h
      rw [foundMember, selectedMember, followsMember]
      split
      · exact node.selectResult_eq_iff h.1 path
      · exact foundMember_iff members h.2 key path

theorem selectNodes_iff (nodes : List Node) (h : DistinctNodes nodes) (path : List Bytes) :
    selectNodes nodes path = selectedNodes nodes path ↔ followsNodes nodes path = true := by
  match nodes with
  | [] => simp [selectNodes, selectedNodes, followsNodes]
  | node :: nodes =>
      rw [DistinctNodes] at h
      rw [selectNodes, selectedNodes, followsNodes, List.cons.injEq, Bool.and_eq_true,
        node.selectResult_eq_iff h.1, selectNodes_iff nodes h.2]

end

/-- The code returns the value at the end of the path exactly if the path follows the tree. -/
theorem selectResult_iff (tree : Tree) (path : List Bytes) :
    selectResult tree.node path = tree.node.selected path ↔ tree.node.follows path = true :=
  tree.node.selectResult_eq_iff tree.distinct path

/-- `{"storage": "7"}`. -/
def storageTree : Tree where
  node := .hash [(str "storage", .scalar (str "7"))]
  distinct := by
    rw [Node.Distinct, DistinctMembers, DistinctMembers]
    exact ⟨by simp, trivial, trivial⟩

/-- The value at `storage` is returned for `value` too. -/
theorem selectResult_scalar :
    selectResult storageTree.node [str "storage", str "value"] = .scalar (str "7") ∧
      storageTree.node.selected [str "storage", str "value"] = .undefined := by
  constructor
  · rfl
  · rfl

end StrusWebService.Client
