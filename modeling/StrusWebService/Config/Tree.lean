import StrusWebService.Config.Scan

/-! # Configuration trees

A configuration is a tree of objects, arrays, strings and other leaves. The
strings are a parameter, so that a tree of raw strings, the tree of templates it
is written as and its bare shape are trees of one kind. `texts` lists the strings
in the order of the traversal; a dotted path leads to at most one of them.
-/

namespace StrusWebService.Config

/-- `cppcms::json::value`; an object has its members in key order. -/
inductive Value (σ ν : Type) where
  | string (text : σ)
  | object (members : List (Str × Value σ ν))
  | array (elements : List (Value σ ν))
  | other (leaf : ν)

namespace Value

variable {σ τ ν : Type}

mutual

/-- The strings in the order the traversal meets them. -/
def texts : Value σ ν → List σ
  | string text => [text]
  | object members => textsOfMembers members
  | array elements => textsOfElements elements
  | other _ => []

def textsOfMembers : List (Str × Value σ ν) → List σ
  | [] => []
  | (_, v) :: members => v.texts ++ textsOfMembers members

def textsOfElements : List (Value σ ν) → List σ
  | [] => []
  | v :: elements => v.texts ++ textsOfElements elements

end

mutual

def map (f : σ → τ) : Value σ ν → Value τ ν
  | string text => string (f text)
  | object members => object (mapMembers f members)
  | array elements => array (mapElements f elements)
  | other leaf => other leaf

def mapMembers (f : σ → τ) : List (Str × Value σ ν) → List (Str × Value τ ν)
  | [] => []
  | (key, v) :: members => (key, v.map f) :: mapMembers f members

def mapElements (f : σ → τ) : List (Value σ ν) → List (Value τ ν)
  | [] => []
  | v :: elements => v.map f :: mapElements f elements

end

/-- The tree without its strings. -/
def shape : Value σ ν → Value Unit ν := map fun _ => ()

mutual

/-- The string at the end of a path of keys. -/
def textAt : Value σ ν → List Str → Option σ
  | string text, [] => some text
  | object members, key :: path => textAtMember members key path
  | _, _ => none

def textAtMember : List (Str × Value σ ν) → Str → List Str → Option σ
  | [], _, _ => none
  | (key', v) :: members, key, path =>
      if key' = key then v.textAt path else textAtMember members key path

end

mutual

/-- Where in `texts` the string at the end of a path stands. -/
def position : Value σ ν → List Str → Option Nat
  | string _, [] => some 0
  | object members, key :: path => positionOfMember members key path
  | _, _ => none

def positionOfMember : List (Str × Value σ ν) → Str → List Str → Option Nat
  | [], _, _ => none
  | (key', v) :: members, key, path =>
      if key' = key then v.position path
      else (positionOfMember members key path).map (v.texts.length + ·)

end

/-- The keys of a dotted path. -/
def keysOf (name : Str) : List Str := name.splitOn 46

/-- `root.get( name, "")`. -/
def get (root : Value Str ν) (name : Str) : Str := (root.textAt (keysOf name)).getD []

/-! ### Maps -/

mutual

theorem texts_map (f : σ → τ) : (v : Value σ ν) → (v.map f).texts = v.texts.map f
  | string _ => rfl
  | object members => textsOfMembers_map f members
  | array elements => textsOfElements_map f elements
  | other _ => rfl

theorem textsOfMembers_map (f : σ → τ) : (members : List (Str × Value σ ν)) →
    textsOfMembers (mapMembers f members) = (textsOfMembers members).map f
  | [] => rfl
  | (key, v) :: members => by
      simp only [mapMembers, textsOfMembers, List.map_append, texts_map f v,
        textsOfMembers_map f members]

theorem textsOfElements_map (f : σ → τ) : (elements : List (Value σ ν)) →
    textsOfElements (mapElements f elements) = (textsOfElements elements).map f
  | [] => rfl
  | v :: elements => by
      simp only [mapElements, textsOfElements, List.map_append, texts_map f v,
        textsOfElements_map f elements]

end

mutual

theorem textAt_map (f : σ → τ) : (v : Value σ ν) → (path : List Str) →
    (v.map f).textAt path = (v.textAt path).map f
  | string _, [] => rfl
  | string _, _ :: _ => rfl
  | object _, [] => rfl
  | object members, key :: path => textAtMember_map f members key path
  | array _, _ => rfl
  | other _, _ => rfl

theorem textAtMember_map (f : σ → τ) : (members : List (Str × Value σ ν)) → (key : Str) →
    (path : List Str) →
    textAtMember (mapMembers f members) key path = (textAtMember members key path).map f
  | [], _, _ => rfl
  | (key', v) :: members, key, path => by
      simp only [mapMembers, textAtMember, textAt_map f v path, textAtMember_map f members key path]
      split <;> rfl

end

mutual

theorem position_map (f : σ → τ) : (v : Value σ ν) → (path : List Str) →
    (v.map f).position path = v.position path
  | string _, [] => rfl
  | string _, _ :: _ => rfl
  | object _, [] => rfl
  | object members, key :: path => positionOfMember_map f members key path
  | array _, _ => rfl
  | other _, _ => rfl

theorem positionOfMember_map (f : σ → τ) : (members : List (Str × Value σ ν)) → (key : Str) →
    (path : List Str) →
    positionOfMember (mapMembers f members) key path = positionOfMember members key path
  | [], _, _ => rfl
  | (key', v) :: members, key, path => by
      simp only [mapMembers, positionOfMember, position_map f v path, texts_map f v, List.length_map,
        positionOfMember_map f members key path]

end

mutual

theorem map_map {υ : Type} (f : σ → τ) (g : τ → υ) : (v : Value σ ν) →
    (v.map f).map g = v.map (g ∘ f)
  | string _ => rfl
  | object members => congrArg object (mapMembers_map f g members)
  | array elements => congrArg array (mapElements_map f g elements)
  | other _ => rfl

theorem mapMembers_map {υ : Type} (f : σ → τ) (g : τ → υ) : (members : List (Str × Value σ ν)) →
    mapMembers g (mapMembers f members) = mapMembers (g ∘ f) members
  | [] => rfl
  | (key, v) :: members => by
      simp only [mapMembers, map_map f g v, mapMembers_map f g members]

theorem mapElements_map {υ : Type} (f : σ → τ) (g : τ → υ) : (elements : List (Value σ ν)) →
    mapElements g (mapElements f elements) = mapElements (g ∘ f) elements
  | [] => rfl
  | v :: elements => by
      simp only [mapElements, map_map f g v, mapElements_map f g elements]

end

@[simp] theorem shape_map (f : σ → τ) (v : Value σ ν) : (v.map f).shape = v.shape := map_map f _ v

/-! ### A tree is its shape and its texts -/

theorem length_texts_of_shape {v : Value σ ν} {v' : Value τ ν} (h : v.shape = v'.shape) :
    v.texts.length = v'.texts.length := by
  have hlength := congrArg (fun s => s.texts.length) h
  simpa [shape, texts_map] using hlength

theorem position_of_shape {v : Value σ ν} {v' : Value τ ν} (h : v.shape = v'.shape)
    (path : List Str) : v.position path = v'.position path := by
  have hposition := congrArg (fun s => s.position path) h
  simpa [shape, position_map] using hposition

mutual

/-- The position of a path is its own whatever follows the texts of the tree. -/
theorem textAt_append (behind : List σ) : (v : Value σ ν) → (path : List Str) →
    ((v.position path).bind fun i => (v.texts ++ behind)[i]?) = v.textAt path
  | string _, [] => rfl
  | string _, _ :: _ => rfl
  | object _, [] => rfl
  | object members, key :: path => textAtMember_append behind members key path
  | array _, _ => rfl
  | other _, _ => rfl

theorem textAtMember_append (behind : List σ) : (members : List (Str × Value σ ν)) →
    (key : Str) → (path : List Str) →
    ((positionOfMember members key path).bind fun i => (textsOfMembers members ++ behind)[i]?) =
      textAtMember members key path
  | [], _, _ => rfl
  | (key', v) :: members, key, path => by
      have hfirst := textAt_append (textsOfMembers members ++ behind) v path
      have hrest := textAtMember_append behind members key path
      simp only [textAtMember, positionOfMember, textsOfMembers, List.append_assoc]
      split
      · exact hfirst
      · rw [← hrest, Option.bind_map]
        apply Option.bind_congr
        intro i _
        rw [Function.comp_apply, List.getElem?_append_right (Nat.le_add_right _ _),
          Nat.add_sub_cancel_left]

end

theorem textAt_eq (v : Value σ ν) (path : List Str) :
    v.textAt path = (v.position path).bind fun i => v.texts[i]? := by
  simpa using (textAt_append [] v path).symm

mutual

theorem ext_texts : (v v' : Value σ ν) → v.shape = v'.shape → v.texts = v'.texts → v = v'
  | string text, v', hshape, htexts => by
      cases v' with
      | string text' => cases htexts; rfl
      | object _ | array _ | other _ => nomatch hshape
  | object members, v', hshape, htexts => by
      cases v' with
      | object members' =>
          exact congrArg object (ext_members members members' (Value.object.inj hshape) htexts)
      | string _ | array _ | other _ => nomatch hshape
  | array elements, v', hshape, htexts => by
      cases v' with
      | array elements' =>
          exact congrArg array (ext_elements elements elements' (Value.array.inj hshape) htexts)
      | string _ | object _ | other _ => nomatch hshape
  | other leaf, v', hshape, _ => by
      cases v' with
      | other leaf' => cases hshape; rfl
      | string _ | object _ | array _ => nomatch hshape

theorem ext_members : (members members' : List (Str × Value σ ν)) →
    mapMembers (fun _ => ()) members = mapMembers (fun _ => ()) members' →
    textsOfMembers members = textsOfMembers members' → members = members'
  | [], [], _, _ => rfl
  | (key, v) :: members, (key', v') :: members', hshape, htexts => by
      obtain ⟨hhead, htail⟩ := List.cons.inj hshape
      obtain ⟨hkey, hv⟩ := Prod.mk.inj hhead
      obtain ⟨hfirst, hrest⟩ := List.append_inj htexts (length_texts_of_shape hv)
      rw [hkey, ext_texts v v' hv hfirst, ext_members members members' htail hrest]

theorem ext_elements : (elements elements' : List (Value σ ν)) →
    mapElements (fun _ => ()) elements = mapElements (fun _ => ()) elements' →
    textsOfElements elements = textsOfElements elements' → elements = elements'
  | [], [], _, _ => rfl
  | v :: elements, v' :: elements', hshape, htexts => by
      obtain ⟨hv, htail⟩ := List.cons.inj hshape
      obtain ⟨hfirst, hrest⟩ := List.append_inj htexts (length_texts_of_shape hv)
      rw [ext_texts v v' hv hfirst, ext_elements elements elements' htail hrest]

end

/-! ### Members and elements as lists -/

theorem textsOfMembers_eq (members : List (Str × Value σ ν)) :
    textsOfMembers members = members.flatMap fun m => m.2.texts := by
  induction members with
  | nil => rfl
  | cons m members ih => rw [List.flatMap_cons, ← ih]; rfl

theorem textsOfElements_eq (elements : List (Value σ ν)) :
    textsOfElements elements = elements.flatMap texts := by
  induction elements with
  | nil => rfl
  | cons v elements ih => rw [List.flatMap_cons, ← ih]; rfl

theorem mapMembers_eq (f : σ → τ) (members : List (Str × Value σ ν)) :
    mapMembers f members = members.map fun m => (m.1, m.2.map f) := by
  induction members with
  | nil => rfl
  | cons m members ih => rw [List.map_cons, ← ih]; rfl

theorem mapElements_eq (f : σ → τ) (elements : List (Value σ ν)) :
    mapElements f elements = elements.map (map f) := by
  induction elements with
  | nil => rfl
  | cons v elements ih => rw [List.map_cons, ← ih]; rfl

def shapeOfMembers (members : List (Str × Value σ ν)) : List (Str × Value Unit ν) :=
  members.map fun m => (m.1, m.2.shape)

def shapeOfElements (elements : List (Value σ ν)) : List (Value Unit ν) := elements.map shape

theorem shape_object (members : List (Str × Value σ ν)) :
    (object members).shape = object (shapeOfMembers members) :=
  congrArg object (mapMembers_eq _ members)

theorem shape_array (elements : List (Value σ ν)) :
    (array elements).shape = array (shapeOfElements elements) :=
  congrArg array (mapElements_eq _ elements)

/-! ### The order of the members -/

/-- The tree with the members of its objects in another order. -/
inductive Reordered : Value σ ν → Value σ ν → Prop where
  | perm {members members' : List (Str × Value σ ν)} (distinct : (members.map Prod.fst).Nodup)
      (h : members.Perm members') : Reordered (object members) (object members')
  | member {v v' : Value σ ν} (front back : List (Str × Value σ ν)) (key : Str)
      (h : Reordered v v') :
      Reordered (object (front ++ (key, v) :: back)) (object (front ++ (key, v') :: back))
  | element {v v' : Value σ ν} (front back : List (Value σ ν)) (h : Reordered v v') :
      Reordered (array (front ++ v :: back)) (array (front ++ v' :: back))
  | refl (v : Value σ ν) : Reordered v v
  | trans {v v' v'' : Value σ ν} (h : Reordered v v') (h' : Reordered v' v'') : Reordered v v''

theorem textAtMember_perm {members members' : List (Str × Value σ ν)}
    (distinct : (members.map Prod.fst).Nodup) (h : members.Perm members') (key : Str)
    (path : List Str) : textAtMember members key path = textAtMember members' key path := by
  induction h with
  | nil => rfl
  | cons m _ ih =>
      have htail := ih (List.nodup_cons.mp distinct).2
      rw [textAtMember, textAtMember, htail]
  | swap m m' members =>
      have hne : m'.1 ≠ m.1 := by
        intro heq
        apply (List.nodup_cons.mp distinct).1
        rw [heq]
        exact List.mem_cons_self
      by_cases hkey : m.1 = key
      · have hother : m'.1 ≠ key := fun heq => hne (heq.trans hkey.symm)
        simp [textAtMember, hkey, hother]
      · simp [textAtMember, hkey]
  | trans h _ ih ih' => rw [ih distinct, ih' ((h.map Prod.fst).nodup_iff.mp distinct)]

theorem textAtMember_append_congr (front : List (Str × Value σ ν))
    {members members' : List (Str × Value σ ν)} {key : Str} {path : List Str}
    (h : textAtMember members key path = textAtMember members' key path) :
    textAtMember (front ++ members) key path = textAtMember (front ++ members') key path := by
  induction front with
  | nil => exact h
  | cons m front ih => simp only [List.cons_append, textAtMember, ih]

/-- A path leads to the same string in whatever order the members are. -/
theorem Reordered.textAt_eq {v v' : Value σ ν} (h : v.Reordered v') (path : List Str) :
    v.textAt path = v'.textAt path := by
  induction h generalizing path with
  | perm distinct h =>
      cases path with
      | nil => rfl
      | cons key path => exact textAtMember_perm distinct h key path
  | member front back key' h ih =>
      cases path with
      | nil => rfl
      | cons key path =>
          apply textAtMember_append_congr
          simp only [textAtMember, ih path]
  | element front back h ih => rfl
  | refl v => rfl
  | trans h h' ih ih' => rw [ih, ih']

theorem Reordered.map {v v' : Value σ ν} (h : v.Reordered v') (f : σ → τ) :
    (v.map f).Reordered (v'.map f) := by
  induction h with
  | perm distinct h =>
      simp only [Value.map, mapMembers_eq]
      apply perm
      · simpa [Function.comp_def] using distinct
      · exact h.map _
  | member front back key h ih =>
      simp only [Value.map, mapMembers_eq, List.map_append, List.map_cons]
      exact member _ _ key ih
  | element front back h ih =>
      simp only [Value.map, mapElements_eq, List.map_append, List.map_cons]
      exact element _ _ ih
  | refl v => exact refl _
  | trans h h' ih ih' => exact trans ih ih'

end Value

end StrusWebService.Config
