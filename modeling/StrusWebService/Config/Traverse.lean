import StrusWebService.Config.Tree
import StrusWebService.Library.InPlace

/-! # The traversal in place

`configFromFile` passes the parsed configuration both as `root`, where references
are looked up, and as the value that is overwritten. `root` is therefore a
function here: the whole configuration for each content of the part in work. The
traversal amounts to one pass in place over the strings of the tree.
-/

namespace StrusWebService.Config

namespace Value

variable {σ ν : Type}

mutual

/-- `substConfigReferenceVariables( root, value)`. -/
def substConfigReferenceVariables (root : Value Str ν → Value Str ν) :
    Value Str ν → Option (Value Str ν)
  | string str => (Config.substConfigReferenceVariables (root (string str)).get str).map string
  | object members => (substObject (fun map => root (object map)) [] members).map object
  | array elements => (substArray (fun ar => root (array ar)) [] elements).map array
  | other leaf => some (other leaf)

/-- The overload for objects; the members before `mi` have been overwritten. -/
def substObject (root : List (Str × Value Str ν) → Value Str ν)
    (done : List (Str × Value Str ν)) :
    List (Str × Value Str ν) → Option (List (Str × Value Str ν))
  | [] => some done
  | (key, v) :: members =>
      (v.substConfigReferenceVariables fun w => root (done ++ (key, w) :: members)).bind fun v' =>
        substObject root (done ++ [(key, v')]) members

/-- The overload for arrays. -/
def substArray (root : List (Value Str ν) → Value Str ν) (done : List (Value Str ν)) :
    List (Value Str ν) → Option (List (Value Str ν))
  | [] => some done
  | v :: elements =>
      (v.substConfigReferenceVariables fun w => root (done ++ w :: elements)).bind fun v' =>
        substArray root (done ++ [v']) elements

end

end Value

/-- What `configFromFile` does with the parsed file. -/
def configFromParsed {ν : Type} (config : Value Str ν) : Option (Value Str ν) :=
  config.substConfigReferenceVariables id

namespace Value

variable {σ ν : Type}

/-! ### The traversal as a pass -/

/-- What `root.get` reads when the strings of a tree of this shape are `all`. -/
def readAt (v : Value σ ν) (all : List Str) (name : Str) : Str :=
  ((v.position (keysOf name)).bind fun i => all[i]?).getD []

theorem get_eq_readAt {v : Value σ ν} {w : Value Str ν} (h : w.shape = v.shape) :
    w.get = v.readAt w.texts := by
  funext name
  rw [get, textAt_eq, position_of_shape h, readAt]

/-- The pass over the strings of a part of the tree, `after` being the strings
behind the part. -/
def passOver (read : List Str → Str → Str) (after before : List Str) (todo : List Str) :
    Option (List Str) :=
  InPlace.pass (fun all => Config.substConfigReferenceVariables (read (all ++ after))) before todo

theorem passOver_append (read : List Str → Str → Str) (after before first second : List Str) :
    passOver read after before (first ++ second) =
      (passOver read (second ++ after) before first).bind fun before' =>
        passOver read after before' second := by
  simp only [passOver, InPlace.pass_append, List.append_assoc]

/-- The shape of a part and the strings up to its end. -/
def outcome (before : List Str) (v : Value Str ν) : Value Unit ν × List Str :=
  (v.shape, before ++ v.texts)

def outcomeOfMembers (before : List Str) (members : List (Str × Value Str ν)) :
    List (Str × Value Unit ν) × List Str :=
  (shapeOfMembers members, before ++ textsOfMembers members)

def outcomeOfElements (before : List Str) (elements : List (Value Str ν)) :
    List (Value Unit ν) × List Str :=
  (shapeOfElements elements, before ++ textsOfElements elements)

theorem outcome_object (before : List Str) :
    (outcome before ∘ object : List (Str × Value Str ν) → _) =
      Prod.map object id ∘ outcomeOfMembers before :=
  funext fun members => Prod.ext (shape_object members) rfl

theorem outcome_array (before : List Str) :
    (outcome before ∘ array : List (Value Str ν) → _) =
      Prod.map array id ∘ outcomeOfElements before :=
  funext fun elements => Prod.ext (shape_array elements) rfl

/-- Two computations with the same observations, continued alike. -/
theorem map_bind_of_map {α α' β β' γ δ : Type} {x : Option α} {x' : Option α'} {f : α → γ}
    {f' : α' → γ} {k : α → Option β} {k' : α' → Option β'} {g : β → δ} {g' : β' → δ}
    (h : x.map f = x'.map f') (hk : ∀ a a', f a = f' a' → (k a).map g = (k' a').map g') :
    (x.bind k).map g = (x'.bind k').map g' := by
  cases x with
  | none =>
      have hnone : x' = none := Option.map_eq_none_iff.mp h.symm
      rw [hnone]
      rfl
  | some a =>
      obtain ⟨a', ha', heq⟩ := Option.map_eq_some_iff.mp h.symm
      rw [ha']
      exact hk a a' heq.symm

mutual

/-- Traversing a part is the pass over its strings, in whatever tree it stands. -/
theorem subst_outcome (read : List Str → Str → Str) (before after : List Str) :
    (v : Value Str ν) → (root : Value Str ν → Value Str ν) →
    (∀ w : Value Str ν, w.shape = v.shape → (root w).get = read (before ++ w.texts ++ after)) →
    (v.substConfigReferenceVariables root).map (outcome before) =
      (passOver read after before v.texts).map (Prod.mk v.shape)
  | string str, root, hroot => by
      have hget := hroot (string str) rfl
      simp only [substConfigReferenceVariables, texts, passOver, InPlace.pass, hget]
      cases Config.substConfigReferenceVariables (read (before ++ [str] ++ after)) str <;> rfl
  | object members, root, hroot => by
      have hmembers := substObject_outcome read before after [] members
        (fun map => root (object map)) fun w hw => hroot (object w) (by
          rw [shape_object, shape_object, hw, List.nil_append])
      rw [substConfigReferenceVariables, Option.map_map, outcome_object, ← Option.map_map, hmembers,
        Option.map_map, shape_object]
      simp only [textsOfMembers, List.append_nil, List.nil_append, texts]
      rfl
  | array elements, root, hroot => by
      have helements := substArray_outcome read before after [] elements
        (fun ar => root (array ar)) fun w hw => hroot (array w) (by
          rw [shape_array, shape_array, hw, List.nil_append])
      rw [substConfigReferenceVariables, Option.map_map, outcome_array, ← Option.map_map, helements,
        Option.map_map, shape_array]
      simp only [textsOfElements, List.append_nil, List.nil_append, texts]
      rfl
  | other leaf, root, _ => by
      simp [substConfigReferenceVariables, texts, passOver, outcome]

theorem substObject_outcome (read : List Str → Str → Str) (before after : List Str)
    (done : List (Str × Value Str ν)) :
    (members : List (Str × Value Str ν)) → (root : List (Str × Value Str ν) → Value Str ν) →
    (∀ w, shapeOfMembers w = shapeOfMembers (done ++ members) →
      (root w).get = read (before ++ textsOfMembers w ++ after)) →
    (substObject root done members).map (outcomeOfMembers before) =
      (passOver read after (before ++ textsOfMembers done) (textsOfMembers members)).map
        (Prod.mk (shapeOfMembers (done ++ members)))
  | [], root, _ => by
      simp [substObject, passOver, textsOfMembers, outcomeOfMembers]
  | (key, v) :: members, root, hroot => by
      have hv := subst_outcome read (before ++ textsOfMembers done)
        (textsOfMembers members ++ after) v (fun w => root (done ++ (key, w) :: members))
        fun w hw => by
          rw [hroot (done ++ (key, w) :: members) (by simp [shapeOfMembers, hw])]
          simp [textsOfMembers_eq]
      rw [substObject, textsOfMembers, passOver_append]
      apply map_bind_of_map hv
      intro v' before' heq
      obtain ⟨hshape, rfl⟩ := Prod.mk.inj heq
      -- the member written joins those that are done
      have hshapes : shapeOfMembers (done ++ [(key, v')] ++ members) =
          shapeOfMembers (done ++ (key, v) :: members) := by
        simp [shapeOfMembers, hshape]
      have hrest := substObject_outcome read before after (done ++ [(key, v')]) members root
        fun w hw => hroot w (hw.trans hshapes)
      rw [hshapes] at hrest
      simpa [textsOfMembers_eq] using hrest

theorem substArray_outcome (read : List Str → Str → Str) (before after : List Str)
    (done : List (Value Str ν)) :
    (elements : List (Value Str ν)) → (root : List (Value Str ν) → Value Str ν) →
    (∀ w, shapeOfElements w = shapeOfElements (done ++ elements) →
      (root w).get = read (before ++ textsOfElements w ++ after)) →
    (substArray root done elements).map (outcomeOfElements before) =
      (passOver read after (before ++ textsOfElements done) (textsOfElements elements)).map
        (Prod.mk (shapeOfElements (done ++ elements)))
  | [], root, _ => by
      simp [substArray, passOver, textsOfElements, outcomeOfElements]
  | v :: elements, root, hroot => by
      have hv := subst_outcome read (before ++ textsOfElements done)
        (textsOfElements elements ++ after) v (fun w => root (done ++ w :: elements))
        fun w hw => by
          rw [hroot (done ++ w :: elements) (by simp [shapeOfElements, hw])]
          simp [textsOfElements_eq]
      rw [substArray, textsOfElements, passOver_append]
      apply map_bind_of_map hv
      intro v' before' heq
      obtain ⟨hshape, rfl⟩ := Prod.mk.inj heq
      have hshapes : shapeOfElements (done ++ [v'] ++ elements) =
          shapeOfElements (done ++ v :: elements) := by
        simp [shapeOfElements, hshape]
      have hrest := substArray_outcome read before after (done ++ [v']) elements root
        fun w hw => hroot w (hw.trans hshapes)
      rw [hshapes] at hrest
      simpa [textsOfElements_eq] using hrest

end

end Value

end StrusWebService.Config
