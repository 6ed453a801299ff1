import EntityGraph.Input.Shape

/-!
# Affected fields

The fields that a coerced value touches: the fields of its inputs, the far ends of the edges that
it changes, and the same for all nested objects. The list of a shape names each field once, where
it comes up first.

## Main definitions

* `Input.affectedWith` — the fields that one input touches, given those of its value
* `affected`, `Input.affected`

## Main results

* `affected_object`, `itemsAffected_eq` — the recursion without tables
-/

namespace EntityGraph

/-- The fields that an object touches as an input object with the given inputs. -/
abbrev Touched := List Input → Except InputError (List FieldId)

/-- The fields that an entry touches by the given input. -/
abbrev EntryTouched := Input → Except InputError (List FieldId)

namespace Input

/-- The fields that the objects of a nested shape touch. -/
def nestedTouched (s : Schema) (role : Role) (t : TypeDef) (objects : List Touched) :
    Except InputError (List FieldId) := do
  let shape ← s.shape role t
  let fields ← objects.mapM fun touched => touched shape.inputs
  return fields.flatten

/-- The fields that the input touches with a value. `object` tells what the value touches as an
input object, and `items` what its items do. -/
def affectedWith (s : Schema) (i : Input) (v : Value) (object : Touched) (items : List Touched) :
    Except InputError (List FieldId) := do
  let single := if v.isNull then [] else [object]
  let far (side : RelationSide) : List FieldId := side.targetField.toList
  match i.kind with
  | .filter => return []
  | .scalar .. | .combine .. | .removeChildren _ | .reference _ => return [i.field.id]
  | .valueObject type false | .createExtension type =>
    return i.field.id :: (← nestedTouched s .create type single)
  | .valueObject type true | .createChildren type | .addChildren type =>
    return i.field.id :: (← nestedTouched s .create type items)
  | .updateExtension type => return i.field.id :: (← nestedTouched s .update type single)
  | .updateChildren type => return i.field.id :: (← nestedTouched s .update type items)
  | .addEdges side | .removeEdges side =>
    return i.field.id :: (if items.isEmpty then [] else far side)
  | .setEdge side => return i.field.id :: far side
  | .createAndAddEdges side type =>
    return i.field.id :: (if items.isEmpty then [] else far side) ++
      (← nestedTouched s .create type items)
  | .createAndSetEdge side type =>
    if v.isNull then return []
    else return i.field.id :: far side ++ (← nestedTouched s .create type single)

end Input

/-- The fields that inputs touch, each once, for those that have an entry in the table. -/
def touchedByInputs (table : List (String × EntryTouched)) : Touched := fun inputs => do
  let fields ← inputs.mapM fun i =>
    match table.lookup i.name with
    | some touched => touched i
    | none => .ok []
  return fields.flatten.eraseDups

mutual

/-- The fields that a value touches as an input object; a value that is no object touches none. -/
def affected (s : Schema) : Value → Touched
  | .object entries => touchedByInputs (entriesAffected s entries)
  | _ => fun _ => .ok []

/-- What the items of a value touch. -/
def itemsAffected (s : Schema) : Value → List Touched
  | .list items => listAffected s items
  | _ => []

/-- What each of several values touches. -/
def listAffected (s : Schema) : List Value → List Touched
  | [] => []
  | v :: vs => affected s v :: listAffected s vs

/-- The table of what entries touch. -/
def entriesAffected (s : Schema) : List (String × Value) → List (String × EntryTouched)
  | [] => []
  | (name, v) :: rest =>
    (name, fun i => i.affectedWith s v (affected s v) (itemsAffected s v)) :: entriesAffected s rest

end

/-- The fields that the input touches with a value. -/
def Input.affected (s : Schema) (i : Input) (v : Value) : Except InputError (List FieldId) :=
  i.affectedWith s v (EntityGraph.affected s v) (itemsAffected s v)

theorem listAffected_eq (s : Schema) (vs : List Value) :
    listAffected s vs = vs.map (affected s) := by
  induction vs with
  | nil => simp [listAffected]
  | cons v vs ih => simp [listAffected, ih]

/-- What the items of a value touch is what each of them does. -/
theorem itemsAffected_eq (s : Schema) (v : Value) :
    itemsAffected s v = v.items.map (affected s) := by
  cases v <;> simp [itemsAffected, Value.items, listAffected_eq]

theorem lookup_entriesAffected (s : Schema) (entries : Entries) (name : String) :
    (entriesAffected s entries).lookup name =
      (entries.get? name).map fun v i => i.affected s v := by
  induction entries with
  | nil => rfl
  | cons entry rest ih =>
    obtain ⟨k, v⟩ := entry
    rw [entriesAffected, List.lookup_cons, Entries.get?_cons]
    split <;> simp_all [Input.affected]

/-- An object touches what the inputs that it gives do, each field once. -/
theorem affected_object (s : Schema) (entries : Entries) (inputs : List Input) :
    affected s (.object entries) inputs = (do
      let fields ← inputs.mapM fun i =>
        match entries.get? i.name with
        | some v => i.affected s v
        | none => .ok []
      return fields.flatten.eraseDups) := by
  simp only [affected, touchedByInputs, lookup_entriesAffected]
  congr 1
  refine congrArg (inputs.mapM ·) (funext fun i => ?_)
  cases entries.get? i.name <;> rfl

end EntityGraph
