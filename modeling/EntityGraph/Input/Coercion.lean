import EntityGraph.Input.Scalar
import EntityGraph.Input.Shape

/-!
# Coercion of input objects

Coercion brings a supplied value into the form that plans are made from. An input object is
coerced entry by entry in the order of its keys; then it must not have two inputs that replace the
same field, absent setters of a new object get their declared defaults, and an update must say
which object it is for. Declared defaults are taken as they are.

The recursion is on the value: a nested input object is a part of the object around it.

## Main definitions

* `Shape.complete` — what is done with the coerced entries of an object
* `Input.coerceWith` — coercion for one input, given the coercion of nested objects
* `Shape.coerce`, `Input.coerce`

## Main results

* `coerceItems_eq` — items are coerced one by one
-/

namespace EntityGraph

/-! ### Whole objects -/

namespace Shape

/-- The given inputs that replace a field. -/
def writers (shape : Shape) (entries : Entries) (field : FieldId) : List String :=
  let given := shape.inputs.filter fun i =>
    i.field.id == field && i.kind.replaces && entries.has i.name
  given.map (·.name)

/-- The first field that several given inputs replace, with their names. -/
def conflict? (shape : Shape) (entries : Entries) : Option (String × List String) :=
  shape.inputs.findSome? fun i =>
    let names := shape.writers entries i.field.id
    if 1 < names.length then some (i.field.name, names) else none

/-- The entries with the default of an input, if it has one and is absent. -/
def fillDefault (entries : Entries) (i : Input) : Entries :=
  match i.field.defaultValue with
  | some value =>
    if i.kind.isSetter && !entries.has i.name then entries.insert i.name value else entries
  | none => entries

/-- The entries with the declared defaults of absent inputs. Only new objects get them. -/
def fillDefaults (shape : Shape) (entries : Entries) : Entries :=
  match shape.role with
  | .create => shape.inputs.foldl fillDefault entries
  | _ => entries

/-- The object of coerced entries, if they may be given together and identify what they have to.
-/
def complete (shape : Shape) (entries : Entries) : Except InputError Value := do
  if let some (field, names) := shape.conflict? entries then
    throw (.conflictingInputs shape.name field names)
  let entries := shape.fillDefaults entries
  if let some filter := shape.filter? then
    if !entries.has filter.name then
      throw (.missingIdentity shape.name filter.name)
  return .object entries

end Shape

/-- The first value that is equal to an earlier one. -/
def firstRepeated? (seen : List Value) : List Value → Option Value
  | [] => none
  | v :: vs => if seen.any (· == v) then some v else firstRepeated? (v :: seen) vs

/-! ### Single inputs -/

/-- A list of input objects, from the coercion of its items; null is the empty list. -/
def coerceObjects (input : String) (v : Value) (items : Except InputError (List Value)) :
    Except InputError Value :=
  match v with
  | .null => .ok (.list [])
  | .list _ => items.map .list
  | _ => .error (.notAList input v.typeName)

namespace Input

/-- A value for the input. `object` coerces the value as an input object of a shape, and `objects`
its items. -/
def coerceWith (s : Schema) (i : Input) (v : Value) (object : Shape → Except InputError Value)
    (objects : Shape → Except InputError (List Value)) : Except InputError Value :=
  match i.kind with
  | .filter => coerceId i.name v
  | .scalar type false => coerceScalar i.name type v
  | .scalar type true => coerceList i.name (coerceScalar i.name type) v
  | .combine type _ =>
    if v.isNull then .error (.invalidValue i.name type.name v.typeName)
    else coerceScalar i.name type v
  | .reference keyType => coerceScalar i.name keyType v
  | .valueObject type false => do
    let shape ← s.shape .create type
    if v.isNull then return .null else object shape
  | .valueObject type true | .createChildren type | .addChildren type
  | .createAndAddEdges _ type => do
    let shape ← s.shape .create type
    coerceObjects i.name v (objects shape)
  | .createExtension type | .createAndSetEdge _ type =>
    if v.isNull then .ok .null else do object (← s.shape .create type)
  | .updateExtension type =>
    if v.isNull then .ok .null else do object (← s.shape .update type)
  | .updateChildren type => do
    let shape ← s.shape .update type
    let updates ← coerceObjects i.name v (objects shape)
    match firstRepeated? [] (updates.items.filterMap shape.identity?) with
    | some id => .error (.duplicateIdentity i.name (id.string?.getD ""))
    | none => return updates
  | .removeChildren _ | .addEdges _ | .removeEdges _ => coerceList i.name (coerceId i.name) v
  | .setEdge _ => if v.isNull then .ok .null else coerceId i.name v

end Input

/-! ### Recursion on the value -/

mutual

/-- A value as an input object of a shape. -/
def coerceObject (s : Schema) (shape : Shape) : Value → Except InputError Value
  | .object entries => do shape.complete (← coerceEntries s shape entries)
  | v => .error (.notAnObject shape.name v.typeName)

/-- The items of a value, each as an input object of a shape. -/
def coerceItems (s : Schema) (shape : Shape) : Value → Except InputError (List Value)
  | .list items => coerceAll s shape items
  | _ => .ok []

/-- Values, each as an input object of a shape. -/
def coerceAll (s : Schema) (shape : Shape) : List Value → Except InputError (List Value)
  | [] => .ok []
  | v :: vs => do
    let w ← coerceObject s shape v
    return w :: (← coerceAll s shape vs)

/-- The entries of an input object, each by the input with its name. -/
def coerceEntries (s : Schema) (shape : Shape) : List (String × Value) → Except InputError Entries
  | [] => .ok []
  | (name, v) :: rest => do
    match shape.input? name with
    | none => throw (.unknownInput shape.name name)
    | some i =>
      let w ← i.coerceWith s v (fun nested => coerceObject s nested v)
        (fun nested => coerceItems s nested v)
      let ws ← coerceEntries s shape rest
      return if i.isNoChange w then ws else (name, w) :: ws

end

/-- A supplied value in the form that plans of the shape are made from. -/
def Shape.coerce (s : Schema) (shape : Shape) (v : Value) : Except InputError Value :=
  coerceObject s shape v

/-- A supplied value in the form that plans of the input are made from. -/
def Input.coerce (s : Schema) (i : Input) (v : Value) : Except InputError Value :=
  i.coerceWith s v (fun nested => coerceObject s nested v) (fun nested => coerceItems s nested v)

theorem coerceAll_eq (s : Schema) (shape : Shape) (vs : List Value) :
    coerceAll s shape vs = vs.mapM (coerceObject s shape) := by
  induction vs with
  | nil => rw [coerceAll, List.mapM_nil]; rfl
  | cons v vs ih => rw [coerceAll, ih, List.mapM_cons]

/-- The items of a value are coerced one by one. -/
theorem coerceItems_eq (s : Schema) (shape : Shape) (v : Value) :
    coerceItems s shape v = v.items.mapM (coerceObject s shape) := by
  cases v <;> simp [coerceItems, Value.items, coerceAll_eq] <;> rfl

end EntityGraph
