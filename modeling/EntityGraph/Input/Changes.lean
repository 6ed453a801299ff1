import EntityGraph.Input.Shape

/-!
# Changes

The writing steps that a coerced value makes. Each given input of a shape contributes its steps,
in the order of the shape and not of the keys, and every nested object binds a variable of its
own.

The recursion is on the value. Since a shape looks its inputs up in an object, the object first
becomes a table of writers, one for each entry, and a writer is called when its input is reached.

## Main definitions

* `Writer`, `EntryWriter` — the steps of an object, and of one entry
* `Shape.create`, `Shape.update` — the step around the changes of an object
* `Input.planWith` — the steps of one input, given the writers of its value
* `changes`, `Input.plan`

## Main results

* `changes_object`, `itemWriters_eq` — the recursion without tables
-/

namespace EntityGraph

/-- The steps that an object makes as an input object with the given inputs, applied to a plan for
the object to change. -/
abbrev Writer := List Input → Plan → Planner InputError (List Plan)

/-- The steps that an entry makes by the given input. -/
abbrev EntryWriter := Input → Plan → Planner InputError (List Plan)

/-! ### Objects -/

namespace Shape

/-- A child is stored with its identity; the store assigns that of a root. -/
def identitySteps (t : TypeDef) : List Plan :=
  if t.kind = .childEntity then
    match t.field? identityName with
    | some f => [.setField f.id identityName .generateId]
    | none => []
  else
    []

/-- The step that creates an object with the changes of a writer. -/
def create (shape : Shape) (write : Writer) : Planner InputError Plan := do
  let binding ← fresh "new"
  let steps ← write shape.inputs (.var binding)
  return .createObject shape.type.id binding (identitySteps shape.type ++ steps)

/-- The step that applies the changes of a writer to `target`. -/
def update (shape : Shape) (target : Plan) (write : Writer) : Planner InputError Plan := do
  let binding ← fresh "target"
  let steps ← write shape.inputs (.var binding)
  return .updateObject target binding steps

end Shape

/-- The plan of the child to which an update applies: each update is tried in order, and a child
that none of them addresses stays as it is. -/
def updateChain (child : Variable) (updates : List (Value × Plan)) : Plan :=
  updates.foldr
    (fun (id, step) otherwise =>
      .conditional (.eq (.entityId (.var child)) (.literal id)) step otherwise)
    (.var child)

/-! ### Single inputs -/

namespace Input

/-- The step that stores a value in the field of the input. -/
def set (i : Input) (value : Plan) : Plan := .setField i.field.id i.field.name value

/-- The plan that reads what is stored in the field of the input. -/
def stored (s : Schema) (i : Input) (current : Plan) : Planner InputError Plan :=
  (s.read i.field current).mapError .unreadable

/-- The steps that create objects of a type, one for each writer. -/
def createAll (s : Schema) (t : TypeDef) (items : List (Value × Writer)) :
    Planner InputError (List Plan) := do
  let shape ← Planner.ofExcept (s.shape .create t)
  items.mapM fun (_, write) => shape.create write

/-- The steps of the input for a value. `object` writes the value as an input object, and `items`
are the items of the value with their writers. -/
def planWith (s : Schema) (i : Input) (v : Value) (object : Writer) (items : List (Value × Writer))
    (current : Plan) : Planner InputError (List Plan) :=
  match i.kind with
  | .filter => return []
  | .scalar .. | .reference _ => return [i.set (.literal v)]
  | .combine _ op =>
    return [i.set (.binary (.ofCalc op) (.field current i.field.id i.field.name) (.literal v))]
  | .valueObject type false | .createExtension type =>
    if v.isNull then return [i.set .null]
    else do
      let shape ← Planner.ofExcept (s.shape .create type)
      return [i.set (← shape.create object)]
  | .valueObject type true | .createChildren type => do
    return [i.set (.list (← createAll s type items))]
  | .updateExtension type =>
    if v.isNull then return [i.set .null]
    else do
      let stored ← i.stored s current
      let shape ← Planner.ofExcept (s.shape .update type)
      return [i.set (← shape.update stored object)]
  | .addChildren type =>
    if items.isEmpty then return []
    else do
      let stored ← i.stored s current
      return [i.set (.binary .concat stored (.list (← createAll s type items)))]
  | .updateChildren type =>
    if items.isEmpty then return []
    else do
      let stored ← i.stored s current
      let shape ← Planner.ofExcept (s.shape .update type)
      let child ← fresh "child"
      let updates ← items.mapM fun (item, write) => do
        return ((item.get? identityName).getD .null, ← shape.update (.var child) write)
      return [i.set (.transformList stored child none none (some (updateChain child updates)))]
  | .removeChildren _ =>
    if items.isEmpty then return []
    else do
      let stored ← i.stored s current
      let child ← fresh "child"
      let removed := Plan.binary .isIn (.entityId (.var child)) (.literal v)
      return [i.set (.transformList stored child (some (.not removed)) none none)]
  | .addEdges side =>
    return if items.isEmpty then [] else [.addEdges side current (.literal v)]
  | .removeEdges side =>
    return if items.isEmpty then [] else [.removeEdges side current (.literal v)]
  | .createAndAddEdges side type =>
    if items.isEmpty then return []
    else do return [.addEdges side current (.list (← createAll s type items))]
  | .setEdge side => return [.setEdge side current (if v.isNull then none else some (.literal v))]
  | .createAndSetEdge side type =>
    if v.isNull then return []
    else do
      let shape ← Planner.ofExcept (s.shape .create type)
      return [.setEdge side current (some (← shape.create object))]

end Input

/-! ### Recursion on the value -/

/-- The steps of inputs, in order, for those that have a writer in the table. -/
def planInputs (table : List (String × EntryWriter)) (inputs : List Input) (current : Plan) :
    Planner InputError (List Plan) := do
  let steps ← inputs.mapM fun i =>
    match table.lookup i.name with
    | some write => write i current
    | none => pure []
  return steps.flatten

mutual

/-- The steps that a value makes as an input object; a value that is no object makes none. -/
def changes (s : Schema) : Value → Writer
  | .object entries => planInputs (entryWriters s entries)
  | _ => fun _ _ => pure []

/-- The items of a value with their writers. -/
def itemWriters (s : Schema) : Value → List (Value × Writer)
  | .list items => listWriters s items
  | _ => []

/-- Values with their writers. -/
def listWriters (s : Schema) : List Value → List (Value × Writer)
  | [] => []
  | v :: vs => (v, changes s v) :: listWriters s vs

/-- The table of the writers of entries. -/
def entryWriters (s : Schema) : List (String × Value) → List (String × EntryWriter)
  | [] => []
  | (name, v) :: rest =>
    (name, fun i current => i.planWith s v (changes s v) (itemWriters s v) current) ::
      entryWriters s rest

end

/-- The steps of the input for a value. -/
def Input.plan (s : Schema) (i : Input) (v : Value) (current : Plan) :
    Planner InputError (List Plan) :=
  i.planWith s v (changes s v) (itemWriters s v) current

theorem listWriters_eq (s : Schema) (vs : List Value) :
    listWriters s vs = vs.map fun v => (v, changes s v) := by
  induction vs with
  | nil => simp [listWriters]
  | cons v vs ih => simp [listWriters, ih]

/-- The writers of a value are those of its items. -/
theorem itemWriters_eq (s : Schema) (v : Value) :
    itemWriters s v = v.items.map fun v => (v, changes s v) := by
  cases v <;> simp [itemWriters, Value.items, listWriters_eq]

theorem entryWriters_eq (s : Schema) (entries : Entries) :
    entryWriters s entries =
      entries.map fun (name, v) => (name, fun i current => i.plan s v current) := by
  induction entries with
  | nil => simp [entryWriters]
  | cons entry rest ih =>
    obtain ⟨name, v⟩ := entry
    simp [entryWriters, ih, Input.plan]

/-- The table has a writer for exactly the keys of the object. -/
theorem lookup_entryWriters (s : Schema) (entries : Entries) (name : String) :
    (entryWriters s entries).lookup name =
      (entries.get? name).map fun v i current => i.plan s v current := by
  rw [entryWriters_eq]
  induction entries with
  | nil => rfl
  | cons entry rest ih =>
    obtain ⟨k, v⟩ := entry
    rw [List.map_cons, List.lookup_cons, Entries.get?_cons]
    split <;> simp_all

/-- An object makes the steps of the inputs that it gives, in the order of the shape. -/
theorem changes_object (s : Schema) (entries : Entries) (inputs : List Input) (current : Plan) :
    changes s (.object entries) inputs current = (do
      let steps ← inputs.mapM fun i =>
        match entries.get? i.name with
        | some v => i.plan s v current
        | none => pure []
      return steps.flatten) := by
  simp only [changes, planInputs, lookup_entryWriters]
  congr 1
  refine congrArg (inputs.mapM ·) (funext fun i => ?_)
  cases entries.get? i.name <;> rfl

end EntityGraph
