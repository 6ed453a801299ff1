import EntityGraph.Input.Error
import EntityGraph.Input.Kind

/-!
# Shapes

The shape of an object type lists the inputs with which an object of the type is created or
updated, in the order of its fields. System fields have no inputs, apart from the identity that an
update of one object starts from.

Nested shapes are named by their types and made when they are needed, so a type may contain
itself.

## Main definitions

* `Shape` — the inputs for one type and role
* `Schema.fieldInputs` — the inputs of one field
* `Schema.shape` — the shape of a type
-/

namespace EntityGraph

/-- The inputs for creating or updating objects of one type. -/
structure Shape where
  role : Role
  type : TypeDef
  inputs : List Input
  deriving Inhabited

namespace Shape

/-- The name of a shape. -/
def nameOf (role : Role) (typeName : String) : String :=
  match role with
  | .create => "Create" ++ typeName ++ "Input"
  | .update => "Update" ++ typeName ++ "Input"
  | .updateAll => "UpdateAll" ++ typeName ++ "Input"

def name (shape : Shape) : String := nameOf shape.role shape.type.name

/-- The first input with the given name. -/
def input? (shape : Shape) (name : String) : Option Input := shape.inputs.find? (·.name == name)

/-- The input that identifies the object to update. -/
def filter? (shape : Shape) : Option Input := shape.inputs.find? (·.isFilter)

/-- The identity that an input object gives. -/
def identity? (shape : Shape) (v : Value) : Option Value :=
  shape.filter?.bind fun i => v.get? i.name

theorem mem_of_input? {shape : Shape} {name : String} {i : Input}
    (h : shape.input? name = some i) : i ∈ shape.inputs := List.mem_of_find?_eq_some h

theorem name_of_input? {shape : Shape} {name : String} {i : Input}
    (h : shape.input? name = some i) : i.name = name := by
  simpa using List.find?_some h

end Shape

namespace Schema

/-- The inputs of a relation field. -/
def relationInputs (role : Role) (f : FieldDef) (side : RelationSide) (target : TypeDef) :
    List Input :=
  let cap := capitalize f.name
  if f.isList then
    match role with
    | .create =>
      [⟨f.name, f, .addEdges side⟩, ⟨"createAndAdd" ++ cap, f, .createAndAddEdges side target⟩]
    | _ =>
      [⟨"add" ++ cap, f, .addEdges side⟩, ⟨"remove" ++ cap, f, .removeEdges side⟩,
        ⟨"createAndAdd" ++ cap, f, .createAndAddEdges side target⟩]
  else
    [⟨f.name, f, .setEdge side⟩, ⟨"create" ++ cap, f, .createAndSetEdge side target⟩]

/-- The type of the key of a type that can be referred to. -/
def keyType? (s : Schema) (target : TypeDef) : Option TypeDef :=
  (referenceKey? target).bind s.target?

/-- The inputs of a field that embeds its type; none if it cannot be written so. -/
def embeddedInputs? (role : Role) (f : FieldDef) (target : TypeDef) : Option (List Input) :=
  let cap := capitalize f.name
  match role, target.kind, f.isList with
  | .create, .scalar, list | .create, .enum, list => some [⟨f.name, f, .scalar target list⟩]
  | _, .scalar, false | _, .enum, false =>
    some (⟨f.name, f, .scalar target false⟩ ::
      f.operators.map fun op => ⟨op.inputName f.name, f, .combine target op⟩)
  | _, .scalar, true | _, .enum, true =>
    if f.operators.isEmpty then some [⟨f.name, f, .scalar target true⟩] else none
  | _, .valueObject, list => some [⟨f.name, f, .valueObject target list⟩]
  | .create, .entityExtension, false => some [⟨f.name, f, .createExtension target⟩]
  | _, .entityExtension, false => some [⟨f.name, f, .updateExtension target⟩]
  | .create, .childEntity, true => some [⟨f.name, f, .createChildren target⟩]
  | _, .childEntity, true =>
    some [⟨"add" ++ cap, f, .addChildren target⟩, ⟨"update" ++ cap, f, .updateChildren target⟩,
      ⟨"remove" ++ cap, f, .removeChildren target⟩]
  | _, _, _ => none

/-- The inputs of a declared field. -/
def declaredInputs (s : Schema) (role : Role) (f : FieldDef) : Except InputError (List Input) :=
  match s.target? f with
  | none => .error (.unknownFieldType (s.qualifiedName f) f.typeName)
  | some target =>
    if f.isRelation then
      match s.relationSide? f with
      | none => .error (.unresolvedRelation (s.qualifiedName f))
      | some side => .ok (relationInputs role f side target)
    else if f.isReference then
      match s.keyType? target with
      | none => .error (.unexpectedFieldShape (s.qualifiedName f))
      | some keyType => .ok [⟨f.name, f, .reference keyType⟩]
    else
      match embeddedInputs? role f target with
      | none => .error (.unexpectedFieldShape (s.qualifiedName f))
      | some inputs => .ok inputs

/-- The inputs of a field. -/
def fieldInputs (s : Schema) (role : Role) (f : FieldDef) : Except InputError (List Input) :=
  if f.isSystem then
    .ok (if f.isIdentity ∧ role = .update then [⟨f.name, f, .filter⟩] else [])
  else
    s.declaredInputs role f

/-- The shape of an object type. -/
def shape (s : Schema) (role : Role) (t : TypeDef) : Except InputError Shape :=
  if t.kind.isObject then do
    let inputs ← t.fields.mapM (s.fieldInputs role)
    return ⟨role, t, inputs.flatten⟩
  else
    .error (.notAnObjectType t.name)

end Schema

end EntityGraph
