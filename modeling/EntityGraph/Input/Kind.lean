import EntityGraph.Schema.Relation

/-!
# Inputs

An input is a named way to write one field. Its kind says what it accepts, what it does to the
stored value, and whether its values are input objects of another shape.

## Main definitions

* `InputKind` — the ways to write a field
* `InputKind.nested?` — the shape of the input objects that an input takes
* `Input`, `Input.describe` — an input, and what is told to users about it
-/

namespace EntityGraph

/-- What a shape is for. -/
inductive Role where
  | create
  | update
  /-- The same changes for many objects, so that none of them is identified. -/
  | updateAll
  deriving DecidableEq, Inhabited

/-- How an input writes its field. -/
inductive InputKind where
  /-- Identifies the object to update, and writes nothing. -/
  | filter
  /-- Sets a scalar or enum, or a list of them. -/
  | scalar (type : TypeDef) (list : Bool)
  /-- Combines the stored value with the supplied one. -/
  | combine (type : TypeDef) (op : CalcOperator)
  /-- Replaces a value object, or a list of them. -/
  | valueObject (type : TypeDef) (list : Bool)
  /-- Sets the extension of a new object. -/
  | createExtension (type : TypeDef)
  /-- Changes parts of an extension. -/
  | updateExtension (type : TypeDef)
  /-- Sets the children of a new object. -/
  | createChildren (type : TypeDef)
  | addChildren (type : TypeDef)
  /-- Changes parts of children, each found by its identity. -/
  | updateChildren (type : TypeDef)
  | removeChildren (type : TypeDef)
  /-- Sets the key of the entity that is referred to; there need not be one. -/
  | reference (keyType : TypeDef)
  | addEdges (side : RelationSide)
  | removeEdges (side : RelationSide)
  | createAndAddEdges (side : RelationSide) (target : TypeDef)
  /-- Replaces the one edge; null removes it. -/
  | setEdge (side : RelationSide)
  | createAndSetEdge (side : RelationSide) (target : TypeDef)
  deriving Inhabited

namespace InputKind

/-- Whether the input writes the whole field, so that no other such input may be given with it. -/
def replaces : InputKind → Bool
  | scalar .. | combine .. | valueObject .. | createExtension _ | updateExtension _
  | createChildren _ | reference _ | setEdge _ | createAndSetEdge .. => true
  | _ => false

/-- Whether the input is the plain setter of its field, which the declared default fills in. -/
def isSetter : InputKind → Bool
  | scalar .. | valueObject .. | createExtension _ | createChildren _ | reference _ => true
  | _ => false

/-- Whether the input takes a list. -/
def isList : InputKind → Bool
  | scalar _ list | valueObject _ list => list
  | createChildren _ | addChildren _ | updateChildren _ | removeChildren _ | addEdges _
  | removeEdges _ | createAndAddEdges .. => true
  | _ => false

/-- The shape of the input objects that the input takes, if it takes any. -/
def nested? : InputKind → Option (Role × TypeDef)
  | valueObject type _ | createExtension type | createChildren type | addChildren type
  | createAndAddEdges _ type | createAndSetEdge _ type => some (.create, type)
  | updateExtension type | updateChildren type => some (.update, type)
  | _ => none

end InputKind

/-! ### Descriptions -/

/-- What an input accepts. -/
inductive Accepted where
  /-- An identity. -/
  | id
  /-- A value of a scalar or enum type, or null. -/
  | scalar (typeName : String)
  /-- An object of a create shape. -/
  | createInput (type : TypeId)
  /-- An object of an update shape. -/
  | updateInput (type : TypeId)
  | list (item : Accepted)
  deriving DecidableEq, Inhabited

namespace InputKind

/-- What the input accepts. -/
def accepted : InputKind → Accepted
  | filter | setEdge _ => .id
  | scalar type list => if list then .list (.scalar type.name) else .scalar type.name
  | combine type _ | reference type => .scalar type.name
  | valueObject type list =>
    if list then .list (.createInput type.id) else .createInput type.id
  | createExtension type => .createInput type.id
  | updateExtension type => .updateInput type.id
  | createChildren type | addChildren type => .list (.createInput type.id)
  | updateChildren type => .list (.updateInput type.id)
  | removeChildren _ | addEdges _ | removeEdges _ => .list .id
  | createAndAddEdges side _ => .list (.createInput side.targetType)
  | createAndSetEdge side _ => .createInput side.targetType

end InputKind

/-- What is told to users about an input. -/
structure InputDescription where
  name : String
  accepts : Accepted
  /-- Only finds the object to update. -/
  filterOnly : Bool
  /-- Takes null for the empty list and refuses everything else that is not a list. -/
  listCoercing : Bool
  /-- Takes input objects of another shape. -/
  recursive : Bool
  deriving DecidableEq

/-- A named way to write a field. -/
structure Input where
  name : String
  field : FieldDef
  kind : InputKind
  deriving Inhabited

namespace Input

def isFilter (i : Input) : Bool :=
  match i.kind with
  | .filter => true
  | _ => false

/-- Whether a coerced value writes nothing and counts as absent. -/
def isNoChange (i : Input) (v : Value) : Bool :=
  match i.kind with
  | .createAndSetEdge .. => v.isNull
  | _ => false

/-- What is told to users about the input. -/
def describe (i : Input) : InputDescription where
  name := i.name
  accepts := i.kind.accepted
  filterOnly := i.isFilter
  listCoercing := i.kind.isList
  recursive := i.kind.nested?.isSome

end Input

end EntityGraph
