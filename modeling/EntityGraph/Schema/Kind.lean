/-!
# Kinds of types

Scalars and enums hold plain values. The four kinds of object types declare fields; root and child
entities also have an identity.
-/

namespace EntityGraph

/-- The kind of a type. -/
inductive TypeKind where
  | scalar
  | enum
  | valueObject
  | entityExtension
  | childEntity
  | rootEntity
  deriving DecidableEq, Inhabited

namespace TypeKind

/-- Object types declare fields. -/
def isObject : TypeKind → Bool
  | .scalar | .enum => false
  | _ => true

/-- Entities carry an identity that the store maintains. -/
def isEntity : TypeKind → Bool
  | .rootEntity | .childEntity => true
  | _ => false

/-- Scalars and enums hold plain values. -/
def isPlain : TypeKind → Bool
  | .scalar | .enum => true
  | _ => false

@[simp] theorem isObject_eq_not_isPlain (k : TypeKind) : k.isObject = !k.isPlain := by
  cases k <;> rfl

/-- The kind in words. -/
def description : TypeKind → String
  | .scalar => "scalar type"
  | .enum => "enum type"
  | .valueObject => "value object type"
  | .entityExtension => "entity extension type"
  | .childEntity => "child entity type"
  | .rootEntity => "root entity type"

/-- The name of the kind in a declaration. -/
def name : TypeKind → String
  | .scalar => "SCALAR"
  | .enum => "ENUM"
  | .valueObject => "VALUE_OBJECT"
  | .entityExtension => "ENTITY_EXTENSION"
  | .childEntity => "CHILD_ENTITY"
  | .rootEntity => "ROOT_ENTITY"

/-- All kinds. -/
def all : List TypeKind :=
  [.scalar, .enum, .valueObject, .entityExtension, .childEntity, .rootEntity]

/-- The kinds under their names. -/
def byName : List (String × TypeKind) := all.map fun k => (k.name, k)

@[simp] theorem lookup_byName (k : TypeKind) : byName.lookup k.name = some k := by
  cases k <;> rfl

end TypeKind

end EntityGraph
