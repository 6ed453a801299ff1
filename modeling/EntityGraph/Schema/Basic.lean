import EntityGraph.Schema.Calc
import EntityGraph.Schema.Decl

/-!
# Schemas

A schema numbers its types and fields in the order in which they are declared. The built-in
scalars come first, so a declared type cannot take the name of one of them away: names always mean
the first type that carries them, and likewise for fields and profiles. Numbers have no upper bound
here. Tables that store them in 32 bits hold the same ones as long as they have room for them, that
is, up to `2 ^ 32` types and fields (see `EntityGraph.Schema.Arena`).

Nothing about a schema is stored that its declarations do not say. The type of a field and the key
of a type are looked up by their names when they are asked for.

## Main definitions

* `TypeId`, `FieldId` — the numbers of types and fields
* `FieldDef`, `TypeDef`, `Schema`
* `Schema.type?`, `TypeDef.field?`, `Schema.target?` — resolution of names
* `Schema.typeProfile?`, `Schema.fieldProfile?` — the profiles that govern types and fields
-/

namespace EntityGraph

/-! ### Numbers -/

/-- The number of a type in its schema. -/
structure TypeId where
  index : Nat
  deriving DecidableEq, Inhabited

/-- The number of a field in its schema. -/
structure FieldId where
  index : Nat
  deriving DecidableEq, Inhabited

instance : ToString TypeId := ⟨fun id => "t" ++ toString id.index⟩

instance : ToString FieldId := ⟨fun id => "f" ++ toString id.index⟩

/-! ### Names with a meaning of their own -/

/-- The names of the scalars that every schema has. -/
def builtinScalars : List String := ["ID", "String", "Int", "Float", "Boolean", "DateTime", "JSON"]

/-- The field that holds the identity of an entity. -/
def identityName : String := "id"

/-- The profile of root entities that name no permissions. -/
def defaultProfileName : String := "default"

/-! ### Fields and types -/

/-- A field of a schema. -/
structure FieldDef where
  id : FieldId
  /-- The type that declares the field. -/
  owner : TypeId
  name : String
  typeName : String
  isList : Bool
  isReference : Bool
  isRelation : Bool
  /-- Maintained by the store, and not written by anyone else. -/
  isSystem : Bool
  inverseOf : Option String
  defaultValue : Option Value
  operators : List CalcOperator
  permissions : Option Permissions
  location : Location
  deriving Inhabited

/-- Whether the field holds the identity of an entity. -/
def FieldDef.isIdentity (f : FieldDef) : Bool := f.isSystem && f.name == identityName

/-- A type of a schema, with its fields in order and system fields first. -/
structure TypeDef where
  id : TypeId
  name : String
  kind : TypeKind
  fields : List FieldDef
  keyName : Option String
  values : List String
  permissions : Option Permissions
  /-- Provided by every schema, and declared by none. -/
  isBuiltin : Bool
  location : Location
  deriving Inhabited

namespace TypeDef

/-- The first field with the given name. -/
def field? (t : TypeDef) (name : String) : Option FieldDef := t.fields.find? (·.name == name)

/-- The field by which entities of the type are referred to. -/
def keyField? (t : TypeDef) : Option FieldDef := t.keyName.bind t.field?

/-- The fields that the schema itself declares. -/
def declaredFields (t : TypeDef) : List FieldDef := t.fields.filter (!·.isSystem)

def isRoot (t : TypeDef) : Bool := t.kind == .rootEntity

/-- The name of a field together with its type. -/
def qualify (t : TypeDef) (fieldName : String) : String := t.name ++ "." ++ fieldName

theorem mem_of_field? {t : TypeDef} {name : String} {f : FieldDef} (h : t.field? name = some f) :
    f ∈ t.fields := List.mem_of_find?_eq_some h

theorem name_of_field? {t : TypeDef} {name : String} {f : FieldDef} (h : t.field? name = some f) :
    f.name = name := by
  simpa using List.find?_some h

end TypeDef

/-! ### Schemas -/

/-- Types in the order of their numbers, and permission profiles. -/
structure Schema where
  types : List TypeDef
  profiles : List Profile
  deriving Inhabited

namespace Schema

/-- The type with the given number. -/
def typeAt? (s : Schema) (id : TypeId) : Option TypeDef := s.types[id.index]?

/-- The first type with the given name. -/
def type? (s : Schema) (name : String) : Option TypeDef := s.types.find? (·.name == name)

/-- All fields, type by type. -/
def fields (s : Schema) : List FieldDef := s.types.flatMap (·.fields)

/-- The field with the given number. -/
def fieldAt? (s : Schema) (id : FieldId) : Option FieldDef := s.fields[id.index]?

/-- The types that the schema itself declares. -/
def declaredTypes (s : Schema) : List TypeDef := s.types.filter (!·.isBuiltin)

/-- The root entity types. -/
def roots (s : Schema) : List TypeDef := s.types.filter (·.isRoot)

/-- The type of the values of a field. -/
def target? (s : Schema) (f : FieldDef) : Option TypeDef := s.type? f.typeName

/-- The number of the type of a field. -/
def targetId? (s : Schema) (f : FieldDef) : Option TypeId := (s.target? f).map (·.id)

/-- A field as it appears in messages. -/
def qualifiedName (s : Schema) (f : FieldDef) : String :=
  match s.typeAt? f.owner with
  | some t => t.qualify f.name
  | none => f.name

/-- The first profile with the given name. -/
def profile? (s : Schema) (name : String) : Option Profile := s.profiles.find? (·.name == name)

/-- The profile that a field names. -/
def fieldProfile? (s : Schema) (f : FieldDef) : Option Profile := do
  s.profile? (← (← f.permissions).profile)

/-- The profile that governs a type: the one it names, or the default one for a root entity
without permissions. -/
def typeProfile? (s : Schema) (t : TypeDef) : Option Profile :=
  match t.permissions with
  | some permissions => permissions.profile.bind s.profile?
  | none => if t.isRoot then s.profile? defaultProfileName else none

theorem mem_of_type? {s : Schema} {name : String} {t : TypeDef} (h : s.type? name = some t) :
    t ∈ s.types := List.mem_of_find?_eq_some h

theorem name_of_type? {s : Schema} {name : String} {t : TypeDef} (h : s.type? name = some t) :
    t.name = name := by
  simpa using List.find?_some h

end Schema

end EntityGraph
