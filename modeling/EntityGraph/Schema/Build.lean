import EntityGraph.Schema.Basic

/-!
# Building schemas

A schema starts with the built-in scalars and grows by one type or profile at a time. A type is
added whole or not at all: its operator names are looked up first, and a name that no operator has
leaves the schema as it was.

Entities get the fields `id`, `createdAt` and `updatedAt` in front of their own.

## Main definitions

* `Schema.initial` — the schema that declares nothing
* `Schema.addType`, `Schema.addProfile` — one step
* `Schema.ofDecl` — a whole declaration: profiles first, then types until one fails
-/

namespace EntityGraph

/-- Why a schema cannot be built. -/
inductive BuildError where
  /-- A field names a calc operator that does not exist. -/
  | unknownCalcOperator (typeName field operator : String)
  deriving DecidableEq

/-- The error in words. -/
def BuildError.message : BuildError → String
  | .unknownCalcOperator typeName field operator =>
    s!"Unknown calc mutation operator '{operator}' on field {typeName}.{field}"

/-- The calc operators that a field of the given type declares. -/
def FieldDecl.operators (f : FieldDecl) (typeName : String) :
    Except BuildError (List CalcOperator) :=
  f.calcNames.mapM fun name =>
    match CalcOperator.ofName? name with
    | some op => .ok op
    | none => .error (.unknownCalcOperator typeName f.name name)

/-- The fields that the store maintains for entities. -/
def systemFields (location : Location) : List FieldDecl :=
  [(FieldDecl.named identityName "ID").located location,
   (FieldDecl.named "createdAt" "DateTime").located location,
   (FieldDecl.named "updatedAt" "DateTime").located location]

/-- A field that is about to get its number. -/
structure FieldDraft where
  decl : FieldDecl
  operators : List CalcOperator
  isSystem : Bool

/-- The field with its number and owner. -/
def FieldDraft.define (d : FieldDraft) (owner : TypeId) (id : FieldId) : FieldDef where
  id := id
  owner := owner
  name := d.decl.name
  typeName := d.decl.typeName
  isList := d.decl.isList
  isReference := d.decl.isReference
  isRelation := d.decl.isRelation
  isSystem := d.isSystem
  inverseOf := d.decl.inverseOf
  defaultValue := d.decl.defaultValue
  operators := d.operators
  permissions := d.decl.permissions
  location := d.decl.location

/-- All fields of a declared type, system fields first. -/
def TypeDecl.drafts (t : TypeDecl) : Except BuildError (List FieldDraft) := do
  let declared ← t.fields.mapM fun f => do return FieldDraft.mk f (← f.operators t.name) false
  let system := if t.kind.isEntity then systemFields t.location else []
  return system.map (⟨·, [], true⟩) ++ declared

/-- The fields of a type, numbered from `first`. -/
def defineFields (owner : TypeId) (first : Nat) (drafts : List FieldDraft) : List FieldDef :=
  (drafts.zipIdx first).map fun (d, n) => d.define owner ⟨n⟩

@[simp] theorem length_defineFields (owner : TypeId) (first : Nat) (drafts : List FieldDraft) :
    (defineFields owner first drafts).length = drafts.length := by
  simp [defineFields]

/-- The type with its number, and its fields numbered from `first`. -/
def TypeDecl.define (t : TypeDecl) (id : TypeId) (first : Nat) (drafts : List FieldDraft) :
    TypeDef where
  id := id
  name := t.name
  kind := t.kind
  fields := defineFields id first drafts
  keyName := t.keyField
  values := t.values
  permissions := t.permissions
  isBuiltin := false
  location := t.location

namespace Schema

/-- A scalar that every schema has. -/
def builtin (index : Nat) (name : String) : TypeDef where
  id := ⟨index⟩
  name := name
  kind := .scalar
  fields := []
  keyName := none
  values := []
  permissions := none
  isBuiltin := true
  location := .unknown

/-- The schema that declares nothing. -/
def initial : Schema := ⟨builtinScalars.mapIdx builtin, []⟩

/-- The schema with one more profile. -/
def addProfile (s : Schema) (profile : Profile) : Schema :=
  { s with profiles := s.profiles ++ [profile] }

/-- The number that the next type gets. -/
def nextType (s : Schema) : TypeId := ⟨s.types.length⟩

/-- The number that the next field gets. -/
def nextField (s : Schema) : Nat := s.fields.length

/-- The schema with one more type, whose number is the `nextType` of the schema before. -/
def addType (s : Schema) (decl : TypeDecl) : Except BuildError Schema := do
  let drafts ← decl.drafts
  return { s with types := s.types ++ [decl.define s.nextType s.nextField drafts] }

/-- The schema of a whole declaration. -/
def ofDecl (decl : SchemaDecl) : Except BuildError Schema :=
  decl.types.foldlM addType (decl.profiles.foldl addProfile initial)

end Schema

end EntityGraph
