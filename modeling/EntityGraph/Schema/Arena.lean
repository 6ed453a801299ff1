import EntityGraph.Schema.Calls

/-!
# The tables behind a schema

While a schema is being built, its types and fields are kept in two tables, and refer to each other
by their places in them. A third table finds types by name. Numbers are stored in 32 bits, so they
are places only as long as the tables are not longer than that.

A type is entered in several steps: it is registered under a number that takes the place of a
provisional one, its fields are entered one by one, and the list of their numbers is written back
into its entry. A computation that fails keeps the tables as they are at that moment, so it matters
what comes first: all operator names are looked up before anything is entered.

The numbers of types that fields name, and of the keys of types, are filled in at the end, when
every type is known.

## Main definitions

* `NameIndex` — numbers by name, where the first entry of a name stays
* `FieldSlot`, `TypeSlot`, `Arena` — the tables
* `Arena.registerType`, `Arena.pushField`, `Arena.listFields` — the steps of entering a type
* `Arena.enterType` — a declared type, with everything that is known of it
* `Arena.perform`, `Arena.run`, `Arena.ofDecl` — calls, and whole declarations
* `Arena.build`, `Model` — the tables with everything filled in
* `Arena.schema` — the schema that tables hold
-/

namespace EntityGraph

/-! ### Names -/

/-- Numbers by name. -/
structure NameIndex (α : Type) where
  entries : List (String × α)
  deriving Inhabited

namespace NameIndex

variable {α : Type}

def empty : NameIndex α := ⟨[]⟩

/-- The number of a name. -/
def get? (index : NameIndex α) (name : String) : Option α := index.entries.lookup name

/-- One more name. A name that is there already keeps its number. -/
def orInsert (index : NameIndex α) (name : String) (a : α) : NameIndex α :=
  if (index.get? name).isSome then index else ⟨index.entries ++ [(name, a)]⟩

end NameIndex

/-! ### Tables -/

/-- The number that is stored for a place: its last 32 bits. -/
def storedNumber (place : Nat) : Nat := place % UInt32.size

/-- An entry of the table of fields. -/
structure FieldSlot extends FieldDef where
  /-- The number of the type that the field names, if it is known. -/
  resolved : Option TypeId
  deriving Inhabited

/-- An entry of the table of types, which lists its fields by number. -/
structure TypeSlot where
  id : TypeId
  name : String
  kind : TypeKind
  fields : List FieldId
  keyName : Option String
  /-- The number of the key, if it is known. -/
  keyField : Option FieldId
  values : List String
  permissions : Option Permissions
  isBuiltin : Bool
  location : Location
  deriving Inhabited

/-- The tables of a schema that is being built. -/
structure Arena where
  types : List TypeSlot
  fields : List FieldSlot
  typeNames : NameIndex TypeId
  profiles : List Profile
  deriving Inhabited

/-- The entry of a built-in scalar, with a provisional number. -/
def TypeSlot.builtin (name : String) : TypeSlot where
  id := ⟨0⟩
  name := name
  kind := .scalar
  fields := []
  keyName := none
  keyField := none
  values := []
  permissions := none
  isBuiltin := true
  location := .unknown

/-- The entry of a declared type, with a provisional number and without its fields. -/
def TypeDecl.slot (t : TypeDecl) : TypeSlot where
  id := ⟨0⟩
  name := t.name
  kind := t.kind
  fields := []
  keyName := t.keyField
  keyField := none
  values := t.values
  permissions := t.permissions
  isBuiltin := false
  location := t.location

/-- The type of an entry, with the given fields. -/
def TypeSlot.define (t : TypeSlot) (fields : List FieldDef) : TypeDef where
  id := t.id
  name := t.name
  kind := t.kind
  fields := fields
  keyName := t.keyName
  values := t.values
  permissions := t.permissions
  isBuiltin := t.isBuiltin
  location := t.location

namespace Arena

/-! ### Steps -/

/-- Enters a type at the end of its table and gives it the number of that place. -/
def registerType (t : TypeSlot) : StateM Arena TypeId := do
  let a ← get
  let id : TypeId := ⟨storedNumber a.types.length⟩
  set { a with
    types := a.types ++ [{ t with id := id }]
    typeNames := a.typeNames.orInsert t.name id }
  return id

/-- Enters a field at the end of its table, without the number of its type. -/
def pushField (owner : TypeId) (d : FieldDraft) : StateM Arena FieldId := do
  let a ← get
  let id : FieldId := ⟨storedNumber a.fields.length⟩
  set { a with fields := a.fields ++ [FieldSlot.mk (d.define owner id) none] }
  return id

/-- Writes the fields that a type lists into its entry. -/
def listFields (id : TypeId) (fields : List FieldId) : StateM Arena Unit :=
  modify fun a => { a with types := a.types.modify id.index ({ · with fields := fields }) }

/-- Enters a type and then its fields, which are listed when all of them have their numbers. -/
def enterDrafts (decl : TypeDecl) (drafts : List FieldDraft) : StateM Arena TypeId := do
  let id ← registerType decl.slot
  let fields ← drafts.mapM (pushField id)
  listFields id fields
  return id

/-- A computation on tables that may fail. The tables survive a failure as they are. -/
abbrev Entering := ExceptT BuildError (StateM Arena)

/-- Enters a declared type. The operators of all its fields are looked up before that. -/
def enterType (decl : TypeDecl) : Entering TypeId := do
  let drafts ← ExceptT.mk (pure decl.drafts)
  enterDrafts decl drafts

/-- The number of a declared type, or why it is not entered, and the tables afterwards. -/
def addType (a : Arena) (decl : TypeDecl) : Except BuildError TypeId × Arena :=
  (enterType decl).run.run a

def addProfile (a : Arena) (profile : Profile) : Arena :=
  { a with profiles := a.profiles ++ [profile] }

/-- The tables with nothing but the built-in scalars. -/
def new : Arena :=
  ((builtinScalars.forM fun name => discard (registerType (.builtin name))).run
    ⟨[], [], .empty, []⟩).2

/-! ### Calls and declarations -/

/-- The answer to a call, and the tables after it. -/
def perform (a : Arena) (call : BuildCall) : BuildAnswer × Arena :=
  match call.addition with
  | .inl decl => ((a.addType decl).1.map some, (a.addType decl).2)
  | .inr profile => (.ok none, a.addProfile profile)

/-- The answers to calls in a row, and the tables after the last of them. -/
def run (a : Arena) (calls : List BuildCall) : List BuildAnswer × Arena := runCalls perform a calls

/-- The calls of a row that did not fail. -/
def succeeded (a : Arena) (calls : List BuildCall) : List BuildCall :=
  succeededCalls perform a calls

/-- The tables with one more type, or why it is not entered. -/
def tryType (a : Arena) (decl : TypeDecl) : Except BuildError Arena :=
  (a.addType decl).1.map fun _ => (a.addType decl).2

/-- The tables of a whole declaration: profiles first, then types until one fails. -/
def ofDecl (decl : SchemaDecl) : Except BuildError Arena :=
  decl.types.foldlM tryType (decl.profiles.foldl addProfile new)

/-! ### What tables hold -/

/-- The field with the given number. -/
def fieldAt? (a : Arena) (id : FieldId) : Option FieldSlot := a.fields[id.index]?

/-- The fields that a type lists. -/
def fieldsOf (a : Arena) (t : TypeSlot) : List FieldSlot := t.fields.filterMap a.fieldAt?

/-- The schema that the tables hold: each type with the fields that it lists. -/
def schema (a : Arena) : Schema where
  types := a.types.map fun t => t.define ((a.fieldsOf t).map (·.toFieldDef))
  profiles := a.profiles

end Arena

/-! ### Complete tables -/

/-- Tables with all numbers filled in, and an index of the profiles. -/
structure Model extends Arena where
  profileNames : NameIndex Nat
  deriving Inhabited

/-- The first profile with the given name. -/
def Model.profile? (m : Model) (name : String) : Option Profile :=
  (m.profileNames.get? name).bind (m.profiles[·]?)

namespace Arena

/-- The field with the number of the type that it names. -/
def resolve (a : Arena) (f : FieldSlot) : FieldSlot :=
  { f with resolved := a.typeNames.get? f.typeName }

/-- The type with the number of its key, which is looked for among the fields that it lists. -/
def findKey (a : Arena) (t : TypeSlot) : TypeSlot :=
  { t with keyField := t.keyName.bind fun key =>
      t.fields.find? fun id => (a.fieldAt? id).any (·.name == key) }

/-- The tables with everything filled in. -/
def build (a : Arena) : Model where
  types := a.types.map a.findKey
  fields := a.fields.map a.resolve
  typeNames := a.typeNames
  profiles := a.profiles
  profileNames := a.profiles.zipIdx.foldl (fun index (p, i) => index.orInsert p.name i) .empty

end Arena

end EntityGraph
