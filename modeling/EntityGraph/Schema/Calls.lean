import EntityGraph.Schema.Build

/-!
# Schemas built call by call

A schema can be built by calls in any order: types that are put together part by part, types that
are declared whole, and profiles. A call that fails says why and adds nothing, and the next one
finds the schema as it was.

The same calls can be collected into a declaration, which is built when it is complete.

## Main definitions

* `TypePart`, `BuildCall` — what can be asked for
* `runCalls`, `succeededCalls` — calls in a row, and those that did not fail
* `Schema.perform`, `Schema.run` — one call on a schema, and many in a row
* `SchemaDecl.collect` — the declaration that calls amount to
-/

namespace EntityGraph

/-! ### Calls -/

/-- What a type is put together from. -/
inductive TypePart where
  | field (decl : FieldDecl)
  | key (name : String)
  | value (value : String)
  | permissions (permissions : Permissions)
  | location (location : Location)
  deriving Inhabited

/-- One more part; a key, permissions or location given before is replaced. -/
def TypeDecl.withPart (t : TypeDecl) : TypePart → TypeDecl
  | .field decl => t.withField decl
  | .key name => t.withKey name
  | .value value => t.withValue value
  | .permissions permissions => t.withPermissions permissions
  | .location location => t.located location

/-- The type with the given parts, in order. -/
def TypeDecl.ofParts (name : String) (kind : TypeKind) (parts : List TypePart) : TypeDecl :=
  parts.foldl withPart (named name kind)

/-- A call on a schema that is being built. -/
inductive BuildCall where
  /-- Puts a type together and adds it. -/
  | declare (name : String) (kind : TypeKind) (parts : List TypePart)
  /-- Adds a type that is declared whole. -/
  | addType (decl : TypeDecl)
  | addProfile (profile : Profile)
  deriving Inhabited

/-- What a call adds: a type or a profile. -/
def BuildCall.addition : BuildCall → TypeDecl ⊕ Profile
  | .declare name kind parts => .inl (.ofParts name kind parts)
  | .addType decl => .inl decl
  | .addProfile profile => .inr profile

/-- The number of the type that a call adds, none if it adds a profile. -/
abbrev BuildAnswer := Except BuildError (Option TypeId)

/-- The error of a call that failed. -/
def BuildAnswer.error? : BuildAnswer → Option BuildError
  | .ok _ => none
  | .error e => some e

/-! ### Rows of calls -/

section Rows

variable {σ : Type} (perform : σ → BuildCall → BuildAnswer × σ)

/-- The answers to calls in a row, and the state after the last of them. -/
def runCalls (s : σ) : List BuildCall → List BuildAnswer × σ
  | [] => ([], s)
  | call :: calls =>
    let (answer, next) := perform s call
    let (answers, last) := runCalls next calls
    (answer :: answers, last)

/-- The calls of a row that did not fail. -/
def succeededCalls (s : σ) (calls : List BuildCall) : List BuildCall :=
  ((calls.zip (runCalls perform s calls).1).filter (·.2.error?.isNone)).map (·.1)

end Rows

/-! ### Building at once -/

namespace Schema

/-- The answer to a call, and the schema after it. -/
def perform (s : Schema) (call : BuildCall) : BuildAnswer × Schema :=
  match call.addition with
  | .inl decl =>
    match s.addType decl with
    | .ok next => (.ok (some s.nextType), next)
    | .error e => (.error e, s)
  | .inr profile => (.ok none, s.addProfile profile)

/-- The answers to calls in a row, and the schema after the last of them. -/
def run (s : Schema) (calls : List BuildCall) : List BuildAnswer × Schema :=
  runCalls perform s calls

/-- The calls of a row that did not fail. -/
def succeeded (s : Schema) (calls : List BuildCall) : List BuildCall :=
  succeededCalls perform s calls

end Schema

/-! ### Collecting a declaration -/

namespace SchemaDecl

/-- The declaration with one more type or profile. -/
def withCall (d : SchemaDecl) (call : BuildCall) : SchemaDecl :=
  match call.addition with
  | .inl decl => d.withType decl
  | .inr profile => d.withProfile profile

/-- Everything that calls ask for, in order. -/
def collect (calls : List BuildCall) : SchemaDecl := calls.foldl withCall empty

end SchemaDecl

end EntityGraph
