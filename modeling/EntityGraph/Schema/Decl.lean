import EntityGraph.Location
import EntityGraph.Schema.Kind
import EntityGraph.Value.Basic

/-!
# Declarations

A schema as it is written down: plain data in which names are not resolved and nothing is checked.
Declarations are decoded from documents or put together with the `with…` functions below.

## Main definitions

* `SchemaDecl` — types and permission profiles, in the order in which they are declared
* `TypeDecl`, `FieldDecl` — one type and one field
* `Permissions`, `Profile` — who may read and write
-/

namespace EntityGraph

/-! ### Permissions -/

/-- What a grant allows. -/
inductive Access where
  | read
  | readWrite
  deriving DecidableEq, Inhabited

/-- The name of an access level in a declaration. -/
def Access.name : Access → String
  | .read => "read"
  | .readWrite => "readWrite"

/-- The access levels under their names. -/
def Access.byName : List (String × Access) := [("read", .read), ("readWrite", .readWrite)]

@[simp] theorem Access.lookup_byName (a : Access) : Access.byName.lookup a.name = some a := by
  cases a <;> rfl

/-- Roles that are named where they are used. -/
structure Roles where
  read : List String
  readWrite : List String
  deriving DecidableEq, Inhabited

namespace Roles

/-- No roles. -/
def empty : Roles := ⟨[], []⟩

/-- One more role with the given access. -/
def withRole (roles : Roles) (access : Access) (role : String) : Roles :=
  match access with
  | .read => { roles with read := roles.read ++ [role] }
  | .readWrite => { roles with readWrite := roles.readWrite ++ [role] }

end Roles

/-- The permissions of a type or field: a profile by its name, or roles. -/
structure Permissions where
  profile : Option String
  roles : Option Roles
  deriving DecidableEq, Inhabited

namespace Permissions

/-- The permissions of a named profile. -/
def ofProfile (name : String) : Permissions := ⟨some name, none⟩

/-- The permissions of explicit roles. -/
def ofRoles (roles : Roles) : Permissions := ⟨none, some roles⟩

end Permissions

/-- One entry of a permission profile. -/
structure Grant where
  roles : List String
  access : Access
  deriving DecidableEq, Inhabited

/-- A named permission profile. -/
structure Profile where
  name : String
  grants : List Grant
  location : Location
  deriving DecidableEq, Inhabited

namespace Profile

/-- A profile that grants nothing. -/
def named (name : String) : Profile := ⟨name, [], .unknown⟩

/-- One more grant, to a single role. -/
def withGrant (profile : Profile) (role : String) (access : Access) : Profile :=
  { profile with grants := profile.grants ++ [⟨[role], access⟩] }

end Profile

/-! ### Fields -/

/-- A field as it is declared. -/
structure FieldDecl where
  name : String
  typeName : String
  isList : Bool
  isReference : Bool
  isRelation : Bool
  /-- The field of the target type that this relation is the inverse of. -/
  inverseOf : Option String
  defaultValue : Option Value
  /-- The names of the calc operators that may be applied. -/
  calcNames : List String
  permissions : Option Permissions
  location : Location
  deriving Inhabited

namespace FieldDecl

/-- A plain field of the given type. -/
def named (name typeName : String) : FieldDecl :=
  ⟨name, typeName, false, false, false, none, none, [], none, .unknown⟩

def asList (f : FieldDecl) : FieldDecl := { f with isList := true }

def asReference (f : FieldDecl) : FieldDecl := { f with isReference := true }

def asRelation (f : FieldDecl) : FieldDecl := { f with isRelation := true }

/-- Makes the field the inverse of another; only relations have inverses, so it becomes one. -/
def asInverseOf (f : FieldDecl) (name : String) : FieldDecl :=
  { f with isRelation := true, inverseOf := some name }

def withDefault (f : FieldDecl) (value : Value) : FieldDecl := { f with defaultValue := some value }

def withCalc (f : FieldDecl) (name : String) : FieldDecl :=
  { f with calcNames := f.calcNames ++ [name] }

def withPermissions (f : FieldDecl) (permissions : Permissions) : FieldDecl :=
  { f with permissions := some permissions }

def located (f : FieldDecl) (location : Location) : FieldDecl := { f with location := location }

end FieldDecl

/-! ### Types -/

/-- A type as it is declared. -/
structure TypeDecl where
  name : String
  kind : TypeKind
  fields : List FieldDecl
  keyField : Option String
  values : List String
  permissions : Option Permissions
  location : Location
  deriving Inhabited

namespace TypeDecl

/-- A type of the given kind without any parts. -/
def named (name : String) (kind : TypeKind) : TypeDecl := ⟨name, kind, [], none, [], none, .unknown⟩

def withField (t : TypeDecl) (field : FieldDecl) : TypeDecl :=
  { t with fields := t.fields ++ [field] }

def withKey (t : TypeDecl) (name : String) : TypeDecl := { t with keyField := some name }

def withValue (t : TypeDecl) (value : String) : TypeDecl := { t with values := t.values ++ [value] }

def withPermissions (t : TypeDecl) (permissions : Permissions) : TypeDecl :=
  { t with permissions := some permissions }

def located (t : TypeDecl) (location : Location) : TypeDecl := { t with location := location }

end TypeDecl

/-! ### Schemas -/

/-- A schema as it is declared. -/
structure SchemaDecl where
  types : List TypeDecl
  profiles : List Profile
  deriving Inhabited

namespace SchemaDecl

/-- A schema that declares nothing. -/
def empty : SchemaDecl := ⟨[], []⟩

def withType (s : SchemaDecl) (type : TypeDecl) : SchemaDecl :=
  { s with types := s.types ++ [type] }

def withProfile (s : SchemaDecl) (profile : Profile) : SchemaDecl :=
  { s with profiles := s.profiles ++ [profile] }

end SchemaDecl

end EntityGraph
