import EntityGraph.Json.Reader
import EntityGraph.Schema.Decl
import EntityGraph.Value.Json

/-!
# Declarations as documents

Every record of a declaration has a keyed and a positional form. `ofJson?` reads both; `toJson`
writes the one it is asked for, with every part present and `null` for what is absent. A default
of `null` and no default are written alike, and read as no default.
-/

namespace EntityGraph

open Json (required? default? optional?)

namespace Roles

/-- The record of two lists of roles. -/
def toJson (form : RecordForm) (r : Roles) : Json :=
  form.record [
    ("read", Json.ofList .string r.read),
    ("readWrite", Json.ofList .string r.readWrite)]

/-- The roles that a record lists. A list that is missing is empty. -/
def ofJson? (j : Json) : Option Roles := do
  let [read, readWrite] ← j.record? ["read", "readWrite"] | none
  return {
    read := ← default? [] (Json.list? Json.string?) read
    readWrite := ← default? [] (Json.list? Json.string?) readWrite }

end Roles

namespace Permissions

/-- The record of a profile's name and of roles, either of which may be absent. -/
def toJson (form : RecordForm) (p : Permissions) : Json :=
  form.record [
    ("profile", Json.ofOption .string p.profile),
    ("roles", Json.ofOption (Roles.toJson form) p.roles)]

/-- The permissions that a record gives, by a profile, by roles, by both or by neither. -/
def ofJson? (j : Json) : Option Permissions := do
  let [profile, roles] ← j.record? ["profile", "roles"] | none
  return {
    profile := ← optional? Json.string? profile
    roles := ← optional? Roles.ofJson? roles }

end Permissions

namespace Grant

/-- The record of what some roles are granted. -/
def toJson (form : RecordForm) (g : Grant) : Json :=
  form.record [
    ("roles", Json.ofList .string g.roles),
    ("access", .string g.access.name)]

/-- What a record grants. Both the roles and the access have to be there. -/
def ofJson? (j : Json) : Option Grant := do
  let [roles, access] ← j.record? ["roles", "access"] | none
  return {
    roles := ← required? (Json.list? Json.string?) roles
    access := ← required? (Json.name? Access.byName) access }

end Grant

namespace Profile

/-- The record of a named list of grants. -/
def toJson (form : RecordForm) (p : Profile) : Json :=
  form.record [
    ("name", .string p.name),
    ("permissions", Json.ofList (Grant.toJson form) p.grants),
    ("location", p.location.toJson form)]

/-- The profile in a record, which has to have a name. -/
def ofJson? (j : Json) : Option Profile := do
  let [name, grants, location] ← j.record? ["name", "permissions", "location"] | none
  return {
    name := ← required? Json.string? name
    grants := ← default? [] (Json.list? Grant.ofJson?) grants
    location := ← default? .unknown Location.ofJson? location }

end Profile

namespace FieldDecl

/-- The record of a field, where the default is the document of its value. -/
def toJson (form : RecordForm) (f : FieldDecl) : Json :=
  form.record [
    ("name", .string f.name),
    ("type", .string f.typeName),
    ("isList", .bool f.isList),
    ("isReference", .bool f.isReference),
    ("isRelation", .bool f.isRelation),
    ("inverseOf", Json.ofOption .string f.inverseOf),
    ("defaultValue", Json.ofOption Value.toJson f.defaultValue),
    ("calcMutations", Json.ofList .string f.calcNames),
    ("permissions", Json.ofOption (Permissions.toJson form) f.permissions),
    ("location", f.location.toJson form)]

/-- The field in a record, which has to have a name and a type. Flags that are missing are off, and
lists are empty. -/
def ofJson? (j : Json) : Option FieldDecl := do
  let [name, typeName, isList, isReference, isRelation, inverseOf, defaultValue, calcNames,
      permissions, location] ← j.record? ["name", "type", "isList", "isReference", "isRelation",
      "inverseOf", "defaultValue", "calcMutations", "permissions", "location"] | none
  return {
    name := ← required? Json.string? name
    typeName := ← required? Json.string? typeName
    isList := ← default? false Json.bool? isList
    isReference := ← default? false Json.bool? isReference
    isRelation := ← default? false Json.bool? isRelation
    inverseOf := ← optional? Json.string? inverseOf
    defaultValue := ← optional? Value.ofJson? defaultValue
    calcNames := ← default? [] (Json.list? Json.string?) calcNames
    permissions := ← optional? Permissions.ofJson? permissions
    location := ← default? .unknown Location.ofJson? location }

end FieldDecl

namespace TypeDecl

/-- The record of a type, which holds the records of its fields. -/
def toJson (form : RecordForm) (t : TypeDecl) : Json :=
  form.record [
    ("name", .string t.name),
    ("kind", .string t.kind.name),
    ("fields", Json.ofList (FieldDecl.toJson form) t.fields),
    ("keyField", Json.ofOption .string t.keyField),
    ("values", Json.ofList .string t.values),
    ("permissions", Json.ofOption (Permissions.toJson form) t.permissions),
    ("location", t.location.toJson form)]

/-- The type in a record, which has to have a name and a kind that exists. -/
def ofJson? (j : Json) : Option TypeDecl := do
  let [name, kind, fields, keyField, values, permissions, location] ←
    j.record? ["name", "kind", "fields", "keyField", "values", "permissions", "location"] | none
  return {
    name := ← required? Json.string? name
    kind := ← required? (Json.name? TypeKind.byName) kind
    fields := ← default? [] (Json.list? FieldDecl.ofJson?) fields
    keyField := ← optional? Json.string? keyField
    values := ← default? [] (Json.list? Json.string?) values
    permissions := ← optional? Permissions.ofJson? permissions
    location := ← default? .unknown Location.ofJson? location }

end TypeDecl

namespace SchemaDecl

/-- The record of all types and profiles. -/
def toJson (form : RecordForm) (s : SchemaDecl) : Json :=
  form.record [
    ("types", Json.ofList (TypeDecl.toJson form) s.types),
    ("permissionProfiles", Json.ofList (Profile.toJson form) s.profiles)]

/-- The declaration in a record. Types and profiles that are missing are none. -/
def ofJson? (j : Json) : Option SchemaDecl := do
  let [types, profiles] ← j.record? ["types", "permissionProfiles"] | none
  return {
    types := ← default? [] (Json.list? TypeDecl.ofJson?) types
    profiles := ← default? [] (Json.list? Profile.ofJson?) profiles }

/-- The declaration a text holds. -/
def read? (text : String) : Option SchemaDecl := do ofJson? (← Json.read? text)

end SchemaDecl

end EntityGraph
