import EntityGraph.Diagnostic
import EntityGraph.Schema.Calc

/-!
# Issues

Everything that the checks of a schema can find, as data. An issue knows its severity and its
wording; where it was found is added when it is reported.
-/

namespace EntityGraph

/-- What carries a name. -/
inductive Named where
  | type
  | field
  deriving DecidableEq

def Named.label : Named → String
  | .type => "Type"
  | .field => "Field"

/-- Something that is wrong or remarkable about a schema. -/
inductive Issue where
  -- names
  | emptyName (what : Named)
  | leadingUnderscore (what : Named)
  | invalidIdentifier (what : Named) (name : String)
  | innerUnderscore (what : Named)
  | unusualCase (what : Named)
  -- types
  | reservedTypeName (name : String)
  | duplicateTypeName (name : String)
  | duplicateProfile (name : String)
  | enumWithoutValues (typeName : String)
  | duplicateEnumValue (value typeName : String)
  | objectWithoutFields (typeName : String)
  | duplicateField (name : String)
  | keyOnNonRoot
  | keyNotFound (key typeName : String)
  | keyNotPlain
  -- permissions
  | permissionsOnNonRoot
  | noPermissions (typeName : String)
  | profileAndRoles
  | profileNotFound (name : String)
  -- fields
  | referenceAndRelation
  | inverseOnNonRelation
  | defaultOnRelation
  | uncheckedDefault
  | typeNotFound (name : String)
  -- embedding
  | embeddedRoot (target : String)
  | extensionInValueObject (target owner field : String)
  | extensionInList (target : String)
  | childInValueObject (target owner field : String)
  | childNotInList (target : String)
  -- relations
  | relationOnNonRoot
  | relationToNonRoot (target : String)
  | inverseNotFound (inverse this : String)
  | inverseNotRelation (inverse this : String)
  | inverseOfOtherType (inverse this actual expected : String)
  | inverseWithInverse (inverse this : String)
  | severalInverses (candidates : List String) (this : String)
  | separateRelations (other : String)
  -- references
  | referenceToNonRoot (target : String)
  | referenceWithoutKey (target : String)
  | listOfReferences
  -- calc operators
  | calcOnList
  | calcUnsupported (op : CalcOperator) (typeName : String)
  deriving DecidableEq

/-- An issue at the place where it was found. -/
structure Finding where
  issue : Issue
  location : Location
  deriving DecidableEq

namespace Issue

/-- How serious the issue is. Only style and the separate relations are warnings, and only
defaults are noted. -/
def severity : Issue → Severity
  | innerUnderscore _ | unusualCase _ | separateRelations _ => .warning
  | uncheckedDefault => .info
  | _ => .error

/-- Text in quotes. -/
def quote (text : String) : String := "\"" ++ text ++ "\""

/-- What is said about the operators that a type does have. -/
def operatorHint (typeName : String) : String :=
  match CalcOperator.forType typeName with
  | [] => "no calc mutation operators are supported on this type"
  | ops => "supported operators: " ++ ", ".intercalate (ops.map fun op => quote op.name)

/-- The issue in words. -/
def message : Issue → String
  | emptyName what => s!"{what.label} name is empty."
  | leadingUnderscore what => s!"{what.label} names cannot start with an underscore."
  | invalidIdentifier what name => s!"{what.label} name \"{name}\" is not a valid identifier."
  | innerUnderscore what => s!"{what.label} names should not include underscores."
  | unusualCase .type => "Type names should start with an uppercase character."
  | unusualCase .field => "Field names should start with a lowercase character."
  | reservedTypeName name => s!"Type name \"{name}\" is reserved for a built-in scalar type."
  | duplicateTypeName name => s!"Duplicate type name: \"{name}\"."
  | duplicateProfile name => s!"Duplicate permission profile name: \"{name}\"."
  | enumWithoutValues typeName => s!"Enum type \"{typeName}\" does not declare any values."
  | duplicateEnumValue value typeName => s!"Duplicate enum value \"{value}\" in \"{typeName}\"."
  | objectWithoutFields typeName => s!"Object type \"{typeName}\" does not declare any fields."
  | duplicateField name => s!"Duplicate field name: \"{name}\"."
  | keyOnNonRoot => "Only root entity types can declare a key field."
  | keyNotFound key typeName =>
    s!"Field \"{key}\" declared as key field does not exist on type \"{typeName}\"."
  | keyNotPlain => "Only non-list scalar and enum fields can be used as key field."
  | permissionsOnNonRoot => "Permissions can only be specified on root entity types."
  | noPermissions typeName =>
    s!"No permissions specified for root entity type \"{typeName}\". " ++
      "Specify permissions explicitly or define a permission profile named \"default\"."
  | profileAndRoles => "A permission profile and explicit roles cannot be combined."
  | profileNotFound name => s!"Permission profile \"{name}\" not found."
  | referenceAndRelation => "A field cannot be both a reference and a relation."
  | inverseOnNonRelation => "An inverse field can only be declared on relation fields."
  | defaultOnRelation => "Default values are not supported on relations."
  | uncheckedDefault => "Take care, there are no type checks for default values yet."
  | typeNotFound name => s!"Type \"{name}\" not found."
  | embeddedRoot target =>
    s!"Type \"{target}\" is a root entity type and cannot be embedded. " ++
      "Consider declaring the field as a reference or relation."
  | extensionInValueObject target owner field =>
    s!"Type \"{target}\" is an entity extension type and cannot be used within value object " ++
      s!"types. Change \"{owner}\" to an entity extension type or use a value object type for " ++
      s!"\"{field}\"."
  | extensionInList target =>
    s!"Type \"{target}\" is an entity extension type and cannot be used in a list. " ++
      "Change the field type to a child entity type or a value object type."
  | childInValueObject target owner field =>
    s!"Type \"{target}\" is a child entity type and cannot be used within value object types. " ++
      s!"Change \"{owner}\" to an entity extension type or use a value object type for \"{field}\"."
  | childNotInList target =>
    s!"Type \"{target}\" is a child entity type and can only be used in a list. " ++
      s!"Change the field type to \"[{target}]\", or use an entity extension or value object " ++
      "type instead."
  | relationOnNonRoot =>
    "Relations can only be defined on root entity types. Consider using a reference instead."
  | relationToNonRoot target =>
    s!"Type \"{target}\" cannot be used as relation target because it is not a root entity type."
  | inverseNotFound inverse this =>
    s!"Field \"{inverse}\" used as inverse field of \"{this}\" does not exist."
  | inverseNotRelation inverse this =>
    s!"Field \"{inverse}\" used as inverse field of \"{this}\" is not a relation."
  | inverseOfOtherType inverse this actual expected =>
    s!"Field \"{inverse}\" used as inverse field of \"{this}\" has type \"{actual}\" " ++
      s!"but should be of type \"{expected}\"."
  | inverseWithInverse inverse this =>
    s!"Field \"{inverse}\" used as inverse field of \"{this}\" " ++
      "should not declare an inverse field itself."
  | severalInverses candidates this =>
    let names := ", ".intercalate (candidates.map quote)
    s!"Multiple fields ({names}) declare inverseOf to \"{this}\"."
  | separateRelations other =>
    s!"This field and \"{other}\" define separate relations. " ++
      "Consider declaring one of them as the inverse of the other."
  | referenceToNonRoot target =>
    s!"\"{target}\" cannot be used as reference type because it is not a root entity type."
  | referenceWithoutKey target =>
    s!"\"{target}\" cannot be used as reference type because it does not have a key field."
  | listOfReferences =>
    "References are not supported with list types. " ++
      "Consider wrapping the reference in a child entity or value object type."
  | calcOnList => "Calc mutations are not supported on list fields."
  | calcUnsupported op typeName =>
    let hint := operatorHint typeName
    s!"Calc mutation operator \"{op.name}\" is not supported on type \"{typeName}\" ({hint})."

end Issue

/-- The findings of issues at one place. -/
def findAt (location : Location) (issues : List Issue) : List Finding := issues.map (⟨·, location⟩)

@[simp] theorem findAt_nil (location : Location) : findAt location [] = [] := rfl

@[simp] theorem findAt_append (location : Location) (xs ys : List Issue) :
    findAt location (xs ++ ys) = findAt location xs ++ findAt location ys := by
  simp [findAt]

namespace Finding

/-- What is reported about a finding. -/
def diagnostic (f : Finding) : Diagnostic := ⟨f.issue.severity, f.issue.message, f.location⟩

@[simp] theorem isError_diagnostic (f : Finding) :
    f.diagnostic.isError = (f.issue.severity == .error) := rfl

end Finding

end EntityGraph
