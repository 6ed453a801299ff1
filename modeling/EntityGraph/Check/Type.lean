import EntityGraph.Check.Name
import EntityGraph.Check.Permission

/-!
# Checks of types

The rules that concern a type as a whole: its name, the values of an enum, the fields of an object
type and its key. Checks of single fields are elsewhere.
-/

namespace EntityGraph

/-- The members of a list that have stood in it, or in `seen`, before. -/
def repetitions (seen : List String) : List String → List String
  | [] => []
  | v :: vs => if v ∈ seen then v :: repetitions seen vs else repetitions (v :: seen) vs

namespace TypeDef

/-- The issues of the values of an enum. -/
def enumIssues (t : TypeDef) : List Issue :=
  if t.values.isEmpty then [.enumWithoutValues t.name]
  else (repetitions [] t.values).map (.duplicateEnumValue · t.name)

/-- An object type declares at least one field of its own. -/
def emptinessIssues (t : TypeDef) : List Issue :=
  if t.declaredFields.isEmpty then [.objectWithoutFields t.name] else []

/-- The declared fields that share their name with another field, a system field included. -/
def duplicateFields (t : TypeDef) : List FieldDef :=
  t.declaredFields.filter fun f => 1 < (t.fields.filter (·.name == f.name)).length

/-- Where the values or fields of a type break a rule. -/
def contentFindings (t : TypeDef) : List Finding :=
  match t.kind with
  | .scalar => []
  | .enum => findAt t.location t.enumIssues
  | _ =>
    findAt t.location t.emptinessIssues ++
      t.duplicateFields.map fun f => ⟨.duplicateField f.name, f.location⟩

end TypeDef

namespace Schema

/-- Whether a field may be a key: one value of a scalar or enum. -/
def isKeyable (s : Schema) (f : FieldDef) : Bool :=
  !f.isList && (s.target? f).any (·.kind.isPlain)

/-- Where the key of a type breaks a rule. An unsuitable field is reported at the field. -/
def keyFindings (s : Schema) (t : TypeDef) : List Finding :=
  match t.keyName with
  | none => []
  | some key =>
    if ¬t.isRoot then [⟨.keyOnNonRoot, t.location⟩]
    else
      match t.field? key with
      | none => [⟨.keyNotFound key t.name, t.location⟩]
      | some f => if s.isKeyable f then [] else [⟨.keyNotPlain, f.location⟩]

/-- The declared types that share their name with another type. The name of a built-in scalar is
reserved. -/
def typeNameFindings (s : Schema) : List Finding :=
  s.declaredTypes.filterMap fun t =>
    let group := s.types.filter (·.name == t.name)
    if group.length < 2 then none
    else if group.any (·.isBuiltin) then some ⟨.reservedTypeName t.name, t.location⟩
    else some ⟨.duplicateTypeName t.name, t.location⟩

/-- Where a type as a whole breaks a rule. -/
def typeFindings (s : Schema) (t : TypeDef) : List Finding :=
  findAt t.location (nameIssues .type t.name) ++
    t.contentFindings ++
    s.keyFindings t ++
    findAt t.location (s.typePermissionIssues t)

end Schema

end EntityGraph
