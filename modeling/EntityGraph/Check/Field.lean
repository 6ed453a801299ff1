import EntityGraph.Check.Name
import EntityGraph.Check.Permission
import EntityGraph.Schema.Relation

/-!
# Checks of fields

The rules of a field, given the type that declares it. A field whose type is not found is checked
only for what does not depend on the type.

* An embedded type has to fit the place: root entities are never embedded, extensions stand alone,
  children in lists, and neither in value objects.
* A relation joins two root entities. Its inverse is a relation back to the declaring type that
  names no inverse itself.
* A reference leads to one root entity with a key.
* A calc operator applies to single values of the types that it supports.
-/

namespace EntityGraph

/-- The issues of embedding a type in a field. -/
def embeddingIssues (owner : TypeDef) (f : FieldDef) (target : TypeDef) : List Issue :=
  match target.kind with
  | .rootEntity => [.embeddedRoot target.name]
  | .entityExtension =>
    (if owner.kind = .valueObject then
        [.extensionInValueObject target.name owner.name f.name] else []) ++
      (if f.isList then [.extensionInList target.name] else [])
  | .childEntity =>
    (if owner.kind = .valueObject then
        [.childInValueObject target.name owner.name f.name] else []) ++
      (if f.isList then [] else [.childNotInList target.name])
  | _ => []

/-- The issues of a reference to a type. -/
def referenceIssues (f : FieldDef) (target : TypeDef) : List Issue :=
  (if ¬target.isRoot then [.referenceToNonRoot target.name]
    else if target.keyField?.isNone then [.referenceWithoutKey target.name]
    else []) ++
    (if f.isList then [.listOfReferences] else [])

/-- The issues of the calc operators of a field. -/
def calcIssues (f : FieldDef) (target : TypeDef) : List Issue :=
  if f.operators.isEmpty then []
  else if f.isList then [.calcOnList]
  else (f.operators.filter (!·.supports target.name)).map (.calcUnsupported · target.name)

/-- A default is noted, and refused on a relation. -/
def defaultIssues (f : FieldDef) : List Issue :=
  if f.defaultValue.isNone then []
  else if f.isRelation then [.defaultOnRelation]
  else [.uncheckedDefault]

namespace Schema

/-- The issues of a field that names its inverse, between two root entities. -/
def inverseIssues (s : Schema) (owner : TypeDef) (f : FieldDef) (target : TypeDef) (name : String) :
    List Issue :=
  let this := owner.qualify f.name
  let that := target.qualify name
  match target.field? name with
  | none => [.inverseNotFound that this]
  | some inverse =>
    if ¬inverse.isRelation then [.inverseNotRelation that this]
    else if s.targetId? inverse ≠ some owner.id then
      [.inverseOfOtherType that this inverse.typeName owner.name]
    else if inverse.inverseOf.isSome then [.inverseWithInverse that this]
    else []

/-- The other relation fields that lead back and name no inverse. -/
def unpaired (s : Schema) (f : FieldDef) (target : TypeDef) : List FieldDef :=
  target.fields.filter fun g => g.id != f.id && s.leadsBack f g && g.inverseOf.isNone

/-- Where a field that names no inverse breaks a rule. Several inverses are reported at each of
them. -/
def pairingFindings (s : Schema) (owner : TypeDef) (f : FieldDef) (target : TypeDef) :
    List Finding :=
  match s.inverseCandidates f target with
  | [] =>
    match s.unpaired f target with
    | [other] => [⟨.separateRelations (target.qualify other.name), f.location⟩]
    | _ => []
  | [_] => []
  | candidates =>
    let names := candidates.map fun g => target.qualify g.name
    candidates.map fun g => ⟨.severalInverses names (owner.qualify f.name), g.location⟩

/-- Where a relation breaks a rule. -/
def relationFindings (s : Schema) (owner : TypeDef) (f : FieldDef) (target : TypeDef) :
    List Finding :=
  if owner.isRoot && target.isRoot then
    match f.inverseOf with
    | some name => findAt f.location (s.inverseIssues owner f target name)
    | none => s.pairingFindings owner f target
  else
    findAt f.location <|
      (if owner.isRoot then [] else [.relationOnNonRoot]) ++
        (if target.isRoot then [] else [.relationToNonRoot target.name])

/-- The issues of a field that do not depend on its type. -/
def ownIssues (s : Schema) (f : FieldDef) : List Issue :=
  nameIssues .field f.name ++
    (if f.isReference && f.isRelation then [.referenceAndRelation] else []) ++
    (if f.inverseOf.isSome && !f.isRelation then [.inverseOnNonRelation] else []) ++
    (f.permissions.map s.permissionIssues).getD [] ++
    defaultIssues f

/-- The issues of a field whose type is not found. -/
def untypedIssues (f : FieldDef) : List Issue :=
  .typeNotFound f.typeName :: (if f.isList && !f.operators.isEmpty then [.calcOnList] else [])

/-- Where a field breaks a rule that depends on its type. -/
def typedFindings (s : Schema) (owner : TypeDef) (f : FieldDef) (target : TypeDef) : List Finding :=
  findAt f.location
      (if f.isReference || f.isRelation then [] else embeddingIssues owner f target) ++
    (if f.isRelation then s.relationFindings owner f target else []) ++
    findAt f.location (if f.isReference then referenceIssues f target else []) ++
    findAt f.location (calcIssues f target)

/-- Where a field of the given type breaks a rule. -/
def fieldFindings (s : Schema) (owner : TypeDef) (f : FieldDef) : List Finding :=
  findAt f.location (s.ownIssues f) ++
    match s.target? f with
    | none => findAt f.location (untypedIssues f)
    | some target => s.typedFindings owner f target

end Schema

end EntityGraph
