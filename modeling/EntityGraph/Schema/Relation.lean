import EntityGraph.Schema.Basic

/-!
# Relations

A relation is never declared as such. It is derived from a relation field and, if there is one,
the field of the target type that is paired with it. Both fields of a pair see the same relation,
each from its own side.

A field that names its inverse is the far end of the inverse's relation. Any other relation field
is the near end of its own, and is paired with the one field of the target that names it as
inverse. Where several fields do, there is no relation.

## Main definitions

* `Relation`, `RelationSide` — an edge between two types, and one of its two views
* `Schema.relation?` — the relation of a field
* `Schema.relationSide?` — the side from which a field sees it
-/

namespace EntityGraph

/-- An edge between two types, from the field it belongs to. -/
structure Relation where
  fromType : TypeId
  fromField : FieldId
  toType : TypeId
  /-- The paired field; none if the relation has only one side. -/
  toField : Option FieldId
  deriving DecidableEq, Inhabited

/-- A relation seen from one of its ends. -/
structure RelationSide where
  relation : Relation
  isFromSide : Bool
  deriving DecidableEq, Inhabited

namespace Relation

/-- Whether no field is paired with the relation's own. -/
def isOneSided (r : Relation) : Bool := r.toField.isNone

end Relation

namespace RelationSide

/-- The type that edges start at. -/
def sourceType (s : RelationSide) : TypeId :=
  if s.isFromSide then s.relation.fromType else s.relation.toType

/-- The field through which this side is seen. -/
def sourceField (s : RelationSide) : Option FieldId :=
  if s.isFromSide then some s.relation.fromField else s.relation.toField

/-- The type that edges lead to. -/
def targetType (s : RelationSide) : TypeId :=
  if s.isFromSide then s.relation.toType else s.relation.fromType

/-- The field through which the other side is seen. -/
def targetField (s : RelationSide) : Option FieldId :=
  if s.isFromSide then s.relation.toField else some s.relation.fromField

/-- The other side of the same relation. -/
def opposite (s : RelationSide) : RelationSide := { s with isFromSide := !s.isFromSide }

@[simp] theorem opposite_opposite (s : RelationSide) : s.opposite.opposite = s := by
  simp [opposite]

@[simp] theorem sourceType_opposite (s : RelationSide) : s.opposite.sourceType = s.targetType := by
  cases h : s.isFromSide <;> simp [opposite, sourceType, targetType, h]

@[simp] theorem sourceField_opposite (s : RelationSide) :
    s.opposite.sourceField = s.targetField := by
  cases h : s.isFromSide <;> simp [opposite, sourceField, targetField, h]

end RelationSide

namespace Schema

/-- Whether `g` is a relation field that leads back to the owner of `f`. -/
def leadsBack (s : Schema) (f g : FieldDef) : Bool :=
  g.isRelation && s.targetId? g == some f.owner

/-- The fields of the target type that name `f` as their inverse. -/
def inverseCandidates (s : Schema) (f : FieldDef) (target : TypeDef) : List FieldDef :=
  target.fields.filter fun g => s.leadsBack f g && g.inverseOf == some f.name

/-- The relation of a field whose type is `target`, as if the field were a relation field. -/
def relationTo? (s : Schema) (f : FieldDef) (target : TypeDef) : Option Relation :=
  match f.inverseOf with
  | some name =>
    match target.field? name with
    | some inverse =>
      if inverse.isRelation then some ⟨target.id, inverse.id, f.owner, some f.id⟩ else none
    | none => none
  | none =>
    match s.inverseCandidates f target with
    | [] => some ⟨f.owner, f.id, target.id, none⟩
    | [inverse] => some ⟨f.owner, f.id, target.id, some inverse.id⟩
    | _ => none

/-- The relation of a field: none if the field is no relation field, if its type or its inverse
cannot be found, or if several fields claim to be its inverse. -/
def relation? (s : Schema) (f : FieldDef) : Option Relation :=
  if f.isRelation then (s.target? f).bind (s.relationTo? f) else none

/-- The side from which a field sees its relation. -/
def relationSide? (s : Schema) (f : FieldDef) : Option RelationSide :=
  (s.relation? f).map fun r => ⟨r, r.fromField == f.id⟩

/-- The field paired with a relation field. -/
def inverseField? (s : Schema) (f : FieldDef) : Option FieldId :=
  (s.relationSide? f).bind (·.targetField)

end Schema

end EntityGraph
