import EntityGraph.Plan.Basic

/-!
# Reading fields

The plan that reads a field of the object to which a source evaluates. The first rule that applies
counts:

1. a list relation follows its edges;
2. any other relation follows its edges and takes the first;
3. a reference looks up the entity with the stored key, and a null key leads to null;
4. the identity of an entity is read as such;
5. an extension is the stored object, or the empty object if none is stored;
6. a list is the stored list, or the empty list if none is stored;
7. anything else is the stored value.

## Keys that are references

To look an entity up by its key, the key is read in turn. If the key is itself a reference this
leads to another type, and a chain of such types that does not return to one of them is no longer
than the number of types. `Schema.read` stops there.

## Main definitions

* `ReadError` — why a field cannot be read
* `Schema.read`, `Schema.readObject`, `Schema.listing`
-/

namespace EntityGraph

/-- Why there is no plan that reads a field. -/
inductive ReadError where
  | unknownFieldType (field typeName : String)
  | unresolvedRelation (field : String)
  | invalidReferenceTarget (field typeName : String)
  /-- The key of the target leads back to the target. -/
  | endlessReference (field : String)
  deriving DecidableEq

/-- The error in words. -/
def ReadError.message : ReadError → String
  | .unknownFieldType field typeName => s!"Type \"{typeName}\" of field {field} does not exist"
  | .unresolvedRelation field => s!"Relation of field {field} cannot be resolved"
  | .invalidReferenceTarget field typeName =>
    s!"Reference target \"{typeName}\" of field {field} is not a keyed root entity type"
  | .endlessReference field => s!"Reference of field {field} never ends"

namespace Plan

/-- The value if it has the given shape, and the fallback otherwise. -/
def ensure (value : Plan) (shape : ValueShape) (fallback : Plan) : Plan :=
  .conditional (.typeCheck value shape) value fallback

/-- The first entity of a type that passes the filter on `candidate`, null if there is none. -/
def lookup (type : TypeId) (candidate : Variable) (filter : Plan) : Plan :=
  .firstOfList (.transformList (.entities type) candidate (some filter) (some 1) none)

/-- The entity of a type whose key is the stored one. A key that is null leads nowhere. -/
def lookupByKey (type : TypeId) (candidate : Variable) (candidateKey stored : Plan) : Plan :=
  .conditional (.eq stored .null) .null <|
    lookup type candidate (.and (.eq candidateKey stored) (.ne candidateKey .null))

end Plan

namespace Schema

/-- The key by which a reference to the given type is looked up. -/
def referenceKey? (target : TypeDef) : Option FieldDef :=
  if target.isRoot then target.keyField? else none

/-- Reads a field, following at most `steps` keys that are references. -/
def readWithin (s : Schema) : Nat → FieldDef → Plan → Planner ReadError Plan
  | 0, f, _ => throw (.endlessReference (s.qualifiedName f))
  | steps + 1, f, source =>
    match s.target? f with
    | none => throw (.unknownFieldType (s.qualifiedName f) f.typeName)
    | some target =>
      let stored := Plan.field source f.id f.name
      if f.isRelation then
        match s.relationSide? f with
        | none => throw (.unresolvedRelation (s.qualifiedName f))
        | some side =>
          let edges := Plan.followEdge side source
          return if f.isList then edges else .firstOfList edges
      else if f.isReference then
        match referenceKey? target with
        | none => throw (.invalidReferenceTarget (s.qualifiedName f) target.name)
        | some key => do
          let candidate ← fresh "candidate"
          let candidateKey ← s.readWithin steps key (.var candidate)
          return .lookupByKey target.id candidate candidateKey stored
      else if f.isIdentity then
        return .entityId source
      else if target.kind = .entityExtension ∧ f.isList = false then
        return stored.ensure .object (.object [])
      else if f.isList then
        return stored.ensure .list (.list [])
      else
        return stored

/-- The plan that reads a field of the object `source` evaluates to. -/
def read (s : Schema) (f : FieldDef) (source : Plan) : Planner ReadError Plan :=
  s.readWithin (s.types.length + 1) f source

/-- The plan of an object with every field of a type, read from `source`. -/
def readObject (s : Schema) (t : TypeDef) (source : Plan) : Planner ReadError Plan := do
  let properties ← t.fields.mapM fun f => do return (f.name, ← s.read f source)
  return .object properties

/-- The plan of all entities of a type, each as an object of its fields. -/
def listing (s : Schema) (t : TypeDef) : Planner ReadError Plan := do
  let item ← fresh "entity"
  let inner ← s.readObject t (.var item)
  return .transformList (.entities t.id) item none none (some inner)

end Schema

end EntityGraph
