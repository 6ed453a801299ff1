import EntityGraph.Input.Affected
import EntityGraph.Input.Changes
import EntityGraph.Input.Coercion

/-!
# Mutations

From a supplied value to the plan that carries it out and the fields that it touches. A value is
coerced first and planned only if that succeeds.

Only root entities can be addressed by their identities: they alone are updated and deleted one at
a time. No plan asks whether an entity exists.
-/

namespace EntityGraph

/-- A plan that writes, with the fields that it touches. -/
structure Mutation where
  plan : Plan
  affected : List FieldId
  deriving Inhabited

/-- The entity of a type with the given identity, null if there is none. -/
def entityById (type : TypeId) (id : Value) : Planner InputError Plan := do
  let candidate ← fresh "candidate"
  return .lookup type candidate (.eq (.entityId (.var candidate)) (.literal id))

/-- Fails unless the type is a root entity type. -/
def requireRoot (t : TypeDef) : Except InputError Unit :=
  if t.isRoot then .ok () else .error (.notARootEntity t.name)

/-- The identity of the object that a coerced input object is for. -/
def Shape.requireIdentity (shape : Shape) (v : Value) : Except InputError Value :=
  match shape.identity? v with
  | some id => .ok id
  | none => .error (.missingIdentity shape.name identityName)

namespace Schema

/-- The shape of a type together with the coerced value. -/
def prepare (s : Schema) (role : Role) (t : TypeDef) (input : Value) :
    Except InputError (Shape × Value) := do
  let shape ← s.shape role t
  return (shape, ← shape.coerce s input)

/-- Creates an object. -/
def planCreate (s : Schema) (t : TypeDef) (input : Value) : Planner InputError Mutation := do
  let (shape, value) ← .ofExcept (s.prepare .create t input)
  let plan ← shape.create (changes s value)
  return ⟨plan, ← .ofExcept (affected s value shape.inputs)⟩

/-- Updates the root entity that the input identifies. -/
def planUpdate (s : Schema) (t : TypeDef) (input : Value) : Planner InputError Mutation := do
  .ofExcept (requireRoot t)
  let (shape, value) ← .ofExcept (s.prepare .update t input)
  let id ← .ofExcept (shape.requireIdentity value)
  let target ← entityById t.id id
  let plan ← shape.update target (changes s value)
  return ⟨plan, ← .ofExcept (affected s value shape.inputs)⟩

/-- Updates every entity that `targets` evaluates to in the same way. -/
def planUpdateAll (s : Schema) (t : TypeDef) (input : Value) (targets : Plan) :
    Planner InputError Mutation := do
  let (shape, value) ← .ofExcept (s.prepare .updateAll t input)
  let item ← fresh "item"
  let update ← shape.update (.var item) (changes s value)
  let plan := Plan.transformList targets item none none (some update)
  return ⟨plan, ← .ofExcept (affected s value shape.inputs)⟩

/-- Deletes the root entity with the given identity. -/
def planDelete (t : TypeDef) (id : Value) : Planner InputError Mutation := do
  .ofExcept (requireRoot t)
  let id ← .ofExcept (coerceId identityName id)
  return ⟨.deleteObject t.id (← entityById t.id id), []⟩

end Schema

end EntityGraph
