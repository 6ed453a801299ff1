import EntityGraph.Plan.Read

/-!
# Input errors

Why an input cannot be planned. Faults lie in the schema: a shape cannot be made, or a field
cannot be read. The other errors lie in what was supplied.
-/

namespace EntityGraph

/-- Why an input cannot be planned. -/
inductive InputError where
  | unexpectedFieldShape (field : String)
  | unknownFieldType (field typeName : String)
  | unresolvedRelation (field : String)
  | notAnObjectType (typeName : String)
  | notAList (input actual : String)
  | notAnObject (input actual : String)
  | invalidValue (input expected actual : String)
  | unknownInput (shape input : String)
  | conflictingInputs (shape field : String) (inputs : List String)
  | missingIdentity (shape input : String)
  | duplicateIdentity (input id : String)
  | notARootEntity (typeName : String)
  | unreadable (e : ReadError)
  deriving DecidableEq

namespace InputError

/-- The error in words. -/
def message : InputError → String
  | unexpectedFieldShape field => s!"Field {field} has a shape that cannot be written"
  | unknownFieldType field typeName => s!"Type \"{typeName}\" of field {field} does not exist"
  | unresolvedRelation field => s!"Relation of field {field} cannot be resolved"
  | notAnObjectType typeName => s!"Type \"{typeName}\" has no input shape"
  | notAList input actual => s!"Input {input} expects a list, got {actual}"
  | notAnObject input actual => s!"Input {input} expects an object, got {actual}"
  | invalidValue input expected actual =>
    s!"Invalid value for input {input}: expected {expected}, got {actual}"
  | unknownInput shape input => s!"Unknown input {input} on {shape}"
  | conflictingInputs shape field inputs =>
    let names := ", ".intercalate inputs
    s!"Inputs {names} of {shape} all write field {field}"
  | missingIdentity shape input =>
    s!"Input {input} of {shape} is required to identify the object to update"
  | duplicateIdentity input id => s!"Input {input} addresses object {id} more than once"
  | notARootEntity typeName => s!"Type \"{typeName}\" is not a root entity type"
  | unreadable e => e.message

/-- Whether the error lies in the schema and not in what was supplied. -/
def isFault : InputError → Bool
  | unexpectedFieldShape _ | unknownFieldType .. | unresolvedRelation _ | notAnObjectType _
  | unreadable _ => true
  | _ => false

end InputError

end EntityGraph
