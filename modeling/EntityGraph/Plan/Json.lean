import EntityGraph.Json.Record
import EntityGraph.Plan.Basic
import EntityGraph.Value.Json

/-!
# Plans as documents

A step with parts is an object with one member: the name of the step over the record of its parts.
The one step without parts is its bare name. `Plan.ofJson?` reads back what `Plan.toJson` writes.
-/

namespace EntityGraph

/-! ### Writing -/

def ValueShape.name : ValueShape → String
  | .object => "object"
  | .list => "list"
  | .null => "null"
  | .scalar => "scalar"

def BinaryOperator.name : BinaryOperator → String
  | .equal => "equal"
  | .unequal => "unequal"
  | .and => "and"
  | .or => "or"
  | .add => "add"
  | .subtract => "subtract"
  | .multiply => "multiply"
  | .divide => "divide"
  | .modulo => "modulo"
  | .append => "append"
  | .prepend => "prepend"
  | .isIn => "in"
  | .concat => "concat"

/-- All operators with two operands. -/
def BinaryOperator.all : List BinaryOperator :=
  [.equal, .unequal, .and, .or, .add, .subtract, .multiply, .divide, .modulo, .append, .prepend,
    .isIn, .concat]

def UnaryOperator.name : UnaryOperator → String
  | .not => "not"

def TypeId.toJson (id : TypeId) : Json := .int id.index

def FieldId.toJson (id : FieldId) : Json := .int id.index

def Variable.toJson (v : Variable) : Json :=
  .object [("id", .int v.id), ("label", .string v.label)]

def Relation.toJson (r : Relation) : Json :=
  .object [
    ("from_type", r.fromType.toJson),
    ("from_field", r.fromField.toJson),
    ("to_type", r.toType.toJson),
    ("to_field", Json.ofOption FieldId.toJson r.toField)]

def RelationSide.toJson (s : RelationSide) : Json :=
  .object [("relation", s.relation.toJson), ("is_from_side", .bool s.isFromSide)]

namespace Plan

/-- A step with the given name and parts. -/
def step (tag : String) (parts : List (String × Json)) : Json := .object [(tag, .object parts)]

mutual

/-- The document of a plan. -/
def toJson : Plan → Json
  | .entities type => step "entities" [("type_id", type.toJson)]
  | .field source id name =>
    step "field" [("source", toJson source), ("field", id.toJson), ("name", .string name)]
  | .entityId source => step "entityId" [("source", toJson source)]
  | .conditional condition yes no =>
    step "conditional" [
      ("condition", toJson condition), ("then", toJson yes), ("otherwise", toJson no)]
  | .typeCheck value shape =>
    step "typeCheck" [("value", toJson value), ("shape", .string shape.name)]
  | .transformList source item filter maxCount inner =>
    step "transformList" [
      ("list", toJson source),
      ("item", item.toJson),
      ("filter", optionToJson filter),
      ("max_count", Json.ofOption (fun n : Nat => .int n) maxCount),
      ("inner", optionToJson inner)]
  | .firstOfList source => step "firstOfList" [("list", toJson source)]
  | .followEdge side source => step "followEdge" [("side", side.toJson), ("source", toJson source)]
  | .binary op lhs rhs =>
    step "binaryOp" [("op", .string op.name), ("lhs", toJson lhs), ("rhs", toJson rhs)]
  | .unary op operand => step "unaryOp" [("op", .string op.name), ("operand", toJson operand)]
  | .literal value => step "literal" [("value", value.toJson)]
  | .var v => step "variable" [("variable", v.toJson)]
  | .object properties => step "object" [("properties", .array (propertiesToJson properties))]
  | .list items => step "list" [("items", .array (itemsToJson items))]
  | .generateId => .string "generateId"
  | .setField id name value =>
    step "setField" [("field", id.toJson), ("name", .string name), ("value", toJson value)]
  | .addEdges side source targets =>
    step "addEdges" [
      ("side", side.toJson), ("source", toJson source), ("targets", toJson targets)]
  | .removeEdges side source targets =>
    step "removeEdges" [
      ("side", side.toJson), ("source", toJson source), ("targets", toJson targets)]
  | .setEdge side source target =>
    step "setEdge" [
      ("side", side.toJson), ("source", toJson source), ("target", optionToJson target)]
  | .createObject type binding changes =>
    step "createObject" [
      ("type_id", type.toJson),
      ("binding", binding.toJson),
      ("changes", .array (itemsToJson changes))]
  | .updateObject target binding changes =>
    step "updateObject" [
      ("target", toJson target),
      ("binding", binding.toJson),
      ("changes", .array (itemsToJson changes))]
  | .deleteObject type target =>
    step "deleteObject" [("type_id", type.toJson), ("target", toJson target)]

/-- The document of an optional plan. -/
def optionToJson : Option Plan → Json
  | none => .null
  | some p => toJson p

/-- The documents of plans, in order. -/
def itemsToJson : List Plan → List Json
  | [] => []
  | p :: ps => toJson p :: itemsToJson ps

/-- The documents of properties, each a pair of name and plan. -/
def propertiesToJson : List (String × Plan) → List Json
  | [] => []
  | (name, p) :: rest => .array [.string name, toJson p] :: propertiesToJson rest

end

end Plan

/-! ### Reading -/

/-- A natural number. -/
def Json.nat? : Json → Option Nat
  | .int n => if 0 ≤ n then some n.toNat else none
  | _ => none

def ValueShape.ofJson? : Json → Option ValueShape :=
  Json.name? ([.object, .list, .null, .scalar].map fun s : ValueShape => (s.name, s))

def BinaryOperator.ofJson? : Json → Option BinaryOperator :=
  Json.name? (BinaryOperator.all.map fun op => (op.name, op))

def UnaryOperator.ofJson? : Json → Option UnaryOperator := Json.name? [("not", .not)]

def TypeId.ofJson? (j : Json) : Option TypeId := (Json.nat? j).map TypeId.mk

def FieldId.ofJson? (j : Json) : Option FieldId := (Json.nat? j).map FieldId.mk

def Variable.ofJson? (j : Json) : Option Variable := do
  return ⟨← Json.nat? (← j.get? "id"), ← Json.string? (← j.get? "label")⟩

def Relation.ofJson? (j : Json) : Option Relation := do
  return {
    fromType := ← TypeId.ofJson? (← j.get? "from_type")
    fromField := ← FieldId.ofJson? (← j.get? "from_field")
    toType := ← TypeId.ofJson? (← j.get? "to_type")
    toField := ← Json.optional? FieldId.ofJson? (j.get? "to_field") }

def RelationSide.ofJson? (j : Json) : Option RelationSide := do
  return ⟨← Relation.ofJson? (← j.get? "relation"), ← Json.bool? (← j.get? "is_from_side")⟩

/-- A part of a step: the document itself and what it is when it is read as a plan, a list of
plans or a list of properties. -/
structure PlanPart where
  document : Json
  plan : Option Plan
  plans : Option (List Plan)
  properties : Option (List (String × Plan))

namespace PlanPart

/-- The part as an optional plan. -/
def option (p : PlanPart) : Option (Option Plan) :=
  match p.document with
  | .null => some none
  | _ => p.plan.map some

end PlanPart

namespace Plan

/-- The step with the given name and parts. -/
def ofStep? (tag : String) (parts : List (String × PlanPart)) : Option Plan :=
  let plan (key : String) : Option Plan := (parts.lookup key).bind (·.plan)
  let plans (key : String) : Option (List Plan) := (parts.lookup key).bind (·.plans)
  let option (key : String) : Option (Option Plan) :=
    (parts.lookup key).elim (some none) (·.option)
  let other {α : Type} (decode : Json → Option α) (key : String) : Option α :=
    (parts.lookup key).bind fun part => decode part.document
  match tag with
  | "entities" => do return .entities (← other TypeId.ofJson? "type_id")
  | "field" => do
    return .field (← plan "source") (← other FieldId.ofJson? "field") (← other Json.string? "name")
  | "entityId" => do return .entityId (← plan "source")
  | "conditional" => do
    return .conditional (← plan "condition") (← plan "then") (← plan "otherwise")
  | "typeCheck" => do return .typeCheck (← plan "value") (← other ValueShape.ofJson? "shape")
  | "transformList" => do
    return .transformList (← plan "list") (← other Variable.ofJson? "item") (← option "filter")
      (← Json.optional? Json.nat? ((parts.lookup "max_count").map (·.document))) (← option "inner")
  | "firstOfList" => do return .firstOfList (← plan "list")
  | "followEdge" => do return .followEdge (← other RelationSide.ofJson? "side") (← plan "source")
  | "binaryOp" => do
    return .binary (← other BinaryOperator.ofJson? "op") (← plan "lhs") (← plan "rhs")
  | "unaryOp" => do return .unary (← other UnaryOperator.ofJson? "op") (← plan "operand")
  | "literal" => do return .literal (← other Value.ofJson? "value")
  | "variable" => do return .var (← other Variable.ofJson? "variable")
  | "object" => do return .object (← (parts.lookup "properties").bind (·.properties))
  | "list" => do return .list (← plans "items")
  | "setField" => do
    return .setField (← other FieldId.ofJson? "field") (← other Json.string? "name")
      (← plan "value")
  | "addEdges" => do
    return .addEdges (← other RelationSide.ofJson? "side") (← plan "source") (← plan "targets")
  | "removeEdges" => do
    return .removeEdges (← other RelationSide.ofJson? "side") (← plan "source") (← plan "targets")
  | "setEdge" => do
    return .setEdge (← other RelationSide.ofJson? "side") (← plan "source") (← option "target")
  | "createObject" => do
    return .createObject (← other TypeId.ofJson? "type_id") (← other Variable.ofJson? "binding")
      (← plans "changes")
  | "updateObject" => do
    return .updateObject (← plan "target") (← other Variable.ofJson? "binding") (← plans "changes")
  | "deleteObject" => do return .deleteObject (← other TypeId.ofJson? "type_id") (← plan "target")
  | _ => none

mutual

/-- The plan that a document describes. -/
def ofJson? : Json → Option Plan
  | .string "generateId" => some .generateId
  | .object [(tag, parts)] => (partsOfJson? parts).bind (ofStep? tag)
  | _ => none

/-- The parts of a step. -/
def partsOfJson? : Json → Option (List (String × PlanPart))
  | .object members => some (partsOfMembers members)
  | _ => none

/-- The parts of a step, from the members of its record. -/
def partsOfMembers : List (String × Json) → List (String × PlanPart)
  | [] => []
  | (key, j) :: rest =>
    (key, ⟨j, ofJson? j, itemsOfJson? j, propertiesOfJson? j⟩) :: partsOfMembers rest

/-- The list of plans that a document describes. -/
def itemsOfJson? : Json → Option (List Plan)
  | .array items => plansOf? items
  | _ => none

/-- The plans that documents describe, in order. -/
def plansOf? : List Json → Option (List Plan)
  | [] => some []
  | j :: rest => do return (← ofJson? j) :: (← plansOf? rest)

/-- The list of properties that a document describes. -/
def propertiesOfJson? : Json → Option (List (String × Plan))
  | .array pairs => pairsOf? pairs
  | _ => none

/-- The properties that pairs describe, in order. -/
def pairsOf? : List Json → Option (List (String × Plan))
  | [] => some []
  | .array [.string name, j] :: rest => do return (name, ← ofJson? j) :: (← pairsOf? rest)
  | _ => none

end

end Plan

end EntityGraph
