import EntityGraph.Plan.Variable
import EntityGraph.Schema.Relation

/-!
# Plans

A plan is an expression that reads from and writes to a store of entities. Reading expressions
have a value. Writing expressions stand in the changes of an object that is created or updated,
and apply to that object under the variable that is bound to it.

## Main definitions

* `Plan` — plans
* `Plan.nodes` — a plan and everything in it, parents first
* `Plan.isWrite`, `Plan.readsEntities` — what a plan does
* `Plan.beq` — equality, with floats compared as numbers
-/

namespace EntityGraph

/-- The shapes that a value can be tested for. -/
inductive ValueShape where
  | object
  | list
  | null
  | scalar
  deriving DecidableEq, Inhabited

/-- The operators with two operands. -/
inductive BinaryOperator where
  | equal
  | unequal
  | and
  | or
  | add
  | subtract
  | multiply
  | divide
  | modulo
  /-- The texts joined, the left one first. -/
  | append
  /-- The texts joined, the right one first. -/
  | prepend
  /-- Whether the left operand is in the list on the right. -/
  | isIn
  /-- The lists joined. -/
  | concat
  deriving DecidableEq, Inhabited

/-- The operator that a calc operator stands for. -/
def BinaryOperator.ofCalc : CalcOperator → BinaryOperator
  | .multiply => .multiply
  | .divide => .divide
  | .add => .add
  | .subtract => .subtract
  | .modulo => .modulo
  | .append => .append
  | .prepend => .prepend

/-- The operators with one operand. -/
inductive UnaryOperator where
  | not
  deriving DecidableEq, Inhabited

/-- An expression over a store of entities. -/
inductive Plan where
  /-- All entities of a root entity type. -/
  | entities (type : TypeId)
  /-- The stored value of a field. -/
  | field (source : Plan) (field : FieldId) (name : String)
  /-- The identity of an entity. -/
  | entityId (source : Plan)
  | conditional (condition yes no : Plan)
  | typeCheck (value : Plan) (shape : ValueShape)
  /-- The items that pass the filter, at most `maxCount` of them, each replaced by `inner`. -/
  | transformList (source : Plan) (item : Variable) (filter : Option Plan) (maxCount : Option Nat)
      (inner : Option Plan)
  /-- The first item, null if there is none. -/
  | firstOfList (source : Plan)
  /-- The entities connected to `source`. -/
  | followEdge (side : RelationSide) (source : Plan)
  | binary (op : BinaryOperator) (lhs rhs : Plan)
  | unary (op : UnaryOperator) (operand : Plan)
  | literal (value : Value)
  | var (v : Variable)
  | object (properties : List (String × Plan))
  | list (items : List Plan)
  /-- A new identity. -/
  | generateId
  /-- Stores a value in a field of the bound object. -/
  | setField (field : FieldId) (name : String) (value : Plan)
  /-- Connects `source` to every target. -/
  | addEdges (side : RelationSide) (source targets : Plan)
  /-- Disconnects `source` from every target. -/
  | removeEdges (side : RelationSide) (source targets : Plan)
  /-- Connects `source` to the one target, or to none. -/
  | setEdge (side : RelationSide) (source : Plan) (target : Option Plan)
  | createObject (type : TypeId) (binding : Variable) (changes : List Plan)
  | updateObject (target : Plan) (binding : Variable) (changes : List Plan)
  | deleteObject (type : TypeId) (target : Plan)
  deriving Inhabited

namespace Plan

/-! ### Abbreviations -/

/-- The literal null. -/
def null : Plan := .literal .null

def eq (lhs rhs : Plan) : Plan := .binary .equal lhs rhs

def ne (lhs rhs : Plan) : Plan := .binary .unequal lhs rhs

def and (lhs rhs : Plan) : Plan := .binary .and lhs rhs

def not (operand : Plan) : Plan := .unary .not operand

/-! ### Inspection -/

mutual

/-- Everything inside a plan, parents first. -/
def inside : Plan → List Plan
  | .entities _ | .literal _ | .var _ | .generateId => []
  | .field source _ _ | .entityId source | .followEdge _ source => source :: inside source
  | .conditional condition yes no =>
    condition :: inside condition ++ yes :: inside yes ++ no :: inside no
  | .typeCheck value _ | .setField _ _ value => value :: inside value
  | .transformList source _ filter _ inner =>
    source :: inside source ++ insideOption filter ++ insideOption inner
  | .firstOfList source => source :: inside source
  | .binary _ lhs rhs => lhs :: inside lhs ++ rhs :: inside rhs
  | .unary _ operand => operand :: inside operand
  | .object properties => insideProperties properties
  | .list items => insideItems items
  | .addEdges _ source targets | .removeEdges _ source targets =>
    source :: inside source ++ targets :: inside targets
  | .setEdge _ source target => source :: inside source ++ insideOption target
  | .createObject _ _ changes => insideItems changes
  | .updateObject target _ changes => target :: inside target ++ insideItems changes
  | .deleteObject _ target => target :: inside target

/-- An optional plan and everything inside it. -/
def insideOption : Option Plan → List Plan
  | none => []
  | some p => p :: inside p

/-- The plans of a list and everything inside them. -/
def insideItems : List Plan → List Plan
  | [] => []
  | p :: ps => p :: inside p ++ insideItems ps

/-- The plans of properties and everything inside them. -/
def insideProperties : List (String × Plan) → List Plan
  | [] => []
  | (_, p) :: rest => p :: inside p ++ insideProperties rest

end

/-- A plan and everything inside it, parents first. -/
def nodes (p : Plan) : List Plan := p :: inside p

/-- Whether the outermost step of a plan writes. -/
def isWrite : Plan → Bool
  | .setField .. | .addEdges .. | .removeEdges .. | .setEdge .. | .createObject ..
  | .updateObject .. | .deleteObject .. => true
  | _ => false

/-- Whether the outermost step of a plan reads the store of entities. -/
def isScan : Plan → Bool
  | .entities _ | .followEdge .. => true
  | _ => false

/-- Whether anything in a plan reads the store of entities. -/
def readsEntities (p : Plan) : Bool := p.nodes.any isScan

/-- The number of steps of a plan. -/
def size (p : Plan) : Nat := p.nodes.length

/-- The number of writing steps of a plan. -/
def writeCount (p : Plan) : Nat := (p.nodes.filter isWrite).length

/-- The name of the outermost step. -/
def tag : Plan → String
  | .entities _ => "entities"
  | .field .. => "field"
  | .entityId _ => "entityId"
  | .conditional .. => "conditional"
  | .typeCheck .. => "typeCheck"
  | .transformList .. => "transformList"
  | .firstOfList _ => "firstOfList"
  | .followEdge .. => "followEdge"
  | .binary .. => "binaryOp"
  | .unary .. => "unaryOp"
  | .literal _ => "literal"
  | .var _ => "variable"
  | .object _ => "object"
  | .list _ => "list"
  | .generateId => "generateId"
  | .setField .. => "setField"
  | .addEdges .. => "addEdges"
  | .removeEdges .. => "removeEdges"
  | .setEdge .. => "setEdge"
  | .createObject .. => "createObject"
  | .updateObject .. => "updateObject"
  | .deleteObject .. => "deleteObject"

/-! ### Equality -/

mutual

/-- Equality of plans. Literals are equal as values are. -/
def beq : Plan → Plan → Bool
  | .entities a, q => match q with
    | .entities b => a == b
    | _ => false
  | .field s f n, q => match q with
    | .field s' f' n' => beq s s' && f == f' && n == n'
    | _ => false
  | .entityId s, q => match q with
    | .entityId s' => beq s s'
    | _ => false
  | .conditional c y n, q => match q with
    | .conditional c' y' n' => beq c c' && beq y y' && beq n n'
    | _ => false
  | .typeCheck v s, q => match q with
    | .typeCheck v' s' => beq v v' && s == s'
    | _ => false
  | .transformList l i f m n, q => match q with
    | .transformList l' i' f' m' n' =>
      beq l l' && i == i' && beqOption f f' && m == m' && beqOption n n'
    | _ => false
  | .firstOfList l, q => match q with
    | .firstOfList l' => beq l l'
    | _ => false
  | .followEdge s p, q => match q with
    | .followEdge s' p' => s == s' && beq p p'
    | _ => false
  | .binary o l r, q => match q with
    | .binary o' l' r' => o == o' && beq l l' && beq r r'
    | _ => false
  | .unary o p, q => match q with
    | .unary o' p' => o == o' && beq p p'
    | _ => false
  | .literal v, q => match q with
    | .literal v' => v == v'
    | _ => false
  | .var v, q => match q with
    | .var v' => v == v'
    | _ => false
  | .object ps, q => match q with
    | .object ps' => beqProperties ps ps'
    | _ => false
  | .list is, q => match q with
    | .list is' => beqItems is is'
    | _ => false
  | .generateId, q => match q with
    | .generateId => true
    | _ => false
  | .setField f n v, q => match q with
    | .setField f' n' v' => f == f' && n == n' && beq v v'
    | _ => false
  | .addEdges s p t, q => match q with
    | .addEdges s' p' t' => s == s' && beq p p' && beq t t'
    | _ => false
  | .removeEdges s p t, q => match q with
    | .removeEdges s' p' t' => s == s' && beq p p' && beq t t'
    | _ => false
  | .setEdge s p t, q => match q with
    | .setEdge s' p' t' => s == s' && beq p p' && beqOption t t'
    | _ => false
  | .createObject t b cs, q => match q with
    | .createObject t' b' cs' => t == t' && b == b' && beqItems cs cs'
    | _ => false
  | .updateObject t b cs, q => match q with
    | .updateObject t' b' cs' => beq t t' && b == b' && beqItems cs cs'
    | _ => false
  | .deleteObject t p, q => match q with
    | .deleteObject t' p' => t == t' && beq p p'
    | _ => false

/-- Equality of optional plans. -/
def beqOption : Option Plan → Option Plan → Bool
  | none, none => true
  | some p, some p' => beq p p'
  | _, _ => false

/-- Equality of lists of plans, item by item. -/
def beqItems : List Plan → List Plan → Bool
  | [], [] => true
  | p :: ps, p' :: ps' => beq p p' && beqItems ps ps'
  | _, _ => false

/-- Equality of properties, name by name and in order. -/
def beqProperties : List (String × Plan) → List (String × Plan) → Bool
  | [], [] => true
  | (n, p) :: ps, (n', p') :: ps' => n == n' && beq p p' && beqProperties ps ps'
  | _, _ => false

end

instance : BEq Plan := ⟨beq⟩

end Plan

end EntityGraph
