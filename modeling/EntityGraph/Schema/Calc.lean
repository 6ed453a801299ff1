import EntityGraph.Text.Uppercase

/-!
# Calc operators

A calc operator combines a supplied value with the stored one instead of overwriting it. The
arithmetic operators apply to numbers, the two others to text. An input that applies an operator
to a field is named after both.
-/

namespace EntityGraph

/-- An operator that combines the stored value of a field with a supplied one. -/
inductive CalcOperator where
  | multiply
  | divide
  | add
  | subtract
  | modulo
  | append
  | prepend
  deriving DecidableEq, Inhabited

namespace CalcOperator

/-- All operators, in the order in which they are listed to users. -/
def all : List CalcOperator := [multiply, divide, add, subtract, modulo, append, prepend]

/-- The name of the operator in a declaration. -/
def name : CalcOperator → String
  | multiply => "MULTIPLY"
  | divide => "DIVIDE"
  | add => "ADD"
  | subtract => "SUBTRACT"
  | modulo => "MODULO"
  | append => "APPEND"
  | prepend => "PREPEND"

/-- The operator with the given name. -/
def ofName? (name : String) : Option CalcOperator := all.find? (·.name == name)

@[simp] theorem ofName?_name (op : CalcOperator) : ofName? op.name = some op := by
  cases op <;> rfl

/-- The words that stand before the field in the name of an input. -/
def stem : CalcOperator → String
  | multiply => "multiplyWith"
  | divide => "divideBy"
  | add => "increaseBy"
  | subtract => "decreaseBy"
  | modulo => "moduloOf"
  | append => "appendTo"
  | prepend => "prependTo"

/-- The names of the types an operator applies to. -/
def typeNames : CalcOperator → List String
  | append | prepend => ["String"]
  | _ => ["Int", "Float"]

/-- Whether the operator applies to the type with the given name. -/
def supports (op : CalcOperator) (typeName : String) : Bool := op.typeNames.contains typeName

/-- The operators that apply to the type with the given name. -/
def forType (typeName : String) : List CalcOperator := all.filter (·.supports typeName)

@[simp] theorem mem_forType {op : CalcOperator} {typeName : String} :
    op ∈ forType typeName ↔ op.supports typeName = true := by
  cases op <;> simp [forType, all]

/-- The name of the input that applies the operator to the given field. -/
def inputName (op : CalcOperator) (field : String) : String := op.stem ++ capitalize field

end CalcOperator

end EntityGraph
