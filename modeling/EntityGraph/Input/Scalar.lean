import EntityGraph.Input.Error
import EntityGraph.Text.DateTime

/-!
# Coercion of plain values

What an input of a scalar or enum type does to a supplied value. Null always passes. An enum takes
its own values. A scalar takes what its format fits, with two conversions: identities turn
integers into text, and floats turn integers into floats. The format of a scalar is told by its
name, and a name without a format takes everything.

## Main definitions

* `ScalarFormat` — the formats of the built-in scalars
* `coerceId`, `coerceScalar`, `coerceList`
-/

namespace EntityGraph

/-- What the values of a scalar look like. -/
inductive ScalarFormat where
  | id
  | string
  | int
  | float
  | boolean
  | dateTime
  /-- Any value at all. -/
  | free
  deriving DecidableEq

namespace ScalarFormat

/-- The format of the scalar with the given name. -/
def ofName (name : String) : ScalarFormat :=
  if name = "ID" then .id
  else if name = "String" then .string
  else if name = "Int" then .int
  else if name = "Float" then .float
  else if name = "Boolean" then .boolean
  else if name = "DateTime" then .dateTime
  else .free

/-- A value in the given format; none if it does not fit. -/
def fit? : ScalarFormat → Value → Option Value
  | .id, .string s => some (.string s)
  | .id, .int n => some (.string (toString n.toInt))
  | .string, .string s => some (.string s)
  | .int, .int n => some (.int n)
  | .float, .float x => some (.float x)
  | .float, .int n => some (.float (Float.ofInt n.toInt))
  | .boolean, .bool b => some (.bool b)
  | .dateTime, .string s => if isDateTime s then some (.string s) else none
  | .free, v => some v
  | _, _ => none

end ScalarFormat

/-- A value that is one of the values of an enum. -/
def fitEnum? (values : List String) : Value → Option Value
  | .string s => if s ∈ values then some (.string s) else none
  | _ => none

/-- A value of a type, other than null; none if it does not fit. -/
def TypeDef.fit? (t : TypeDef) (v : Value) : Option Value :=
  if t.kind = .enum then fitEnum? t.values v else (ScalarFormat.ofName t.name).fit? v

/-- A fitted value for an input, or the error that the supplied one is not as expected. -/
def expectFit (input expected : String) (v : Value) : Option Value → Except InputError Value
  | some w => .ok w
  | none => .error (.invalidValue input expected v.typeName)

/-- An identity: text, or an integer as its decimal text. -/
def coerceId (input : String) (v : Value) : Except InputError Value :=
  expectFit input "ID" v (ScalarFormat.id.fit? v)

/-- A value for an input of the given type. -/
def coerceScalar (input : String) (t : TypeDef) (v : Value) : Except InputError Value :=
  if v.isNull then .ok .null else expectFit input t.name v (t.fit? v)

/-- A list whose items are coerced alike; null is the empty list. -/
def coerceList (input : String) (item : Value → Except InputError Value) :
    Value → Except InputError Value
  | .null => .ok (.list [])
  | .list items => (items.mapM item).map .list
  | v => .error (.notAList input v.typeName)

@[simp] theorem coerceScalar_null (input : String) (t : TypeDef) :
    coerceScalar input t .null = .ok .null := rfl

@[simp] theorem coerceList_null (input : String) (item : Value → Except InputError Value) :
    coerceList input item .null = .ok (.list []) := rfl

end EntityGraph
