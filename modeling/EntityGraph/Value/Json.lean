import EntityGraph.Json.Basic
import EntityGraph.Value.Basic

/-!
# Values as documents

A document becomes a value by sorting its objects by key, where the last of several members with
one key counts, and by widening integers beyond 64 signed bits to floats. A value becomes a
document as it stands. Documents have finite numbers only: a float that is not finite is written
as `null`, and is not read.
-/

namespace EntityGraph

namespace Value

/-- A float as a value, if it is finite. -/
def ofFloat? (x : Float) : Option Value := if x.isFinite then some (.float x) else none

/-- An integer as a value: a 64-bit integer if it fits, else the nearest float. -/
def ofInt? (n : Int) : Option Value :=
  if Int64.minValue.toInt ≤ n ∧ n ≤ Int64.maxValue.toInt then some (.int (Int64.ofInt n))
  else ofFloat? (Float.ofInt n)

mutual

/-- The value a document denotes; a void part denotes none. -/
def ofJson? : Json → Option Value
  | .null => some .null
  | .bool b => some (.bool b)
  | .int n => ofInt? n
  | .float x => ofFloat? x
  | .string s => some (.string s)
  | .array items => (ofJsonItems? items).map .list
  | .object members => (ofJsonMembers? members).map fun pairs => .object (Entries.ofPairs pairs)
  | .void => none

/-- The values of the items of an array. -/
def ofJsonItems? : List Json → Option (List Value)
  | [] => some []
  | j :: rest => do return (← ofJson? j) :: (← ofJsonItems? rest)

/-- The values of the members of an object, repetitions kept. -/
def ofJsonMembers? : List (String × Json) → Option (List (String × Value))
  | [] => some []
  | (key, j) :: rest => do return (key, ← ofJson? j) :: (← ofJsonMembers? rest)

end

mutual

/-- The document of a value. -/
def toJson : Value → Json
  | .null => .null
  | .bool b => .bool b
  | .int n => .int n.toInt
  | .float x => if x.isFinite then .float x else .null
  | .string s => .string s
  | .list items => .array (toJsonItems items)
  | .object entries => .object (toJsonEntries entries)

/-- The documents of items, in order. -/
def toJsonItems : List Value → List Json
  | [] => []
  | v :: vs => toJson v :: toJsonItems vs

/-- The members of an object, in order. -/
def toJsonEntries : List (String × Value) → List (String × Json)
  | [] => []
  | (key, v) :: rest => (key, toJson v) :: toJsonEntries rest

end

end Value

end EntityGraph
