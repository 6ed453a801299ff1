import EntityGraph.Decimal.Shortest
import EntityGraph.Value.Basic

/-!
# The text of a value

How a value is shown to people: text in quotes without any escapes, lists in brackets, objects in
braces with bare keys. The text is not JSON and is never read back.
-/

namespace EntityGraph

namespace Value

mutual

/-- The text of a value. -/
def display : Value → String
  | .null => "null"
  | .bool b => if b then "true" else "false"
  | .int n => toString n.toInt
  | .float x => plainText x
  | .string s => "\"" ++ s ++ "\""
  | .list items => "[" ++ ", ".intercalate (displayItems items) ++ "]"
  | .object entries => "\x7b" ++ ", ".intercalate (displayEntries entries) ++ "\x7d"

/-- The texts of items, in order. -/
def displayItems : List Value → List String
  | [] => []
  | v :: vs => display v :: displayItems vs

/-- The texts of entries, in order. -/
def displayEntries : List (String × Value) → List String
  | [] => []
  | (key, v) :: rest => (key ++ ": " ++ display v) :: displayEntries rest

end

end Value

end EntityGraph
