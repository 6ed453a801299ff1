import EntityGraph.Json.Reader
import EntityGraph.Json.Writer

/-!
# Floats by their bits

The decimal text of a float depends on who writes it. A document can instead give each float by its
64 bits, as an object with a key of its own over sixteen hexadecimal digits. Such an object stands
for a float only: a document that uses the key for something else cannot be told apart.

## Main definitions

* `Json.withFloatBits` — every float by its bits
* `Json.withFloats` — and back
-/

namespace EntityGraph

namespace Json

/-- The key under which the bits of a float stand. -/
def floatKey : String := "$f64"

/-- A float by its bits. -/
def ofFloatBits (x : Float) : Json :=
  .object [(floatKey, .string (String.ofList (hexText 16 x.toBits.toNat)))]

/-- The number that hexadecimal digits stand for. -/
def ofHex? (cs : List Char) : Option Nat :=
  cs.foldlM (fun n c => (hexDigit? c).map (16 * n + ·)) 0

/-- The float whose bits are given. -/
def floatOfBits? : List (String × Json) → Option Float
  | [(key, .string s)] =>
    if key = floatKey then (ofHex? s.toList).map fun n => Float.ofBits (UInt64.ofNat n) else none
  | _ => none

mutual

/-- The document with every float given by its bits. -/
def withFloatBits : Json → Json
  | .float x => ofFloatBits x
  | .array items => .array (itemsWithFloatBits items)
  | .object members => .object (membersWithFloatBits members)
  | j => j

/-- The items with every float given by its bits. -/
def itemsWithFloatBits : List Json → List Json
  | [] => []
  | j :: rest => withFloatBits j :: itemsWithFloatBits rest

/-- The members with every float given by its bits. -/
def membersWithFloatBits : List (String × Json) → List (String × Json)
  | [] => []
  | (key, j) :: rest => (key, withFloatBits j) :: membersWithFloatBits rest

end

mutual

/-- The document with floats for those that are given by their bits. -/
def withFloats : Json → Json
  | .array items => .array (itemsWithFloats items)
  | .object members =>
    match floatOfBits? members with
    | some x => .float x
    | none => .object (membersWithFloats members)
  | j => j

/-- The items with floats for those that are given by their bits. -/
def itemsWithFloats : List Json → List Json
  | [] => []
  | j :: rest => withFloats j :: itemsWithFloats rest

/-- The members with floats for those that are given by their bits. -/
def membersWithFloats : List (String × Json) → List (String × Json)
  | [] => []
  | (key, j) :: rest => (key, withFloats j) :: membersWithFloats rest

end

end Json

end EntityGraph
