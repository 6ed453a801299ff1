/-!
# JSON documents

A document as its text gives it: members of an object keep their order and their repetitions, and
a number without fraction and exponent is kept apart from the others. What a repeated member or a
large number means is left to whoever decodes the document.

## The void leaf

A text can be well formed and still denote nothing: a number beyond the floats, an escape that
names half of a surrogate pair, containers nested too deeply. Such a part reads as `Json.void`.
Every decoder refuses it, so it matters only where a decoder does not look.
-/

namespace EntityGraph

/-- A JSON document. -/
inductive Json where
  | null
  | bool (b : Bool)
  /-- A number written as an integer, between `-2 ^ 63` and `2 ^ 64 - 1`. -/
  | int (n : Int)
  /-- Any other number. -/
  | float (x : Float)
  | string (s : String)
  | array (items : List Json)
  | object (members : List (String × Json))
  /-- A well-formed part without a meaning. -/
  | void
  deriving Inhabited

namespace Json

/-- The integers that a document keeps as integers. -/
def IntRange (n : Int) : Prop := Int64.minValue.toInt ≤ n ∧ n < UInt64.size

instance (n : Int) : Decidable (IntRange n) := inferInstanceAs (Decidable (_ ∧ _))

/-- How many containers may stand inside each other. -/
def nestingLimit : Nat := 127

/-- The values of all members with the given key, in order. -/
def valuesOf (key : String) (members : List (String × Json)) : List Json :=
  (members.filter (·.1 == key)).map (·.2)

/-- The first member with the given key. -/
def get? (key : String) : Json → Option Json
  | .object members => members.lookup key
  | _ => none

/-- An optional document, `null` standing for absence. -/
def ofOption (encode : α → Json) : Option α → Json
  | some a => encode a
  | none => .null

/-- A list of documents, each the encoding of one element. -/
def ofList (encode : α → Json) (as : List α) : Json :=
  .array (as.map encode)

end Json

end EntityGraph
