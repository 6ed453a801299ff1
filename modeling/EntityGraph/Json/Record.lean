import EntityGraph.Json.Basic

/-!
# Records in documents

A record is written in one of two forms: keyed, as an object, or positional, as the array of its
parts in the order of declaration. `Json.record?` reads both into the same list of parts, one for
each key, so that a decoder says only what each part has to be.

* In the keyed form a key of the record may occur once, and other keys are not looked at.
* In the positional form parts may be missing at the end, and there may not be more of them than
  keys.
-/

namespace EntityGraph

/-- How the records of a document are written. -/
inductive RecordForm where
  | keyed
  | positional
  deriving DecidableEq

/-- A record with the given keys and parts. -/
def RecordForm.record (form : RecordForm) (parts : List (String × Json)) : Json :=
  match form with
  | .keyed => .object parts
  | .positional => .array (parts.map (·.2))

namespace Json

/-! ### Reading a record -/

/-- The part under a key: none if the key is missing, and no reading at all if it is repeated. -/
def part? (members : List (String × Json)) (key : String) : Option (Option Json) :=
  match valuesOf key members with
  | [] => some none
  | [j] => some (some j)
  | _ => none

/-- The parts of a record, one for each key. -/
def record? (keys : List String) : Json → Option (List (Option Json))
  | .object members => keys.mapM (part? members)
  | .array items =>
    if items.length ≤ keys.length then
      some (items.map some ++ List.replicate (keys.length - items.length) none)
    else
      none
  | _ => none

/-! ### Reading a part -/

/-- A part that has to be there. -/
def required? (decode : Json → Option α) : Option Json → Option α
  | some j => decode j
  | none => none

/-- A part with a value of its own when it is missing. -/
def default? (missing : α) (decode : Json → Option α) : Option Json → Option α
  | some j => decode j
  | none => some missing

/-- A part that may be missing or `null`. -/
def optional? (decode : Json → Option α) : Option Json → Option (Option α)
  | some .null => some none
  | some j => (decode j).map some
  | none => some none

/-! ### Single documents -/

def string? : Json → Option String
  | .string s => some s
  | _ => none

def bool? : Json → Option Bool
  | .bool b => some b
  | _ => none

/-- An unsigned integer of 64 bits. -/
def word? : Json → Option UInt64
  | .int n => if 0 ≤ n ∧ n < UInt64.size then some (UInt64.ofNat n.toNat) else none
  | _ => none

/-- A list whose items are all decoded alike. -/
def list? (decode : Json → Option α) : Json → Option (List α)
  | .array items => items.mapM decode
  | _ => none

/-- One of several names, written as text or as an object that maps the name to `null`. -/
def name? (names : List (String × α)) : Json → Option α
  | .string s => names.lookup s
  | .object [(s, .null)] => names.lookup s
  | _ => none

end Json

end EntityGraph
