/-!
# Document values

The raw data that flows through the library: declared defaults, literals of plans, and the input
objects handed to create and update shapes.

An object is a list of entries in increasing order of their keys. The order is kept by
`Entries.insert` and is not part of the type: `Value.Sorted` says that a value and all its parts
have it.

## Main definitions

* `Value`, `Entries` — values, and the entries of an object
* `Entries.insert`, `Entries.get?` — the only ways in and out of an object
* `Value.beq` — equality, with floats compared as numbers
* `Value.Sorted` — every object has its keys in strictly increasing order

## Main results

* `Value.induct` — induction on a value through its items and entries
* `Value.induct_object` — the same for input objects and the input objects inside them
-/

namespace EntityGraph

/-- A document value. -/
inductive Value where
  | null
  | bool (b : Bool)
  | int (n : Int64)
  | float (x : Float)
  | string (s : String)
  | list (items : List Value)
  | object (entries : List (String × Value))
  deriving Inhabited

/-- The entries of an object. -/
abbrev Entries := List (String × Value)

namespace Entries

/-- The value under a key. -/
def get? (entries : Entries) (key : String) : Option Value := entries.lookup key

/-- Whether the key has an entry. -/
def has (entries : Entries) (key : String) : Bool := (entries.get? key).isSome

/-- The keys in order. -/
def keys (entries : Entries) : List String := entries.map (·.1)

/-- Puts a value under a key, in place of the one that was there. -/
def insert : Entries → String → Value → Entries
  | [], key, value => [(key, value)]
  | (k, v) :: rest, key, value =>
    if key < k then (key, value) :: (k, v) :: rest
    else if key = k then (key, value) :: rest
    else (k, v) :: insert rest key value

/-- The entries of a list of pairs; of two pairs with one key the later counts. -/
def ofPairs (pairs : List (String × Value)) : Entries :=
  pairs.foldl (fun entries (key, value) => entries.insert key value) []

@[simp] theorem get?_nil (key : String) : get? [] key = none := rfl

theorem get?_cons (k : String) (v : Value) (rest : Entries) (key : String) :
    get? ((k, v) :: rest) key = if key == k then some v else rest.get? key := by
  simp only [get?, List.lookup_cons]
  split <;> simp_all

theorem mem_of_get? {entries : Entries} {key : String} {value : Value}
    (h : entries.get? key = some value) : (key, value) ∈ entries := by
  induction entries with
  | nil => cases h
  | cons entry rest ih =>
    obtain ⟨k, v⟩ := entry
    rw [get?_cons] at h
    split at h
    · simp_all
    · exact List.mem_cons_of_mem _ (ih h)

/-- The value just put under a key is the one found there. -/
@[simp] theorem get?_insert_self (entries : Entries) (key : String) (value : Value) :
    (entries.insert key value).get? key = some value := by
  induction entries with
  | nil => simp [insert, get?_cons]
  | cons entry rest ih =>
    obtain ⟨k, v⟩ := entry
    simp only [insert]
    split
    · simp [get?_cons]
    · split
      · simp [get?_cons]
      · next hne => simp [get?_cons, hne, ih]

/-- Putting a value under a key leaves the other keys as they are. -/
theorem get?_insert_of_ne {entries : Entries} {key other : String} (h : other ≠ key)
    (value : Value) : (entries.insert key value).get? other = entries.get? other := by
  induction entries with
  | nil => simp [insert, get?_cons, h]
  | cons entry rest ih =>
    obtain ⟨k, v⟩ := entry
    simp only [insert]
    split
    · simp [get?_cons, h]
    · split
      · next heq =>
        subst heq
        simp [get?_cons, h]
      · simp [get?_cons, ih]

end Entries

namespace Value

/-! ### Shapes -/

/-- The name of the shape of a value. -/
def typeName : Value → String
  | .null => "Null"
  | .bool _ => "Bool"
  | .int _ => "Int"
  | .float _ => "Float"
  | .string _ => "String"
  | .list _ => "List"
  | .object _ => "Object"

def isNull : Value → Bool
  | .null => true
  | _ => false

def isBool : Value → Bool
  | .bool _ => true
  | _ => false

def isInt : Value → Bool
  | .int _ => true
  | _ => false

/-- Integers and floats are numbers. -/
def isNumber : Value → Bool
  | .int _ | .float _ => true
  | _ => false

def isString : Value → Bool
  | .string _ => true
  | _ => false

def isList : Value → Bool
  | .list _ => true
  | _ => false

def isObject : Value → Bool
  | .object _ => true
  | _ => false

@[simp] theorem isNull_eq_true {v : Value} : v.isNull = true ↔ v = .null := by
  cases v <;> simp [isNull]

/-! ### Parts -/

def bool? : Value → Option Bool
  | .bool b => some b
  | _ => none

def int? : Value → Option Int64
  | .int n => some n
  | _ => none

def string? : Value → Option String
  | .string s => some s
  | _ => none

def list? : Value → Option (List Value)
  | .list items => some items
  | _ => none

def object? : Value → Option Entries
  | .object entries => some entries
  | _ => none

/-- The items of a list; a value that is no list has none. -/
def items : Value → List Value
  | .list items => items
  | _ => []

/-- The entries of an object; a value that is no object has none. -/
def entries : Value → Entries
  | .object entries => entries
  | _ => []

/-- The value of a property. -/
def get? (v : Value) (key : String) : Option Value := v.entries.get? key

@[simp] theorem items_list (vs : List Value) : (list vs).items = vs := rfl

@[simp] theorem entries_object (es : Entries) : (object es).entries = es := rfl

/-! ### Equality -/

mutual

/-- Equality of values. An integer never equals a float, and floats compare as numbers. -/
def beq : Value → Value → Bool
  | .null, .null => true
  | .bool a, .bool b => a == b
  | .int a, .int b => a == b
  | .float a, .float b => a == b
  | .string a, .string b => a == b
  | .list as, .list bs => beqItems as bs
  | .object as, .object bs => beqEntries as bs
  | _, _ => false

/-- Equality of lists of values, item by item. -/
def beqItems : List Value → List Value → Bool
  | [], [] => true
  | a :: as, b :: bs => beq a b && beqItems as bs
  | _, _ => false

/-- Equality of entries, key by key. -/
def beqEntries : List (String × Value) → List (String × Value) → Bool
  | [], [] => true
  | (k, a) :: as, (l, b) :: bs => k == l && beq a b && beqEntries as bs
  | _, _ => false

end

instance : BEq Value := ⟨beq⟩

/-! ### Order of keys and induction -/

mutual

/-- Every object in the value has its keys in strictly increasing order. -/
def Sorted : Value → Prop
  | .list items => SortedItems items
  | .object entries => entries.Pairwise (·.1 < ·.1) ∧ SortedEntries entries
  | _ => True

/-- Every item is sorted. -/
def SortedItems : List Value → Prop
  | [] => True
  | v :: vs => v.Sorted ∧ SortedItems vs

/-- Every entry holds a sorted value. -/
def SortedEntries : List (String × Value) → Prop
  | [] => True
  | (_, v) :: rest => v.Sorted ∧ SortedEntries rest

end

/-- Induction on a value: a property of all items passes to the list, and of all entries to the
object. -/
theorem induct {P : Value → Prop}
    (null : P .null) (bool : ∀ b, P (.bool b)) (int : ∀ n, P (.int n)) (float : ∀ x, P (.float x))
    (string : ∀ s, P (.string s))
    (list : ∀ items : List Value, (∀ v ∈ items, P v) → P (.list items))
    (object : ∀ entries : List (String × Value), (∀ e ∈ entries, P e.2) → P (.object entries)) :
    ∀ v, P v := by
  intro v
  refine @Value.rec P (fun vs => ∀ v ∈ vs, P v) (fun es => ∀ e ∈ es, P e.2) (fun e => P e.2)
    null bool int float string list object ?_ ?_ ?_ ?_ ?_ v
  · intro v h
    simp at h
  · intro v vs hv hvs w hw
    rcases List.mem_cons.1 hw with rfl | hw
    · exact hv
    · exact hvs w hw
  · intro e h
    simp at h
  · intro e es he hes f hf
    rcases List.mem_cons.1 hf with rfl | hf
    · exact he
    · exact hes f hf
  · intro _ v hv
    exact hv

/-- Induction on input objects: a property passes to an object from its entries and from the items
of its entries, which are the places where input objects stand in it. -/
theorem induct_object {P : Value → Prop} (plain : ∀ v : Value, v.isObject = false → P v)
    (object : ∀ entries : Entries, (∀ e ∈ entries, P e.2 ∧ ∀ w ∈ e.2.items, P w) →
      P (.object entries)) (v : Value) : P v := by
  -- The induction carries the items along, since they are two steps below the object.
  suffices h : P v ∧ ∀ w ∈ v.items, P w from h.1
  induction v using Value.induct with
  | null | bool | int | float | string => exact ⟨plain _ rfl, by simp [items]⟩
  | list vs ih => exact ⟨plain _ rfl, fun w hw => (ih w hw).1⟩
  | object entries ih => exact ⟨object entries ih, by simp [items]⟩

end Value

end EntityGraph
