import EntityGraph.Json.Basic

/-!
# Reading JSON text

A strict reader: one document, blanks around it, nothing else. Blanks are space, tab, line feed
and carriage return; literals have no leading zeros; text in quotes has no bare control
characters.

A number that is no integer is read as the float nearest to it. A reader that works it out in
floating point, from the digits and a power of ten, gets a neighbour of that float for some long
literals or large exponents, as for `51.248178375505404`. What is said of texts with such literals
is said of the exact reading.

## Bounds

No document needs more than two steps for each of its characters, so a count that starts above
that never runs out. `Json.read?` computes it; no caller sees it.

## Main definitions

* `Json.readNumber` — a number literal
* `Json.readText` — text in quotes, with its escapes
* `Json.read?` — a whole document
-/

namespace EntityGraph

namespace Json

/-- The characters that may stand between tokens. -/
def isBlank (c : Char) : Bool := c == ' ' || c == '\t' || c == '\n' || c == '\r'

/-- The text without its leading blanks. -/
def skipBlanks (cs : List Char) : List Char := cs.dropWhile isBlank

/-- The text after the given word, if it starts with it. -/
def afterWord? : List Char → List Char → Option (List Char)
  | [], cs => some cs
  | w :: ws, c :: cs => if w = c then afterWord? ws cs else none
  | _ :: _, [] => none

/-! ### Numbers -/

/-- The leading decimal digits and what follows them. -/
def takeDigits (cs : List Char) : List Char × List Char :=
  (cs.takeWhile Char.isDigit, cs.dropWhile Char.isDigit)

/-- The number that decimal digits stand for. -/
def ofDigits (ds : List Char) : Nat :=
  ds.foldl (fun n d => 10 * n + (d.toNat - '0'.toNat)) 0

/-- The digits before the point: a lone zero, or digits that do not start with one. -/
def readWhole (cs : List Char) : Option (List Char × List Char) :=
  match takeDigits cs with
  | ([], _) => none
  | ('0' :: _ :: _, _) => none
  | (ds, rest) => some (ds, rest)

/-- The digits after the point; none if there is no point. -/
def readFraction : List Char → Option (Option (List Char) × List Char)
  | '.' :: cs =>
    match takeDigits cs with
    | ([], _) => none
    | (ds, rest) => some (some ds, rest)
  | cs => some (none, cs)

/-- Whether a minus stands in front, and what follows the sign. -/
def readSign : List Char → Bool × List Char
  | '-' :: cs => (true, cs)
  | '+' :: cs => (false, cs)
  | cs => (false, cs)

/-- The exponent with its sign; none if it is not written. -/
def readExponent : List Char → Option (Option Int × List Char)
  | [] => some (none, [])
  | c :: cs =>
    if c = 'e' ∨ c = 'E' then
      let (negative, cs) := readSign cs
      match takeDigits cs with
      | ([], _) => none
      | (ds, rest) => some (some (if negative then -(ofDigits ds : Int) else ofDigits ds), rest)
    else
      some (none, c :: cs)

/-- The float nearest to `± digits * 10 ^ exponent`, void if that is beyond the floats. -/
def ofDecimal (negative : Bool) (digits : Nat) (exponent : Int) : Json :=
  let x := Float.ofScientific digits (exponent < 0) exponent.natAbs
  if x.isInf then .void else .float (if negative then -x else x)

/-- The number of a literal. A literal without fraction and exponent is an integer if it is in
range; a negative zero is a float, since no integer has a sign of its own. -/
def ofLiteral (negative : Bool) (whole : List Char) (fraction : Option (List Char))
    (exponent : Option Int) : Json :=
  let n := ofDigits whole
  let signed : Int := if negative then -n else n
  if fraction.isNone ∧ exponent.isNone ∧ IntRange signed ∧ ¬(negative = true ∧ n = 0) then
    .int signed
  else
    let decimals := fraction.getD []
    ofDecimal negative (ofDigits (whole ++ decimals)) (exponent.getD 0 - decimals.length)

/-- A number literal without its sign. -/
def readNumber (negative : Bool) (cs : List Char) : Option (Json × List Char) := do
  let (whole, cs) ← readWhole cs
  let (fraction, cs) ← readFraction cs
  let (exponent, cs) ← readExponent cs
  return (ofLiteral negative whole fraction exponent, cs)

/-! ### Text in quotes -/

/-- The value of a hexadecimal digit. -/
def hexDigit? (c : Char) : Option Nat :=
  if '0' ≤ c ∧ c ≤ '9' then some (c.toNat - '0'.toNat)
  else if 'a' ≤ c ∧ c ≤ 'f' then some (c.toNat - 'a'.toNat + 10)
  else if 'A' ≤ c ∧ c ≤ 'F' then some (c.toNat - 'A'.toNat + 10)
  else none

/-- Four hexadecimal digits. -/
def readHex4 : List Char → Option (Nat × List Char)
  | a :: b :: c :: d :: rest => do
    let a ← hexDigit? a
    let b ← hexDigit? b
    let c ← hexDigit? c
    let d ← hexDigit? d
    return (4096 * a + 256 * b + 16 * c + d, rest)
  | _ => none

/-- What one element of quoted text contributes: a character, or one half of a surrogate pair. -/
inductive TextUnit where
  | char (c : Char)
  | high (n : Nat)
  | low (n : Nat)

/-- The unit with the given number. -/
def TextUnit.ofNat (n : Nat) : TextUnit :=
  if 0xd800 ≤ n ∧ n < 0xdc00 then .high (n - 0xd800)
  else if 0xdc00 ≤ n ∧ n < 0xe000 then .low (n - 0xdc00)
  else .char (Char.ofNat n)

/-- The text that units spell: a high half and a low half make one character, and a half on its
own makes none. -/
def spell : List TextUnit → Option (List Char)
  | [] => some []
  | .char c :: rest => (spell rest).map (c :: ·)
  | .high h :: .low l :: rest => (spell rest).map (Char.ofNat (0x10000 + 0x400 * h + l) :: ·)
  | _ => none

/-- The character a one-letter escape stands for. -/
def escape? : Char → Option Char
  | '"' => some '"'
  | '\\' => some '\\'
  | '/' => some '/'
  | 'b' => some '\x08'
  | 'f' => some '\x0c'
  | 'n' => some '\n'
  | 'r' => some '\r'
  | 't' => some '\t'
  | _ => none

/-- The units up to the closing quote, latest first in `seen`. -/
def readUnits : Nat → List TextUnit → List Char → Option (List TextUnit × List Char)
  | 0, _, _ => none
  | _ + 1, seen, '"' :: cs => some (seen.reverse, cs)
  | steps + 1, seen, '\\' :: 'u' :: cs => do
    let (n, cs) ← readHex4 cs
    readUnits steps (.ofNat n :: seen) cs
  | steps + 1, seen, '\\' :: c :: cs => do
    let c ← escape? c
    readUnits steps (.char c :: seen) cs
  | steps + 1, seen, c :: cs =>
    if c = '\\' ∨ c.toNat < 0x20 then none else readUnits steps (.char c :: seen) cs
  | _ + 1, _, [] => none

/-- Text after its opening quote. The text is none if its escapes spell no characters. -/
def readText (steps : Nat) (cs : List Char) : Option (Option String × List Char) := do
  let (units, rest) ← readUnits steps [] cs
  return ((spell units).map String.ofList, rest)

/-! ### Documents -/

/-- The members of an object, void if one of the keys is. -/
def ofMembers (members : List (Option String × Json)) : Json :=
  match members.mapM fun (key, value) => key.map fun key => (key, value) with
  | some members => .object members
  | none => .void

mutual

/-- One document at the given depth, and the text after it. -/
def readDocument : Nat → Nat → List Char → Option (Json × List Char)
  | 0, _, _ => none
  | steps + 1, depth, cs =>
    match skipBlanks cs with
    | '"' :: cs => do
      let (text, cs) ← readText steps cs
      return (text.elim .void .string, cs)
    | '[' :: cs => do
      let (items, cs) ←
        match skipBlanks cs with
        | ']' :: cs => some ([], cs)
        | cs => readItems steps (depth + 1) [] cs
      return (if depth < nestingLimit then .array items else .void, cs)
    | '\x7b' :: cs => do
      let (members, cs) ←
        match skipBlanks cs with
        | '\x7d' :: cs => some ([], cs)
        | cs => readMembers steps (depth + 1) [] cs
      return (if depth < nestingLimit then ofMembers members else .void, cs)
    | '-' :: cs => readNumber true cs
    | 'n' :: cs => (afterWord? ['u', 'l', 'l'] cs).map (.null, ·)
    | 't' :: cs => (afterWord? ['r', 'u', 'e'] cs).map (.bool true, ·)
    | 'f' :: cs => (afterWord? ['a', 'l', 's', 'e'] cs).map (.bool false, ·)
    | cs => readNumber false cs

/-- The items up to the closing bracket, latest first in `seen`. -/
def readItems : Nat → Nat → List Json → List Char → Option (List Json × List Char)
  | 0, _, _, _ => none
  | steps + 1, depth, seen, cs => do
    let (item, cs) ← readDocument steps depth cs
    match skipBlanks cs with
    | ',' :: cs => readItems steps depth (item :: seen) cs
    | ']' :: cs => return ((item :: seen).reverse, cs)
    | _ => none

/-- The members up to the closing brace, latest first in `seen`. -/
def readMembers : Nat → Nat → List (Option String × Json) → List Char →
    Option (List (Option String × Json) × List Char)
  | 0, _, _, _ => none
  | steps + 1, depth, seen, cs =>
    match skipBlanks cs with
    | '"' :: cs => do
      let (key, cs) ← readText steps cs
      let cs ← afterWord? [':'] (skipBlanks cs)
      let (value, cs) ← readDocument steps depth cs
      match skipBlanks cs with
      | ',' :: cs => readMembers steps depth ((key, value) :: seen) cs
      | '\x7d' :: cs => return (((key, value) :: seen).reverse, cs)
      | _ => none
    | _ => none

end

/-- The document a text holds, if the text is exactly one document. -/
def read? (text : String) : Option Json := do
  let cs := text.toList
  let (document, rest) ← readDocument (2 * cs.length + 2) 0 cs
  if (skipBlanks rest).isEmpty then return document else none

end Json

end EntityGraph
