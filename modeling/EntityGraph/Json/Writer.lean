import EntityGraph.Json.Basic

/-!
# Writing JSON text

The compact text of a document: no blanks, members in their order, integers in decimal, and in
quotes only those characters escaped that cannot stand there. How a float is written is up to the
caller. A void part has no text of its own and is written as `null`.

## Main definitions

* `Json.hexText` — hexadecimal digits
* `Json.textChars` — text in quotes
* `Json.write` — a whole document
-/

namespace EntityGraph

namespace Json

/-! ### Numbers and text -/

/-- The last `width` hexadecimal digits of a number. -/
def hexText : Nat → Nat → List Char
  | 0, _ => []
  | width + 1, n => hexText width (n / 16) ++ [Nat.digitChar (n % 16)]

/-- An integer in decimal. -/
def intChars (n : Int) : List Char :=
  if n < 0 then '-' :: Nat.toDigits 10 n.natAbs else Nat.toDigits 10 n.natAbs

/-- A character as it stands in quotes. -/
def quotedChar (c : Char) : List Char :=
  if c = '"' then ['\\', '"']
  else if c = '\\' then ['\\', '\\']
  else if c = '\x08' then ['\\', 'b']
  else if c = '\t' then ['\\', 't']
  else if c = '\n' then ['\\', 'n']
  else if c = '\x0c' then ['\\', 'f']
  else if c = '\r' then ['\\', 'r']
  else if c.toNat < 0x20 then '\\' :: 'u' :: hexText 4 c.toNat
  else [c]

/-- Text in quotes. -/
def textChars (s : String) : List Char := '"' :: (s.toList.flatMap quotedChar ++ ['"'])

/-! ### Documents -/

mutual

/-- The text of a document, with floats as given. -/
def chars (number : Float → String) : Json → List Char
  | .null | .void => ['n', 'u', 'l', 'l']
  | .bool true => ['t', 'r', 'u', 'e']
  | .bool false => ['f', 'a', 'l', 's', 'e']
  | .int n => intChars n
  | .float x => (number x).toList
  | .string s => textChars s
  | .array items => '[' :: (itemChars number items ++ [']'])
  | .object members => '\x7b' :: (memberChars number members ++ ['\x7d'])

/-- The texts of items with commas between them. -/
def itemChars (number : Float → String) : List Json → List Char
  | [] => []
  | [j] => chars number j
  | j :: rest => chars number j ++ ',' :: itemChars number rest

/-- The texts of members with commas between them. -/
def memberChars (number : Float → String) : List (String × Json) → List Char
  | [] => []
  | [(key, j)] => textChars key ++ ':' :: chars number j
  | (key, j) :: rest => textChars key ++ ':' :: (chars number j ++ ',' :: memberChars number rest)

end

/-- The text of a document, with floats as given. -/
def write (number : Float → String) (j : Json) : String := String.ofList (chars number j)

end Json

end EntityGraph
