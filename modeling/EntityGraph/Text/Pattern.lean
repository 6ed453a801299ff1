/-!
# Patterns

Regular expressions, as far as the checks of texts need them: characters, classes of characters,
sequence, choice and repetition. A pattern is data. What it stands for is said apart from any
function that reads texts.

`Pattern.text` writes a pattern the way it is usually written. Brackets stand where the parts of a
pattern bind less tightly than what surrounds them.

## Main definitions

* `Pattern` — a regular expression
* `Pattern.anchored` — its text, for a match of a whole text
-/

namespace EntityGraph

/-- The characters from `first` to `last`. -/
structure CharRange where
  first : Char
  last : Char
deriving DecidableEq

namespace CharRange

/-- A single character. -/
def single (c : Char) : CharRange := ⟨c, c⟩

/-- Membership of a character in a range. -/
def Contains (r : CharRange) (c : Char) : Prop := r.first ≤ c ∧ c ≤ r.last

def text (r : CharRange) : String :=
  if r.first = r.last then r.first.toString else s!"{r.first}-{r.last}"

end CharRange

/-- A regular expression. -/
inductive Pattern where
  | char (c : Char)
  | digit
  /-- One character of a class. -/
  | oneOf (ranges : List CharRange)
  | seq (p q : Pattern)
  | either (p q : Pattern)
  /-- The pattern, or nothing. -/
  | optional (p : Pattern)
  /-- The pattern any number of times. -/
  | star (p : Pattern)
  /-- The pattern at least once. -/
  | plus (p : Pattern)
  /-- The pattern a given number of times. -/
  | times (p : Pattern) (count : Nat)

namespace Pattern

/-- How loosely a pattern binds: characters and classes, what is repeated, sequences, choices. -/
def level : Pattern → Nat
  | char _ | digit | oneOf _ => 0
  | optional _ | star _ | plus _ | times _ _ => 1
  | seq _ _ => 2
  | either _ _ => 3

/-- The text of a pattern where one of the given level may stand. -/
def bracket (most : Nat) (p : Pattern) (text : String) : String :=
  if p.level ≤ most then text else s!"({text})"

/-- The characters with a meaning of their own in patterns. -/
def special : List Char :=
  ['\\', '.', '+', '*', '?', '(', ')', '|', '[', ']', '\x7b', '\x7d', '^', '$']

/-- A pattern as it is usually written. -/
def text : Pattern → String
  | char c => if c ∈ special then s!"\\{c}" else c.toString
  | digit => "\\d"
  | oneOf ranges => "[" ++ String.join (ranges.map CharRange.text) ++ "]"
  | seq p q => p.bracket 2 p.text ++ q.bracket 2 q.text
  | either p q => p.text ++ "|" ++ q.text
  | optional p => p.bracket 0 p.text ++ "?"
  | star p => p.bracket 0 p.text ++ "*"
  | plus p => p.bracket 0 p.text ++ "+"
  | times p count => p.bracket 0 p.text ++ "\x7b" ++ toString count ++ "\x7d"

/-- The text of a pattern that has to match from the beginning to the end. -/
def anchored (p : Pattern) : String := "^" ++ p.text ++ "$"

end Pattern

end EntityGraph
