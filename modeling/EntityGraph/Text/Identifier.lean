import EntityGraph.Text.Pattern

/-!
# Identifiers

An identifier is a letter or underscore followed by letters, digits and underscores, all of them
ASCII. `identifierPattern` says so as a pattern, and `isIdentifier` is the function that decides it.
-/

namespace EntityGraph

/-- The pattern of identifiers. -/
def identifierPattern : Pattern :=
  .seq (.oneOf [.single '_', ⟨'a', 'z'⟩, ⟨'A', 'Z'⟩])
    (.star (.oneOf [.single '_', ⟨'a', 'z'⟩, ⟨'A', 'Z'⟩, ⟨'0', '9'⟩]))

example : identifierPattern.anchored = "^[_a-zA-Z][_a-zA-Z0-9]*$" := by decide

/-- The characters that may start an identifier. -/
def isIdentifierStart (c : Char) : Bool := c.isAlpha || c == '_'

/-- The characters that may continue an identifier. -/
def isIdentifierPart (c : Char) : Bool := c.isAlphanum || c == '_'

/-- Whether the characters form an identifier. -/
def isIdentifier : List Char → Bool
  | [] => false
  | c :: cs => isIdentifierStart c && cs.all isIdentifierPart

@[simp] theorem isIdentifier_cons (c : Char) (cs : List Char) :
    isIdentifier (c :: cs) = true ↔
      isIdentifierStart c = true ∧ ∀ d ∈ cs, isIdentifierPart d = true := by
  simp [isIdentifier]

end EntityGraph
