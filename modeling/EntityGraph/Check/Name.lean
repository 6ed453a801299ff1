import EntityGraph.Check.Issue
import EntityGraph.Text.Identifier

/-!
# Checks of names

A name has to be an identifier that does not start with an underscore. Underscores elsewhere,
types in lower case and fields in upper case are remarked upon. Only the first error of a name is
reported, and style only if there is none.
-/

namespace EntityGraph

/-- Whether a name starts in the case that is usual for what it names. -/
def Named.isUsualStart : Named → Char → Bool
  | .type, c => c.isUpper
  | .field, c => c.isLower

/-- The issues of a name. -/
def nameIssues (what : Named) (name : String) : List Issue :=
  match name.toList with
  | [] => [.emptyName what]
  | c :: cs =>
    if c = '_' then [.leadingUnderscore what]
    else if ¬isIdentifier (c :: cs) then [.invalidIdentifier what name]
    else
      (if '_' ∈ cs then [.innerUnderscore what] else []) ++
        (if what.isUsualStart c then [] else [.unusualCase what])

end EntityGraph
