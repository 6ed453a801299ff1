import EntityGraph.Location

/-!
# Diagnostics

What is said about a schema: a text with a severity and a place. A report lists diagnostics in the
order in which they were found.
-/

namespace EntityGraph

/-- How serious a diagnostic is. -/
inductive Severity where
  /-- A note. -/
  | info
  /-- Something that was probably not intended. -/
  | warning
  /-- A schema with such a diagnostic is rejected. -/
  | error
  deriving DecidableEq, Inhabited

namespace Severity

/-- The severity in one word. -/
def label : Severity → String
  | .info => "info"
  | .warning => "warn"
  | .error => "error"

/-- Severities from least to most serious. -/
def rank : Severity → Nat
  | .info => 0
  | .warning => 1
  | .error => 2

/-- The more serious of two severities. -/
def max (a b : Severity) : Severity := if a.rank < b.rank then b else a

@[simp] theorem rank_max (a b : Severity) : (a.max b).rank = Nat.max a.rank b.rank := by
  cases a <;> cases b <;> rfl

end Severity

/-- One thing that is said about a schema. -/
structure Diagnostic where
  severity : Severity
  message : String
  location : Location
  deriving DecidableEq, Inhabited

namespace Diagnostic

def isError (d : Diagnostic) : Bool := d.severity == .error

def isWarning (d : Diagnostic) : Bool := d.severity == .warning

/-- The diagnostic as one line of text. -/
def display (d : Diagnostic) : String :=
  s!"{d.severity.label}: {d.message} (at {d.location.display})"

end Diagnostic

/-- Diagnostics in the order in which they were found. -/
abbrev Report := List Diagnostic

namespace Report

/-- The report with one more diagnostic. -/
def add (r : Report) (severity : Severity) (message : String) (location : Location) : Report :=
  r ++ [⟨severity, message, location⟩]

def errors (r : Report) : List Diagnostic := r.filter (·.isError)

def warnings (r : Report) : List Diagnostic := r.filter (·.isWarning)

def hasErrors (r : Report) : Bool := r.any (·.isError)

/-- The diagnostics at exactly the given place. -/
def under (r : Report) (location : Location) : List Diagnostic := r.filter (·.location == location)

/-- The greatest severity of a diagnostic. -/
def worst? (r : Report) : Option Severity :=
  r.foldl (fun worst d => some (worst.elim d.severity (·.max d.severity))) none

/-- The report as text, one line for each diagnostic. -/
def display (r : Report) : String := String.join (r.map fun d => d.display ++ "\n")

theorem hasErrors_eq_false_iff (r : Report) : r.hasErrors = false ↔ r.errors = [] := by
  simp [hasErrors, errors, List.filter_eq_nil_iff]

end Report

end EntityGraph
