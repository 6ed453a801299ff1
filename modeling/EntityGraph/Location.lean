import EntityGraph.Json.Record

/-!
# Source locations

Where in a schema source something was declared. A location may lack its source, and a line of
zero means that the line is not known either.
-/

namespace EntityGraph

/-- A place in a schema source. -/
structure Location where
  source : Option String
  line : UInt64
  column : UInt64
  deriving DecidableEq, Inhabited

namespace Location

/-- The place of something that was not read from a source. -/
def unknown : Location := ⟨none, 0, 0⟩

/-- Whether neither source nor line is known. -/
def isUnknown (l : Location) : Bool := l.source.isNone && l.line == 0

/-- The text of a place. -/
def display (l : Location) : String :=
  match l.source with
  | some source => s!"{source}:{l.line}:{l.column}"
  | none => if 0 < l.line then s!"line {l.line}, column {l.column}" else "<unknown>"

/-- The document of a place. -/
def toJson (form : RecordForm) (l : Location) : Json :=
  form.record [
    ("source", Json.ofOption .string l.source),
    ("line", .int l.line.toNat),
    ("column", .int l.column.toNat)]

/-- The place a document declares; what it leaves out is unknown. -/
def ofJson? (j : Json) : Option Location := do
  let [source, line, column] ← j.record? ["source", "line", "column"] | none
  return {
    source := ← Json.optional? Json.string? source
    line := ← Json.default? 0 Json.word? line
    column := ← Json.default? 0 Json.word? column }

end Location

end EntityGraph
