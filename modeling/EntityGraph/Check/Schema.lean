import EntityGraph.Check.Field
import EntityGraph.Check.Type
import EntityGraph.Schema.Build
import EntityGraph.Schema.DeclJson

/-!
# Acceptance of schemas

All checks of a schema, in a fixed order: names of types, profiles, and then each declared type
followed by its fields. A schema is accepted if no error is found; warnings and notes stay with
it.

## Main definitions

* `Schema.findings`, `Schema.check` — what is found, and the report of it
* `AcceptedSchema` — a schema without errors, with its report
* `SchemaDecl.accept`, `acceptText` — from a declaration or its text to an accepted schema
-/

namespace EntityGraph

namespace Schema

/-- Where a declared type or one of its fields breaks a rule. -/
def declarationFindings (s : Schema) (t : TypeDef) : List Finding :=
  s.typeFindings t ++ t.declaredFields.flatMap (s.fieldFindings t)

/-- Everything that the checks find. -/
def findings (s : Schema) : List Finding :=
  s.typeNameFindings ++ s.profileFindings ++ s.declaredTypes.flatMap s.declarationFindings

/-- The report on a schema. -/
def check (s : Schema) : Report := s.findings.map (·.diagnostic)

end Schema

/-- A schema whose report has no errors. -/
structure AcceptedSchema where
  schema : Schema
  sound : schema.check.hasErrors = false

/-- The warnings and notes on an accepted schema. -/
def AcceptedSchema.report (a : AcceptedSchema) : Report := a.schema.check

/-- Why there is no accepted schema. -/
inductive Refusal where
  /-- The text is no declaration. -/
  | unreadable
  /-- The declaration cannot be built. -/
  | unbuildable (e : BuildError)
  /-- The report has errors. -/
  | rejected (report : Report)

/-- The refusal in words. -/
def Refusal.message : Refusal → String
  | .unreadable => "Model error: Malformed model configuration"
  | .unbuildable e => "Model error: " ++ e.message
  | .rejected report => s!"Model rejected with {report.errors.length} error(s)"

/-- The schema, if its report has no errors. -/
def Schema.accept (s : Schema) : Except Refusal AcceptedSchema :=
  if h : s.check.hasErrors = false then .ok ⟨s, h⟩ else .error (.rejected s.check)

/-- The accepted schema of a declaration. -/
def SchemaDecl.accept (decl : SchemaDecl) : Except Refusal AcceptedSchema :=
  match Schema.ofDecl decl with
  | .ok s => s.accept
  | .error e => .error (.unbuildable e)

/-- The accepted schema of the declaration that a document holds. -/
def acceptJson (document : Option Json) : Except Refusal AcceptedSchema :=
  match document.bind SchemaDecl.ofJson? with
  | some decl => decl.accept
  | none => .error .unreadable

/-- The accepted schema of the declaration that a text holds. -/
def acceptText (text : String) : Except Refusal AcceptedSchema := acceptJson (Json.read? text)

end EntityGraph
