import EntityGraph.Check.Schema
import EntityGraph.Input.Mutation
import EntityGraph.Json.FloatBits
import EntityGraph.Json.Reader
import EntityGraph.Json.Writer
import EntityGraph.Plan.Json
import EntityGraph.Plan.Read
import EntityGraph.Schema.Arena
import EntityGraph.Schema.Build
import EntityGraph.Schema.Calls
import EntityGraph.Schema.DeclJson
import EntityGraph.Value.Display
import EntityGraph.Proofs.Numbering
import EntityGraph.Proofs.Rules
import EntityGraph.Proofs.Sides
import EntityGraph.Proofs.Pairing
import EntityGraph.Proofs.SeparateRelations
import EntityGraph.Proofs.Nodes
import EntityGraph.Proofs.Reading
import EntityGraph.Proofs.Offers
import EntityGraph.Proofs.Faultless
import EntityGraph.Proofs.Footprint
import EntityGraph.Proofs.Steps
import EntityGraph.Proofs.Validity
import EntityGraph.Proofs.Governance
import EntityGraph.Proofs.Typing
import EntityGraph.Proofs.Binding
import EntityGraph.Proofs.Hygiene
import EntityGraph.Proofs.InputNames
import EntityGraph.Proofs.Settled
import EntityGraph.Proofs.Writers
import EntityGraph.Proofs.Hazards
import EntityGraph.Proofs.FieldValues
import EntityGraph.Proofs.OrderIndependence
import EntityGraph.Proofs.Arena
import EntityGraph.Proofs.Growth
import EntityGraph.Proofs.ValueDocuments
import EntityGraph.Proofs.MemberOrder
import EntityGraph.Proofs.JsonTokens
import EntityGraph.Proofs.TaggedFloats
import EntityGraph.Proofs.PlanDocuments
import EntityGraph.Proofs.DeclarationDocuments
import EntityGraph.Proofs.JsonText
import EntityGraph.Proofs.UpdateShapes
import EntityGraph.Proofs.NormalForms
import EntityGraph.Proofs.Defaults
import EntityGraph.Proofs.Renaming
import EntityGraph.Proofs.ChildUpdates
import EntityGraph.Proofs.Failures
import EntityGraph.Proofs.Calculations
import EntityGraph.Proofs.StoreReads
import EntityGraph.Proofs.Descriptions
import EntityGraph.Proofs.DateGrammar
