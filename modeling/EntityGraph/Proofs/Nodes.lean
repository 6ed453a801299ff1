import EntityGraph.Plan.Basic
import Mathlib.Data.List.Basic

/-!
# Steps of plans

`Plan.nodes` lists a plan and everything in it through four functions that call each other. Here a
plan gets the list of its direct parts, and the steps of a plan are the plan itself and the steps of
its parts. A statement about all steps of a plan follows that equation and not the four functions.

A plan is read-only if none of its steps writes. The lemmas on `ReadOnly` are tagged for `simp` and
reduce the property of a plan to that of its parts.

## Main definitions

* `Plan.parts` — the plans directly inside a plan
* `Plan.ReadOnly` — nothing in a plan writes

## Main results

* `Plan.nodes_eq`, `Plan.forall_nodes_iff` — the steps of a plan from those of its parts
* `Plan.induct_parts` — induction on a plan through its parts
* `Plan.readOnly_iff` — a plan is read-only if it does not write itself and its parts are
-/

namespace EntityGraph

namespace Plan

/-! ### Parts -/

/-- The plans directly inside a plan. -/
def parts : Plan → List Plan
  | .entities _ | .literal _ | .var _ | .generateId => []
  | .field source _ _ | .entityId source | .followEdge _ source | .firstOfList source => [source]
  | .conditional condition yes no => [condition, yes, no]
  | .typeCheck value _ | .setField _ _ value => [value]
  | .transformList source _ filter _ inner => source :: (filter.toList ++ inner.toList)
  | .binary _ lhs rhs => [lhs, rhs]
  | .unary _ operand => [operand]
  | .object properties => properties.map (·.2)
  | .list items => items
  | .addEdges _ source targets | .removeEdges _ source targets => [source, targets]
  | .setEdge _ source target => source :: target.toList
  | .createObject _ _ changes => changes
  | .updateObject target _ changes => target :: changes
  | .deleteObject _ target => [target]

theorem insideItems_eq (ps : List Plan) : insideItems ps = ps.flatMap nodes := by
  induction ps with
  | nil => rfl
  | cons p ps ih => rw [insideItems, ih, List.flatMap_cons]; rfl

theorem insideOption_eq (o : Option Plan) : insideOption o = o.toList.flatMap nodes := by
  cases o with
  | none => rfl
  | some p => rw [insideOption, Option.toList_some, List.flatMap_singleton]; rfl

theorem insideProperties_eq (properties : List (String × Plan)) :
    insideProperties properties = (properties.map (·.2)).flatMap nodes := by
  induction properties with
  | nil => rfl
  | cons property rest ih =>
    obtain ⟨name, p⟩ := property
    rw [insideProperties, ih, List.map_cons, List.flatMap_cons]
    rfl

theorem inside_eq (p : Plan) : p.inside = p.parts.flatMap nodes := by
  cases p <;>
    simp [inside, parts, nodes, insideItems_eq, insideOption_eq, insideProperties_eq]

/-- The steps of a plan are the plan itself and the steps of its parts. -/
theorem nodes_eq (p : Plan) : p.nodes = p :: p.parts.flatMap nodes := by
  rw [nodes, inside_eq]

/-- A property of all steps of a plan, from that of the plan itself and of the steps of its parts.
-/
theorem forall_nodes_iff {P : Plan → Prop} {p : Plan} :
    (∀ q ∈ p.nodes, P q) ↔ P p ∧ ∀ q ∈ p.parts, ∀ r ∈ q.nodes, P r := by
  rw [nodes_eq, List.forall_mem_cons]
  refine and_congr_right fun _ => ⟨fun h q hq r hr => ?_, fun h r hr => ?_⟩
  · exact h r (List.mem_flatMap.2 ⟨q, hq, hr⟩)
  · obtain ⟨q, hq, hr⟩ := List.mem_flatMap.1 hr
    exact h q hq r hr

theorem size_lt_of_mem_parts {p q : Plan} (h : q ∈ p.parts) : q.size < p.size := by
  obtain ⟨before, after, hparts⟩ := List.append_of_mem h
  rw [size, size, nodes_eq p, hparts, List.flatMap_append, List.flatMap_cons]
  simp only [List.length_cons, List.length_append]
  omega

/-- Induction on plans: a property passes to a plan from its parts. -/
theorem induct_parts {P : Plan → Prop} (step : ∀ p, (∀ q ∈ p.parts, P q) → P p) (p : Plan) : P p :=
  step p fun q _ => induct_parts step q
termination_by p.size
decreasing_by exact size_lt_of_mem_parts ‹_›

/-! ### Plans that only read -/

/-- Nothing in the plan writes. -/
def ReadOnly (p : Plan) : Prop := ∀ q ∈ p.nodes, q.isWrite = false

/-- A plan is read-only if its outermost step does not write and its parts are read-only. -/
theorem readOnly_iff {p : Plan} :
    p.ReadOnly ↔ p.isWrite = false ∧ ∀ q ∈ p.parts, q.ReadOnly := forall_nodes_iff

/-- The property of a plan that does not write itself, from that of the given parts. -/
theorem readOnly_iff_parts {p : Plan} (ps : List Plan) (hparts : p.parts = ps)
    (hwrite : p.isWrite = false) : p.ReadOnly ↔ ∀ q ∈ ps, q.ReadOnly := by
  rw [readOnly_iff, hparts, hwrite]
  exact and_iff_right rfl

@[simp] theorem readOnly_entities (type : TypeId) : (entities type).ReadOnly := by
  refine (readOnly_iff_parts [] rfl rfl).2 ?_
  simp

@[simp] theorem readOnly_literal (v : Value) : (literal v).ReadOnly := by
  refine (readOnly_iff_parts [] rfl rfl).2 ?_
  simp

@[simp] theorem readOnly_null : null.ReadOnly := readOnly_literal .null

@[simp] theorem readOnly_var (v : Variable) : (var v).ReadOnly := by
  refine (readOnly_iff_parts [] rfl rfl).2 ?_
  simp

@[simp] theorem readOnly_field {source : Plan} {f : FieldId} {name : String} :
    (field source f name).ReadOnly ↔ source.ReadOnly := by
  refine (readOnly_iff_parts [source] rfl rfl).trans ?_
  simp

@[simp] theorem readOnly_entityId {source : Plan} :
    (entityId source).ReadOnly ↔ source.ReadOnly := by
  refine (readOnly_iff_parts [source] rfl rfl).trans ?_
  simp

@[simp] theorem readOnly_followEdge {side : RelationSide} {source : Plan} :
    (followEdge side source).ReadOnly ↔ source.ReadOnly := by
  refine (readOnly_iff_parts [source] rfl rfl).trans ?_
  simp

@[simp] theorem readOnly_firstOfList {source : Plan} :
    (firstOfList source).ReadOnly ↔ source.ReadOnly := by
  refine (readOnly_iff_parts [source] rfl rfl).trans ?_
  simp

@[simp] theorem readOnly_typeCheck {value : Plan} {shape : ValueShape} :
    (typeCheck value shape).ReadOnly ↔ value.ReadOnly := by
  refine (readOnly_iff_parts [value] rfl rfl).trans ?_
  simp

@[simp] theorem readOnly_conditional {condition yes no : Plan} :
    (conditional condition yes no).ReadOnly ↔
      condition.ReadOnly ∧ yes.ReadOnly ∧ no.ReadOnly := by
  refine (readOnly_iff_parts [condition, yes, no] rfl rfl).trans ?_
  simp

@[simp] theorem readOnly_binary {op : BinaryOperator} {lhs rhs : Plan} :
    (binary op lhs rhs).ReadOnly ↔ lhs.ReadOnly ∧ rhs.ReadOnly := by
  refine (readOnly_iff_parts [lhs, rhs] rfl rfl).trans ?_
  simp

@[simp] theorem readOnly_unary {op : UnaryOperator} {operand : Plan} :
    (unary op operand).ReadOnly ↔ operand.ReadOnly := by
  refine (readOnly_iff_parts [operand] rfl rfl).trans ?_
  simp

@[simp] theorem readOnly_object {properties : List (String × Plan)} :
    (object properties).ReadOnly ↔ ∀ p ∈ properties.map (·.2), p.ReadOnly := by
  exact readOnly_iff_parts _ rfl rfl

@[simp] theorem readOnly_list {items : List Plan} :
    (list items).ReadOnly ↔ ∀ p ∈ items, p.ReadOnly := by
  exact readOnly_iff_parts _ rfl rfl

@[simp] theorem readOnly_transformList {source : Plan} {item : Variable}
    {filter inner : Option Plan} {maxCount : Option Nat} :
    (transformList source item filter maxCount inner).ReadOnly ↔
      source.ReadOnly ∧ (∀ p ∈ filter, p.ReadOnly) ∧ ∀ p ∈ inner, p.ReadOnly := by
  refine (readOnly_iff_parts (source :: (filter.toList ++ inner.toList)) rfl rfl).trans ?_
  simp [or_imp, forall_and]

end Plan

end EntityGraph
