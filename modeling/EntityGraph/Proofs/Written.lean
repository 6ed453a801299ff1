import EntityGraph.Input.Changes
import EntityGraph.Proofs.Reading

/-!
# What plans write

The fields that the steps of a plan write: the field of every stored value, and both ends of every
edge that is changed. The identity that a new child is stored with does not count, since the child
itself is what its parent's field holds.

Here stands how the written fields of a plan come from those of its parts, and that reading adds
none. The order of the list is that of the steps.

## Main definitions

* `Schema.writes` — the fields that one step writes itself
* `Schema.written` — the fields that all steps of a plan write

## Main results

* `Schema.written_eq` — the written fields of a plan from those of its parts
* `Schema.written_of_readOnly` — a plan that only reads writes no field
-/

namespace EntityGraph

namespace Schema

variable (s : Schema)

/-- Whether what is stored in the field is the new identity of a child. -/
def isChildIdentity (f : FieldId) : Plan → Bool
  | .generateId =>
    s.types.any fun t => t.kind = .childEntity && (t.field? identityName).any (·.id == f)
  | _ => false

/-- The fields that the outermost step of a plan writes. -/
def writes : Plan → List FieldId
  | .setField f _ value => if s.isChildIdentity f value then [] else [f]
  | .addEdges side .. | .removeEdges side .. | .setEdge side .. =>
    side.sourceField.toList ++ side.targetField.toList
  | _ => []

/-- The fields that the steps of a plan write. -/
def written (p : Plan) : List FieldId := p.nodes.flatMap s.writes

/-! ### Written fields of parts -/

theorem written_eq (p : Plan) : s.written p = s.writes p ++ p.parts.flatMap s.written := by
  rw [written, Plan.nodes_eq, List.flatMap_cons, List.flatMap_assoc]
  rfl

/-- The written fields of a plan with the given ones of its own and the given parts. -/
theorem written_of_parts {p : Plan} (own : List FieldId) (ps : List Plan) (hown : s.writes p = own)
    (hparts : p.parts = ps) : s.written p = own ++ ps.flatMap s.written := by
  rw [written_eq, hown, hparts]

theorem writes_eq_nil {p : Plan} (h : p.isWrite = false) : s.writes p = [] := by
  cases p <;> simp_all [writes, Plan.isWrite]

/-- A plan that only reads writes no field. -/
theorem written_of_readOnly {p : Plan} (h : p.ReadOnly) : s.written p = [] := by
  rw [written, List.flatMap_eq_nil_iff]
  exact fun q hq => s.writes_eq_nil (h q hq)

/-- A writing step is no new identity. -/
theorem isChildIdentity_eq_false {f : FieldId} {p : Plan} (h : p.isWrite = true) :
    s.isChildIdentity f p = false := by
  cases p <;> simp_all [isChildIdentity, Plan.isWrite]

theorem written_setField {f : FieldId} {name : String} {value : Plan}
    (h : s.isChildIdentity f value = false) :
    s.written (.setField f name value) = f :: s.written value := by
  have hown : s.writes (.setField f name value) = [f] := by rw [writes, h]; rfl
  refine (s.written_of_parts [f] [value] hown rfl).trans ?_
  simp

@[simp] theorem written_list (items : List Plan) :
    s.written (.list items) = items.flatMap s.written := by
  refine (s.written_of_parts [] items rfl rfl).trans ?_
  simp

@[simp] theorem written_binary (op : BinaryOperator) (lhs rhs : Plan) :
    s.written (.binary op lhs rhs) = s.written lhs ++ s.written rhs := by
  refine (s.written_of_parts [] [lhs, rhs] rfl rfl).trans ?_
  simp

@[simp] theorem written_conditional (condition yes no : Plan) :
    s.written (.conditional condition yes no) =
      s.written condition ++ (s.written yes ++ s.written no) := by
  refine (s.written_of_parts [] [condition, yes, no] rfl rfl).trans ?_
  simp

@[simp] theorem written_transformList (source : Plan) (item : Variable) (filter inner : Option Plan)
    (maxCount : Option Nat) : s.written (.transformList source item filter maxCount inner) =
      s.written source ++ (filter.toList.flatMap s.written ++ inner.toList.flatMap s.written) := by
  refine (s.written_of_parts [] (source :: (filter.toList ++ inner.toList)) rfl rfl).trans ?_
  simp

@[simp] theorem written_createObject (type : TypeId) (binding : Variable) (changes : List Plan) :
    s.written (.createObject type binding changes) = changes.flatMap s.written := by
  refine (s.written_of_parts [] changes rfl rfl).trans ?_
  simp

@[simp] theorem written_updateObject (target : Plan) (binding : Variable) (changes : List Plan) :
    s.written (.updateObject target binding changes) =
      s.written target ++ changes.flatMap s.written := by
  refine (s.written_of_parts [] (target :: changes) rfl rfl).trans ?_
  simp

@[simp] theorem written_addEdges (side : RelationSide) (source targets : Plan) :
    s.written (.addEdges side source targets) = side.sourceField.toList ++
      side.targetField.toList ++ (s.written source ++ s.written targets) := by
  refine (s.written_of_parts (side.sourceField.toList ++ side.targetField.toList) [source, targets]
    rfl rfl).trans ?_
  simp

@[simp] theorem written_removeEdges (side : RelationSide) (source targets : Plan) :
    s.written (.removeEdges side source targets) = side.sourceField.toList ++
      side.targetField.toList ++ (s.written source ++ s.written targets) := by
  refine (s.written_of_parts (side.sourceField.toList ++ side.targetField.toList) [source, targets]
    rfl rfl).trans ?_
  simp

@[simp] theorem written_setEdge (side : RelationSide) (source : Plan) (target : Option Plan) :
    s.written (.setEdge side source target) = side.sourceField.toList ++
      side.targetField.toList ++ (s.written source ++ target.toList.flatMap s.written) := by
  refine (s.written_of_parts (side.sourceField.toList ++ side.targetField.toList)
    (source :: target.toList) rfl rfl).trans ?_
  simp

/-! ### Steps of changes -/

/-- The steps that store the identity of a new child do not count. -/
theorem written_identitySteps {t : TypeDef} (ht : t ∈ s.types) :
    (Shape.identitySteps t).flatMap s.written = [] := by
  rw [Shape.identitySteps]
  split
  · next hchild =>
    split
    · next f hf =>
      have hidentity : s.isChildIdentity f.id .generateId = true :=
        List.any_eq_true.2 ⟨t, ht, by simp [hchild, hf]⟩
      have hown : s.writes (.setField f.id identityName .generateId) = [] := by
        rw [writes, hidentity]
        rfl
      have hvalue : s.written .generateId = [] :=
        s.written_of_parts (p := .generateId) [] [] rfl rfl
      rw [List.flatMap_singleton, s.written_of_parts [] [.generateId] hown rfl, List.nil_append,
        List.flatMap_singleton, hvalue]
    · rfl
  · rfl

/-- A chain of updates writes what the updates write. -/
theorem written_updateChain (child : Variable) (updates : List (Value × Plan)) :
    s.written (updateChain child updates) = updates.flatMap fun update => s.written update.2 := by
  induction updates with
  | nil => exact s.written_of_readOnly (Plan.readOnly_var child)
  | cons update rest ih =>
    obtain ⟨id, step⟩ := update
    have htest : s.written (.eq (.entityId (.var child)) (.literal id)) = [] :=
      s.written_of_readOnly (by simp [Plan.eq])
    rw [List.flatMap_cons, ← ih]
    show s.written (.conditional _ _ _) = _
    rw [written_conditional, htest]
    rfl

end Schema

end EntityGraph
