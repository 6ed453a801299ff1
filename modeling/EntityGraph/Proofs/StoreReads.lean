import EntityGraph.Proofs.Steps

/-!
# Reads of the store

A plan reads the store of entities where it lists the entities of a type or follows edges. Mutations
do neither, apart from finding the object that they are for: references and edges are stored as they
were supplied, and nobody asks whether there is an entity at the other end.

Stored extensions and children are read with the compiler of field reads, which lists entities for
references and follows edges for relations. The inputs that use it are those of embedded fields, for
which it does neither.

Nothing is asked of the schema, not even that it can be built.

## Main definitions

* `Plan.scans` — the steps of a plan that read the store
* `Scanless` — the law that no step reads the store

## Main results

* `stable_scanless` — input objects make no steps that read the store
* `mutations_read_only_their_targets` — where mutations read the store
-/

namespace EntityGraph

namespace Plan

/-! ### Scans -/

/-- The steps of a plan that read the store, parents first. -/
def scans (p : Plan) : List Plan := p.nodes.filter isScan

theorem readsEntities_eq_false_iff {p : Plan} : p.readsEntities = false ↔ p.scans = [] := by
  rw [readsEntities, scans, List.filter_eq_nil_iff, List.any_eq_false]

/-- The scans of a plan are its own and those of its parts. -/
theorem scans_eq (p : Plan) :
    p.scans = (if p.isScan then [p] else []) ++ p.parts.flatMap scans := by
  rw [scans, nodes_eq, List.filter_cons, List.filter_flatMap]
  split
  · rfl
  · rfl

theorem scans_of_parts {p : Plan} (ps : List Plan) (hparts : p.parts = ps)
    (hscan : p.isScan = false) : p.scans = ps.flatMap scans := by
  rw [scans_eq, hscan, hparts]
  rfl

/-- A plan that does not read the store itself does not do so if none of its parts does. -/
theorem scans_eq_nil {p : Plan} (hscan : p.isScan = false) (h : ∀ q ∈ p.parts, q.scans = []) :
    p.scans = [] := by
  rw [scans_of_parts _ rfl hscan]
  exact List.flatMap_eq_nil_iff.2 h

@[simp] theorem scans_literal (v : Value) : (literal v).scans = [] := scans_of_parts [] rfl rfl

@[simp] theorem scans_var (v : Variable) : (var v).scans = [] := scans_of_parts [] rfl rfl

theorem scans_followEdge_notMem {p : Plan} {type : TypeId} (h : p.scans = [.entities type])
    (side : RelationSide) (source : Plan) : .followEdge side source ∉ p.nodes := by
  intro hmem
  have hscan : .followEdge side source ∈ p.scans := List.mem_filter.2 ⟨hmem, rfl⟩
  rw [h, List.mem_singleton] at hscan
  cases hscan

/-- An entity is found by its identity among those of its type. -/
theorem scans_lookup_id (type : TypeId) (candidate : Variable) (id : Value) :
    (lookup type candidate (.eq (.entityId (.var candidate)) (.literal id))).scans =
      [.entities type] := rfl

end Plan

/-! ### Steps of input objects -/

/-- No step reads the store. -/
def Scanless : StepLaw := fun _ _ _ _ steps _ => ∀ p ∈ steps, p.scans = []

section

variable {shape : Shape} {u : Value} {n m : Nat} {p : Plan}

theorem scans_identitySteps (t : TypeDef) : ∀ p ∈ Shape.identitySteps t, p.scans = [] := by
  rw [Shape.identitySteps]
  split
  · split
    · exact List.forall_mem_singleton.2 rfl
    · simp
  · simp

theorem scans_of_creates (h : shape.Creates Scanless u n p m) : p.scans = [] := by
  obtain ⟨steps, rfl, hsteps⟩ := h
  exact Plan.scans_eq_nil rfl (List.forall_mem_append.2 ⟨scans_identitySteps _, hsteps⟩)

/-- An update reads the store where it finds its target. -/
theorem scans_of_updates {target : Plan} (h : shape.Updates Scanless target u n p m) :
    p.scans = target.scans := by
  obtain ⟨steps, rfl, hsteps⟩ := h
  rw [Plan.scans_of_parts (target :: steps) rfl rfl, List.flatMap_cons,
    List.flatMap_eq_nil_iff.2 hsteps, List.append_nil]

theorem scans_list_of_chain {us : List Value} {ps : List Plan}
    (h : Chain (shape.Creates Scanless) us n ps m) : (Plan.list ps).scans = [] := by
  refine Plan.scans_eq_nil rfl fun p hp => ?_
  obtain ⟨u, -, k, l, hcreates⟩ := h.exists_of_mem hp
  exact scans_of_creates hcreates

theorem scans_storedParts (i : Input) (b : Variable) : (i.storedParts (.var b)).scans = [] := by
  rw [Input.storedParts]
  cases i.field.isList with
  | true => rfl
  | false => rfl

theorem scans_updateChain {child : Variable} {updates : List (Value × Plan)}
    (h : ∀ update ∈ updates, update.2.scans = []) : (updateChain child updates).scans = [] := by
  induction updates with
  | nil => exact Plan.scans_var child
  | cons update rest ih =>
    obtain ⟨hfirst, hrest⟩ := List.forall_mem_cons.1 h
    refine Plan.scans_eq_nil rfl (List.forall_mem_cons.2 ⟨rfl, List.forall_mem_cons.2 ⟨hfirst, ?_⟩⟩)
    exact List.forall_mem_singleton.2 (ih hrest)

/-- Storing a value reads the store only as the value does. -/
theorem scans_set {i : Input} {value : Plan} (h : value.scans = []) : (i.set value).scans = [] :=
  Plan.scans_eq_nil rfl (List.forall_mem_singleton.2 h)

theorem scans_pair {q r : Plan} (hparts : p.parts = [q, r]) (hscan : p.isScan = false)
    (hq : q.scans = []) (hr : r.scans = []) : p.scans = [] := by
  refine Plan.scans_eq_nil hscan ?_
  rw [hparts]
  exact List.forall_mem_cons.2 ⟨hq, List.forall_mem_singleton.2 hr⟩

end

/-- No input object makes a step that reads the store. -/
theorem stable_scanless (s : Schema) : s.Stable Scanless where
  nil := by simp [Scanless]
  append := fun hx hy => List.forall_mem_append.2 ⟨hx, hy⟩
  input := by
    intro shape u w b n m i form steps _ _ _ hmakes
    have hstored := scans_storedParts i b
    cases hmakes with
    | nothing => simp [Scanless]
    | literal => exact List.forall_mem_singleton.2 (scans_set (Plan.scans_literal w))
    | combine => exact List.forall_mem_singleton.2 (scans_set rfl)
    | newObject _ _ hp => exact List.forall_mem_singleton.2 (scans_set (scans_of_creates hp))
    | newObjects _ _ hps => exact List.forall_mem_singleton.2 (scans_set (scans_list_of_chain hps))
    | addChildren _ _ hps =>
      refine List.forall_mem_singleton.2 (scans_set ?_)
      exact scans_pair rfl rfl hstored (scans_list_of_chain hps)
    | updateExtension _ _ hp =>
      exact List.forall_mem_singleton.2 (scans_set ((scans_of_updates hp).trans hstored))
    | updateChildren _ _ hupdates =>
      refine List.forall_mem_singleton.2 (scans_set (scans_pair rfl rfl hstored ?_))
      refine scans_updateChain fun update hupdate => ?_
      obtain ⟨u, -, k, l, -, hupdates⟩ := hupdates.exists_of_mem hupdate
      exact (scans_of_updates hupdates).trans (Plan.scans_var _)
    | removeChildren =>
      exact List.forall_mem_singleton.2 (scans_set (scans_pair rfl rfl hstored rfl))
    | addEdges | removeEdges =>
      refine List.forall_mem_singleton.2 ?_
      exact scans_pair rfl rfl (Plan.scans_var b) (Plan.scans_literal w)
    | setEdge =>
      refine List.forall_mem_singleton.2 ?_
      split
      · exact Plan.scans_eq_nil rfl (List.forall_mem_singleton.2 (Plan.scans_var b))
      · exact scans_pair rfl rfl (Plan.scans_var b) (Plan.scans_literal w)
    | createAndAddEdges _ _ _ hps =>
      refine List.forall_mem_singleton.2 ?_
      exact scans_pair rfl rfl (Plan.scans_var b) (scans_list_of_chain hps)
    | createAndSetEdge _ _ _ hp =>
      refine List.forall_mem_singleton.2 ?_
      exact scans_pair rfl rfl (Plan.scans_var b) (scans_of_creates hp)

/-! ### Mutations -/

/-- The plan finds the entity of a type with an identity, and reads the store for nothing else: only
the entities of the type are listed, once, and no edge is followed. -/
structure Plan.FindsOnly (p : Plan) (type : TypeId) (target : Plan) : Prop where
  lookup : ∃ candidate id, target = .lookup type candidate
    (.eq (.entityId (.var candidate)) (.literal id))
  part : target ∈ p.parts
  scans : p.scans = [.entities type]
  noEdges : ∀ side source, .followEdge side source ∉ p.nodes

theorem Plan.findsOnly {p : Plan} {type : TypeId} {candidate : Variable} {id : Value}
    (hpart : lookup type candidate (.eq (.entityId (.var candidate)) (.literal id)) ∈ p.parts)
    (hscans : p.scans = [.entities type]) : p.FindsOnly type
      (lookup type candidate (.eq (.entityId (.var candidate)) (.literal id))) where
  lookup := ⟨candidate, id, rfl⟩
  part := hpart
  scans := hscans
  noEdges := scans_followEdge_notMem hscans

theorem Schema.planDelete_yields (t : TypeDef) (id : Value) (n : Nat) :
    (planDelete t id).Yields n fun result _ => ∃ target,
      result.plan = .deleteObject t.id target ∧ result.plan.FindsOnly t.id target := by
  refine .bindExcept fun _ _ => .bindExcept fun id _ => ?_
  rw [entityById, bind_assoc]
  refine .bindFresh ?_
  rw [pure_bind]
  exact .pure ⟨_, rfl, Plan.findsOnly List.mem_cons_self rfl⟩

/-- **Mutations check for no entity.** In any schema, a plan that creates an object does not read
the store, whatever references, edges and children come with it. A plan that updates or deletes an
entity lists the entities of its type once, to find it. A plan that updates many objects reads the
store only where it finds them. -/
theorem mutations_read_only_their_targets (s : Schema) {t : TypeDef} (ht : t ∈ s.types)
    (input : Value) (supply rest : Supply) (result : Mutation) :
    ((s.planCreate t input).outcome supply = (.ok result, rest) →
      result.plan.readsEntities = false) ∧
    ((s.planUpdate t input).outcome supply = (.ok result, rest) →
      ∃ target b steps, result.plan = .updateObject target b steps ∧
        result.plan.FindsOnly t.id target) ∧
    ((Schema.planDelete t input).outcome supply = (.ok result, rest) →
      ∃ target, result.plan = .deleteObject t.id target ∧ result.plan.FindsOnly t.id target) ∧
    ∀ targets, (s.planUpdateAll t input targets).outcome supply = (.ok result, rest) →
      ∃ item update, result.plan = .transformList targets item none none (some update) ∧
        update.readsEntities = false ∧ result.plan.scans = targets.scans := by
  have hstable := stable_scanless s
  refine ⟨fun h => ?_, fun h => ?_, fun h => ?_, fun targets h => ?_⟩
  · obtain ⟨shape, value, -, -, hplan⟩ := hstable.planCreate ht _ _ h
    exact Plan.readsEntities_eq_false_iff.2 (scans_of_creates hplan)
  · obtain ⟨shape, value, id, -, -, hplan⟩ := hstable.planUpdate ht _ _ h
    have hscans := (scans_of_updates hplan).trans (Plan.scans_lookup_id _ _ _)
    obtain ⟨steps, hplan, -⟩ := hplan
    refine ⟨_, _, steps, hplan, Plan.findsOnly ?_ hscans⟩
    rw [hplan]
    exact List.mem_cons_self
  · exact Schema.planDelete_yields t input supply.next _ _ h
  · obtain ⟨shape, value, update, -, -, hplan, hupdate⟩ := hstable.planUpdateAll ht targets _ _ h
    have hscans := (scans_of_updates hupdate).trans (Plan.scans_var _)
    refine ⟨_, update, hplan, Plan.readsEntities_eq_false_iff.2 hscans, ?_⟩
    rw [hplan, Plan.scans_of_parts [targets, update] rfl rfl]
    simp [hscans]

/-- In the shop, an order is created for a customer and a payer that need not exist. Order 1 gets
both together with a changed item and a new address, and so do all orders. Order 1 is deleted. -/
theorem shop_order_reads_only_target : ∃ order ∈ shop.schema.types, order.name = "Order" ∧
    (∃ (input : Value) (result : Mutation) (m : Nat),
      (shop.schema.planCreate order input).outcome ⟨0⟩ = (.ok result, ⟨m⟩) ∧
      result.plan.writeCount = 3 ∧ result.plan.readsEntities = false) ∧
    (∃ (input : Value) (result : Mutation) (m : Nat),
      (shop.schema.planUpdate order input).outcome ⟨0⟩ = (.ok result, ⟨m⟩) ∧
      result.plan.writeCount = 11 ∧
      ∃ target b steps, result.plan = .updateObject target b steps ∧
        result.plan.FindsOnly order.id target) ∧
    (∃ (id : Value) (result : Mutation) (m : Nat),
      (Schema.planDelete order id).outcome ⟨0⟩ = (.ok result, ⟨m⟩) ∧
      ∃ target, result.plan = .deleteObject order.id target ∧
        result.plan.FindsOnly order.id target) ∧
    ∃ (input : Value) (targets : Plan) (result : Mutation) (m : Nat),
      (shop.schema.planUpdateAll order input targets).outcome ⟨0⟩ = (.ok result, ⟨m⟩) ∧
      result.plan.writeCount = 11 ∧ targets.scans = [.entities order.id] ∧
      result.plan.scans = targets.scans := by
  have ht : shop.schema.types.get ⟨8, by decide⟩ ∈ shop.schema.types := List.get_mem _ _
  let people : List (String × Value) :=
    [("customer", .string "c404"), ("payer", .string "nobody@x")]
  let changed : List (String × Value) := people ++
    [("shipping", .object [("address", .object [])]),
      ("updateItems", .list [.object [("id", .string "i1"), ("sku", .string "b")]])]
  have hcreate : ∃ result m, (shop.schema.planCreate (shop.schema.types.get ⟨8, by decide⟩)
      (.object people)).outcome ⟨0⟩ = (.ok result, ⟨m⟩) ∧ (result.plan.writeCount == 3) = true :=
    Planner.exists_result (by decide +kernel)
  have hupdate : ∃ result m, (shop.schema.planUpdate (shop.schema.types.get ⟨8, by decide⟩)
      (.object (("id", .string "o1") :: changed))).outcome ⟨0⟩ = (.ok result, ⟨m⟩) ∧
        (result.plan.writeCount == 11) = true := Planner.exists_result (by decide +kernel)
  have hdelete : ∃ result m, (Schema.planDelete (shop.schema.types.get ⟨8, by decide⟩)
      (.string "o1")).outcome ⟨0⟩ = (.ok result, ⟨m⟩) := ⟨_, _, rfl⟩
  have hupdateAll : ∃ result m, (shop.schema.planUpdateAll (shop.schema.types.get ⟨8, by decide⟩)
      (.object changed) (.entities (shop.schema.types.get ⟨8, by decide⟩).id)).outcome ⟨0⟩ =
        (.ok result, ⟨m⟩) ∧ (result.plan.writeCount == 11) = true :=
    Planner.exists_result (by decide +kernel)
  obtain ⟨created, m₁, hcreate, hcreated⟩ := hcreate
  obtain ⟨updated, m₂, hupdate, hupdated⟩ := hupdate
  obtain ⟨deleted, m₃, hdelete⟩ := hdelete
  obtain ⟨allUpdated, m₄, hupdateAll, hallUpdated⟩ := hupdateAll
  have hreads := fun input m => mutations_read_only_their_targets shop.schema ht input ⟨0⟩ ⟨m⟩
  obtain ⟨item, update, -, -, hscans⟩ := (hreads _ m₄ allUpdated).2.2.2 _ hupdateAll
  exact ⟨_, ht, rfl,
    ⟨_, created, m₁, hcreate, beq_iff_eq.1 hcreated, (hreads _ m₁ created).1 hcreate⟩,
    ⟨_, updated, m₂, hupdate, beq_iff_eq.1 hupdated, (hreads _ m₂ updated).2.1 hupdate⟩,
    ⟨_, deleted, m₃, hdelete, (hreads _ m₃ deleted).2.2.1 hdelete⟩,
    ⟨_, _, allUpdated, m₄, hupdateAll, beq_iff_eq.1 hallUpdated, rfl, hscans⟩⟩

end EntityGraph
