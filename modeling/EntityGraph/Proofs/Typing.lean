import EntityGraph.Proofs.Steps

/-!
# Types of plans

Which steps may stand where in a mutation, and for which types. A plan that creates or updates an
object of a type has changes, and each of them stores a value in a declared field of that type or
changes edges from it. What a change stores or connects is made of reading steps and of plans for
objects again, now of the type of the field or of the other end of the edges.

The rules are those of a typing judgement with three mutually dependent parts. The type of an update
is not written in the plan, so the judgement carries it along.

Nothing is asked of the schema but that it can be built: acceptance plays no role.

## Main definitions

* `Plan.isEffect`, `Plan.isInert` — steps that write or draw an identity, and plans without them
* `Schema.ObjectPlan`, `Schema.Change`, `Schema.Supplies` — the judgement
* `Plan.changes`, `Plan.isChange`, `Plan.ChangesInPlace` — changes stand in the changes of objects,
  and nothing else does

## Main results

* `Schema.ObjectPlan.changesInPlace` — typed plans have their changes in place
* `Schema.stable_change` — the changes of input objects are typed
* `mutations_well_typed` — so are mutations
-/

namespace EntityGraph

namespace Plan

/-- Whether the outermost step of a plan writes or makes a new identity. -/
def isEffect : Plan → Bool
  | .generateId => true
  | p => p.isWrite

/-- Whether nothing in a plan writes or makes a new identity. -/
def isInert (p : Plan) : Bool := p.nodes.all fun q => !q.isEffect

/-- The changes of the object that the outermost step of a plan creates or updates. -/
def changes : Plan → List Plan
  | .createObject _ _ changes | .updateObject _ _ changes => changes
  | _ => []

/-- Whether the outermost step of a plan stores a value or changes edges. -/
def isChange : Plan → Bool
  | .setField .. | .addEdges .. | .removeEdges .. | .setEdge .. => true
  | _ => false

/-- Everywhere in the plan, the parts of a step that are changes are exactly its changes. So changes
occur only as such, and every element of a list of changes is one. -/
def ChangesInPlace (p : Plan) : Prop :=
  ∀ q ∈ p.nodes, ∀ c ∈ q.parts, c.isChange = true ↔ c ∈ q.changes

end Plan

/-! ### The judgement -/

namespace Schema

mutual

/-- The plan creates or updates an object of the type. A new child starts with its identity, and no
other object gets one. Finding the object to update has no effect. -/
inductive ObjectPlan (s : Schema) : TypeDef → Plan → Prop
  | create {t : TypeDef} {b : Variable} {steps : List Plan} (hkind : t.kind ≠ .childEntity)
      (hsteps : ∀ p ∈ steps, Change s t b p) : ObjectPlan s t (.createObject t.id b steps)
  | createChild {t : TypeDef} {b : Variable} {f : FieldDef} {steps : List Plan}
      (hkind : t.kind = .childEntity) (hf : f ∈ t.fields) (hidentity : f.isIdentity = true)
      (hsteps : ∀ p ∈ steps, Change s t b p) :
    ObjectPlan s t (.createObject t.id b (.setField f.id f.name .generateId :: steps))
  | update {t : TypeDef} {target : Plan} {b : Variable} {steps : List Plan}
      (htarget : target.isInert = true) (hsteps : ∀ p ∈ steps, Change s t b p) :
    ObjectPlan s t (.updateObject target b steps)

/-- The step changes an object of the type that the variable is bound to: it stores a value in a
declared field of the type, or changes edges that start at the object and at the type. -/
inductive Change (s : Schema) : TypeDef → Variable → Plan → Prop
  | setField {t : TypeDef} {b : Variable} {f : FieldDef} {target : TypeDef} {value : Plan}
      (hf : f ∈ t.fields) (hdeclared : f.isSystem = false) (htarget : s.target? f = some target)
      (hvalue : Supplies s target value) : Change s t b (.setField f.id f.name value)
  | addEdges {t : TypeDef} {b : Variable} {side : RelationSide} {target : TypeDef} {targets : Plan}
      (hsource : side.sourceType = t.id) (htarget : s.typeAt? side.targetType = some target)
      (htargets : Supplies s target targets) : Change s t b (.addEdges side (.var b) targets)
  | removeEdges {t : TypeDef} {b : Variable} {side : RelationSide} {targets : Plan}
      (hsource : side.sourceType = t.id) (htargets : targets.isInert = true) :
    Change s t b (.removeEdges side (.var b) targets)
  | setEdge {t : TypeDef} {b : Variable} {side : RelationSide} {type : TypeDef}
      {target : Option Plan} (hsource : side.sourceType = t.id)
      (htype : s.typeAt? side.targetType = some type) (htarget : ∀ p ∈ target, Supplies s type p) :
    Change s t b (.setEdge side (.var b) target)

/-- The effects in the plan, apart from those in the changes of objects, are plans for objects of
the type. -/
inductive Supplies (s : Schema) : TypeDef → Plan → Prop
  | inert {t : TypeDef} {p : Plan} (h : p.isInert = true) : Supplies s t p
  | object {t : TypeDef} {p : Plan} (h : ObjectPlan s t p) : Supplies s t p
  | within {t : TypeDef} {p : Plan} (h : p.isEffect = false)
      (hparts : ∀ q ∈ p.parts, Supplies s t q) : Supplies s t p

end

end Schema

/-! ### Places of changes -/

namespace Plan

theorem changes_eq_nil {p : Plan} (h : p.isEffect = false) : p.changes = [] := by
  cases p <;> simp_all [isEffect, isWrite, changes]

theorem isChange_eq_false {p : Plan} (h : p.isEffect = false) : p.isChange = false := by
  cases p <;> simp_all [isEffect, isWrite, isChange]

theorem changesInPlace_iff {p : Plan} : p.ChangesInPlace ↔
    (∀ c ∈ p.parts, c.isChange = true ↔ c ∈ p.changes) ∧ ∀ q ∈ p.parts, q.ChangesInPlace :=
  forall_nodes_iff

/-- A plan that has no changes of its own, from its parts. -/
theorem changesInPlace_of_parts {p : Plan} (hchanges : p.changes = [])
    (h : ∀ q ∈ p.parts, q.isChange = false ∧ q.ChangesInPlace) : p.ChangesInPlace := by
  refine changesInPlace_iff.2 ⟨fun c hc => ?_, fun q hq => (h q hq).2⟩
  simp [(h c hc).1, hchanges]

theorem isInert_iff {p : Plan} :
    p.isInert = true ↔ p.isEffect = false ∧ ∀ q ∈ p.parts, q.isInert = true := by
  simp only [isInert, List.all_eq_true, Bool.not_eq_true']
  exact forall_nodes_iff

theorem changesInPlace_of_isInert {p : Plan} (h : p.isInert = true) :
    p.isChange = false ∧ p.ChangesInPlace := by
  induction p using induct_parts with
  | step p ih =>
    obtain ⟨heffect, hparts⟩ := isInert_iff.1 h
    refine ⟨isChange_eq_false heffect, changesInPlace_of_parts (changes_eq_nil heffect) ?_⟩
    exact fun q hq => ih q hq (hparts q hq)

/-- An object has its changes in place if they are changes, and nothing else in it is one. -/
theorem changesInPlace_of_changes {p : Plan} (others : List Plan)
    (hparts : p.parts = others ++ p.changes)
    (hothers : ∀ q ∈ others, q.isChange = false ∧ q.ChangesInPlace)
    (hchanges : ∀ q ∈ p.changes, q.isChange = true ∧ q.ChangesInPlace) : p.ChangesInPlace := by
  rw [changesInPlace_iff, hparts]
  refine ⟨fun c hc => ⟨fun hchange => ?_, fun hc => (hchanges c hc).1⟩, fun q hq => ?_⟩
  · rcases List.mem_append.1 hc with hc | hc
    · rw [(hothers c hc).1] at hchange
      cases hchange
    · exact hc
  · rcases List.mem_append.1 hq with hq | hq
    · exact (hothers q hq).2
    · exact (hchanges q hq).2

end Plan

namespace Schema

variable {s : Schema}

mutual

theorem ObjectPlan.changesInPlace {t : TypeDef} {p : Plan} :
    s.ObjectPlan t p → p.isChange = false ∧ p.ChangesInPlace
  | .create _ hsteps => by
    refine ⟨rfl, Plan.changesInPlace_of_changes [] rfl (by simp) ?_⟩
    exact fun q hq => (hsteps q hq).changesInPlace
  | .createChild _ _ _ hsteps => by
    refine ⟨rfl, Plan.changesInPlace_of_changes [] rfl (by simp) ?_⟩
    refine List.forall_mem_cons.2 ⟨⟨rfl, ?_⟩, fun q hq => (hsteps q hq).changesInPlace⟩
    -- The new identity is a plan without parts.
    refine Plan.changesInPlace_of_parts rfl (List.forall_mem_singleton.2 ⟨rfl, ?_⟩)
    exact Plan.changesInPlace_of_parts rfl (by simp [Plan.parts])
  | .update htarget hsteps => by
    refine ⟨rfl, Plan.changesInPlace_of_changes [_] rfl ?_ ?_⟩
    · exact List.forall_mem_singleton.2 (Plan.changesInPlace_of_isInert htarget)
    · exact fun q hq => (hsteps q hq).changesInPlace

theorem Change.changesInPlace {t : TypeDef} {b : Variable} {p : Plan} :
    s.Change t b p → p.isChange = true ∧ p.ChangesInPlace
  | .setField _ _ _ hvalue => by
    refine ⟨rfl, Plan.changesInPlace_of_parts rfl ?_⟩
    exact List.forall_mem_singleton.2 hvalue.changesInPlace
  | .addEdges _ _ htargets => by
    refine ⟨rfl, Plan.changesInPlace_of_parts rfl (List.forall_mem_cons.2 ⟨?_, ?_⟩)⟩
    · exact Plan.changesInPlace_of_isInert rfl
    · exact List.forall_mem_singleton.2 htargets.changesInPlace
  | .removeEdges _ htargets => by
    refine ⟨rfl, Plan.changesInPlace_of_parts rfl (List.forall_mem_cons.2 ⟨?_, ?_⟩)⟩
    · exact Plan.changesInPlace_of_isInert rfl
    · exact List.forall_mem_singleton.2 (Plan.changesInPlace_of_isInert htargets)
  | .setEdge _ _ htarget => by
    refine ⟨rfl, Plan.changesInPlace_of_parts rfl (List.forall_mem_cons.2 ⟨?_, ?_⟩)⟩
    · exact Plan.changesInPlace_of_isInert rfl
    · exact fun q hq => (htarget q (Option.mem_toList.1 hq)).changesInPlace

theorem Supplies.changesInPlace {t : TypeDef} {p : Plan} :
    s.Supplies t p → p.isChange = false ∧ p.ChangesInPlace
  | .inert h => Plan.changesInPlace_of_isInert h
  | .object h => h.changesInPlace
  | .within h hparts =>
    ⟨Plan.isChange_eq_false h, Plan.changesInPlace_of_parts (Plan.changes_eq_nil h)
      fun q hq => (hparts q hq).changesInPlace⟩

end

/-! ### Ends of edges and identities -/

variable {t type : TypeDef} {f : FieldDef} {side : RelationSide} {shape : Shape} {i : Input}
  {b : Variable} {n m : Nat} {p : Plan}

/-- The field of a child with the name of an identity is its identity. -/
theorem Built.identity_of_child (hs : s.Built) (ht : t ∈ s.types) (hkind : t.kind = .childEntity) :
    ∃ f, t.field? identityName = some f ∧ f.isIdentity = true := by
  obtain ⟨system, declared, hfields, hnames, hsystem, -⟩ := hs.fields_eq ht
  have hentity : t.kind.isEntity = true := by rw [hkind]; rfl
  rw [hentity, if_pos rfl] at hnames
  obtain ⟨f, rest, rfl, hname, -⟩ := List.map_eq_cons_iff.1 hnames
  refine ⟨f, ?_, ?_⟩
  · rw [TypeDef.field?, hfields, List.cons_append, List.find?_cons_of_pos (by simp [hname])]
  · simp [FieldDef.isIdentity, hsystem f List.mem_cons_self, hname]

/-! ### Steps -/

/-- The steps change the object that the variable is bound to. -/
def Changes (s : Schema) : StepLaw :=
  fun shape _ b _ steps _ => ∀ p ∈ steps, s.Change shape.type b p

theorem objectPlan_of_creates (hs : s.Built) (hshape : s.HasShape shape) {u : Value}
    (h : shape.Creates s.Changes u n p m) : s.ObjectPlan shape.type p := by
  obtain ⟨steps, rfl, hsteps⟩ := h
  rw [Shape.identitySteps]
  by_cases hkind : shape.type.kind = .childEntity
  · obtain ⟨f, hf, hidentity⟩ := hs.identity_of_child hshape.mem hkind
    simp only [hkind, if_true, hf]
    rw [← TypeDef.name_of_field? hf]
    exact .createChild hkind (TypeDef.mem_of_field? hf) hidentity hsteps
  · rw [if_neg hkind]
    exact .create hkind hsteps

theorem objectPlan_of_mem (hs : s.Built) (hshape : s.HasShape shape) {us : List Value}
    {ps : List Plan} (h : Chain (shape.Creates s.Changes) us n ps m) :
    ∀ p ∈ ps, s.ObjectPlan shape.type p := by
  intro p hp
  obtain ⟨u, -, k, l, hcreates⟩ := h.exists_of_mem hp
  exact objectPlan_of_creates hs hshape hcreates

theorem objectPlan_of_updates {target : Plan} (htarget : target.isInert = true) {u : Value}
    (h : shape.Updates s.Changes target u n p m) : s.ObjectPlan shape.type p := by
  obtain ⟨steps, rfl, hsteps⟩ := h
  exact .update htarget hsteps

theorem supplies_list {ps : List Plan} (h : ∀ p ∈ ps, s.ObjectPlan t p) : s.Supplies t (.list ps) :=
  .within rfl fun q hq => .object (h q hq)

theorem supplies_pair {q r : Plan} (heffect : p.isEffect = false) (hparts : p.parts = [q, r])
    (hq : s.Supplies t q) (hr : s.Supplies t r) : s.Supplies t p := by
  refine .within heffect ?_
  rw [hparts]
  exact List.forall_mem_cons.2 ⟨hq, List.forall_mem_singleton.2 hr⟩

/-- A chain of updates supplies the updates. -/
theorem supplies_updateChain {child : Variable} {updates : List (Value × Plan)}
    (h : ∀ update ∈ updates, s.ObjectPlan t update.2) :
    s.Supplies t (updateChain child updates) := by
  induction updates with
  | nil => exact .inert rfl
  | cons update rest ih =>
    have hrest := ih fun update' hmem => h update' (List.mem_cons_of_mem update hmem)
    refine .within rfl (List.forall_mem_cons.2 ⟨.inert rfl, List.forall_mem_cons.2 ⟨?_, ?_⟩⟩)
    · exact .object (h update List.mem_cons_self)
    · exact List.forall_mem_singleton.2 hrest

theorem isInert_storedParts (i : Input) (b : Variable) :
    (i.storedParts (.var b)).isInert = true := by
  rw [Input.storedParts]
  cases i.field.isList with
  | true => rfl
  | false => rfl

/-- Storing a value in the field of an input is a change of the type that has the field. -/
theorem change_set (hshape : s.HasShape shape) (hi : i ∈ shape.inputs)
    (hfilter : i.isFilter = false) {value : Plan}
    (hvalue : ∀ target, s.target? i.field = some target → s.Supplies target value) :
    s.Change shape.type b (i.set value) := by
  obtain ⟨hf, hoffers⟩ := hshape.offers hi
  obtain ⟨target, htarget⟩ := hoffers.exists_target? hfilter
  exact .setField hf (hoffers.declared hfilter) htarget (hvalue target htarget)

/-- The same with a value that holds objects of a nested shape. -/
theorem change_set_nested (hshape : s.HasShape shape) (hi : i ∈ shape.inputs) {role : Role}
    (hn : i.kind.nested? = some (role, type)) {value : Plan} (hvalue : s.Supplies type value) :
    s.Change shape.type b (i.set value) := by
  have hfilter : i.isFilter = false := by
    cases hk : i.kind <;> simp_all [Input.isFilter, InputKind.nested?]
  refine change_set hshape hi hfilter fun target htarget => ?_
  have hsame := (hshape.offers hi).2.target?_of_nested hn
  rwa [← Option.some.inj (hsame.symm.trans htarget)]

/-- The ends of the edges that an input changes. The far one is also the type of nested objects. -/
theorem edges_of_input (hs : s.Built) (hshape : s.HasShape shape) (hi : i ∈ shape.inputs)
    (hside : i.kind.side? = some side) : ∃ target, side.sourceType = shape.type.id ∧
      s.typeAt? side.targetType = some target ∧
      ∀ {role : Role} {type : TypeDef}, i.kind.nested? = some (role, type) → target = type := by
  obtain ⟨hf, hoffers⟩ := hshape.offers hi
  obtain ⟨target, hrelates⟩ := hoffers.relates hside
  obtain ⟨hsource, htarget⟩ := hrelates.types hs hshape.mem hf
  refine ⟨target, hsource, ?_, fun hn => ?_⟩
  · rw [htarget, hs.numbered.typeAt?_id (mem_types_of_target? hrelates.target?)]
  · exact Option.some.inj (hrelates.target?.symm.trans (hoffers.target?_of_nested hn))

/-- Changes of input objects are typed: each form of steps is. -/
theorem stable_change (hs : s.Built) : s.Stable s.Changes where
  nil := by simp [Changes]
  append := fun hx hy => List.forall_mem_append.2 ⟨hx, hy⟩
  input := by
    intro shape u w b n m i form steps hshape hi _ hmakes
    have hnested : ∀ {role : Role} {type : TypeDef} {nested : Shape},
        i.kind.nested? = some (role, type) → s.shape role type = .ok nested →
        s.HasShape nested ∧ nested.type = type := (hshape.hasInputs i hi).hasShape
    cases hmakes with
    | nothing => simp [Changes]
    | literal hfilter =>
      refine List.forall_mem_singleton.2 ?_
      exact change_set hshape hi hfilter fun target _ => .inert rfl
    | combine hkind =>
      refine List.forall_mem_singleton.2 ?_
      exact change_set hshape hi (by simp [Input.isFilter, hkind]) fun target _ => .inert rfl
    | newObject hn hmade hp =>
      obtain ⟨hnew, rfl⟩ := hnested hn hmade
      refine List.forall_mem_singleton.2 ?_
      exact change_set_nested hshape hi hn (.object (objectPlan_of_creates hs hnew hp))
    | newObjects hn hmade hps =>
      obtain ⟨hnew, rfl⟩ := hnested hn hmade
      refine List.forall_mem_singleton.2 ?_
      exact change_set_nested hshape hi hn (supplies_list (objectPlan_of_mem hs hnew hps))
    | addChildren hn hmade hps =>
      obtain ⟨hnew, rfl⟩ := hnested hn hmade
      refine List.forall_mem_singleton.2 (change_set_nested hshape hi hn ?_)
      exact supplies_pair rfl rfl (.inert (isInert_storedParts i b))
        (supplies_list (objectPlan_of_mem hs hnew hps))
    | updateExtension hn hmade hp =>
      obtain ⟨-, rfl⟩ := hnested hn hmade
      refine List.forall_mem_singleton.2 (change_set_nested hshape hi hn (.object ?_))
      exact objectPlan_of_updates (isInert_storedParts i b) hp
    | updateChildren hn hmade hupdates =>
      obtain ⟨-, rfl⟩ := hnested hn hmade
      refine List.forall_mem_singleton.2 (change_set_nested hshape hi hn ?_)
      refine supplies_pair rfl rfl (.inert (isInert_storedParts i b)) ?_
      refine supplies_updateChain fun update hupdate => ?_
      obtain ⟨u, -, k, l, -, hupdates⟩ := hupdates.exists_of_mem hupdate
      exact objectPlan_of_updates rfl hupdates
    | removeChildren hkind =>
      refine List.forall_mem_singleton.2 ?_
      refine change_set hshape hi (by simp [Input.isFilter, hkind]) fun target _ => ?_
      exact supplies_pair rfl rfl (.inert (isInert_storedParts i b)) (.inert rfl)
    | addEdges hside =>
      obtain ⟨target, hsource, htarget, -⟩ := edges_of_input hs hshape hi hside
      exact List.forall_mem_singleton.2 (.addEdges hsource htarget (.inert rfl))
    | removeEdges hside =>
      obtain ⟨target, hsource, -⟩ := edges_of_input hs hshape hi hside
      exact List.forall_mem_singleton.2 (.removeEdges hsource rfl)
    | setEdge hside =>
      obtain ⟨target, hsource, htarget, -⟩ := edges_of_input hs hshape hi hside
      refine List.forall_mem_singleton.2 (.setEdge hsource htarget ?_)
      split
      · simp
      · simpa using Supplies.inert rfl
    | createAndAddEdges hside hn hmade hps =>
      obtain ⟨target, hsource, htarget, hsame⟩ := edges_of_input hs hshape hi hside
      obtain rfl := hsame hn
      obtain ⟨hnew, rfl⟩ := hnested hn hmade
      refine List.forall_mem_singleton.2 (.addEdges hsource htarget ?_)
      exact supplies_list (objectPlan_of_mem hs hnew hps)
    | createAndSetEdge hside hn hmade hp =>
      obtain ⟨target, hsource, htarget, hsame⟩ := edges_of_input hs hshape hi hside
      obtain rfl := hsame hn
      obtain ⟨hnew, rfl⟩ := hnested hn hmade
      refine List.forall_mem_singleton.2 (.setEdge hsource htarget ?_)
      simpa using Supplies.object (objectPlan_of_creates hs hnew hp)

end Schema

/-- **Mutations are well typed.** The plan that creates an object of a type creates an object of
that type, and the plan that updates one updates an object of it. Both follow the typing rules at
every depth, and changes occur in them only as the changes of objects. For many objects this is
about the update of one object, so the plan of the targets is left out. The schema need not be
accepted. -/
theorem mutations_well_typed {s : Schema} (hs : s.Built) {t : TypeDef} (ht : t ∈ s.types)
    (input : Value) (supply rest : Supply) (result : Mutation) :
    ((s.planCreate t input).outcome supply = (.ok result, rest) →
      (∃ b steps, result.plan = .createObject t.id b steps) ∧
        s.ObjectPlan t result.plan ∧ result.plan.ChangesInPlace) ∧
    ((s.planUpdate t input).outcome supply = (.ok result, rest) →
      (∃ target b steps, result.plan = .updateObject target b steps) ∧
        s.ObjectPlan t result.plan ∧ result.plan.ChangesInPlace) ∧
    ∀ targets, (s.planUpdateAll t input targets).outcome supply = (.ok result, rest) →
      ∃ item update, result.plan = .transformList targets item none none (some update) ∧
        (∃ b steps, update = .updateObject (.var item) b steps) ∧
        s.ObjectPlan t update ∧ update.ChangesInPlace := by
  have hstable := Schema.stable_change hs
  refine ⟨fun h => ?_, fun h => ?_, fun targets h => ?_⟩
  · obtain ⟨shape, value, rfl, hshape, hplan⟩ := hstable.planCreate ht _ _ h
    have htyped := Schema.objectPlan_of_creates hs hshape hplan
    obtain ⟨steps, hplan, -⟩ := hplan
    exact ⟨⟨_, _, hplan⟩, htyped, htyped.changesInPlace.2⟩
  · obtain ⟨shape, value, id, rfl, hshape, hplan⟩ := hstable.planUpdate ht _ _ h
    have htyped := Schema.objectPlan_of_updates rfl hplan
    obtain ⟨steps, hplan, -⟩ := hplan
    exact ⟨⟨_, _, _, hplan⟩, htyped, htyped.changesInPlace.2⟩
  · obtain ⟨shape, value, update, rfl, hshape, hplan, hupdate⟩ :=
      hstable.planUpdateAll ht targets _ _ h
    have htyped := Schema.objectPlan_of_updates rfl hupdate
    obtain ⟨steps, rfl, -⟩ := hupdate
    exact ⟨_, _, hplan, ⟨_, _, rfl⟩, htyped, htyped.changesInPlace.2⟩

/-- In the shop, an order is created together with its customer and an item. -/
theorem shop_order_well_typed : ∃ order ∈ shop.schema.types, order.name = "Order" ∧
    ∃ (input : Value) (result : Mutation) (rest : Supply),
      (shop.schema.planCreate order input).outcome ⟨0⟩ = (.ok result, rest) ∧
      (result.plan.nodes.filter (!·.changes.isEmpty)).length = 3 ∧
      shop.schema.ObjectPlan order result.plan ∧ result.plan.ChangesInPlace := by
  have hs : shop.schema.Built := (SchemaDecl.lawful_of_accept accept_shopDecl).built
  have ht : shop.schema.types.get ⟨8, by decide⟩ ∈ shop.schema.types := List.get_mem _ _
  let input : Value := .object
    [("createCustomer", .object [("email", .string "c@x")]),
      ("items", .list [.object [("sku", .string "a")]])]
  have hplanned : ∃ result rest,
      (shop.schema.planCreate (shop.schema.types.get ⟨8, by decide⟩) input).outcome ⟨0⟩ =
        (.ok result, rest) ∧ (result.plan.nodes.filter (!·.changes.isEmpty)).length = 3 :=
    ⟨_, _, rfl, rfl⟩
  obtain ⟨result, rest, hcreate, hobjects⟩ := hplanned
  obtain ⟨-, htyped, hplace⟩ := (mutations_well_typed hs ht input ⟨0⟩ rest result).1 hcreate
  exact ⟨_, ht, rfl, input, result, rest, hcreate, hobjects, htyped, hplace⟩

end EntityGraph
