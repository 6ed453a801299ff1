import EntityGraph.Proofs.Writers

/-!
# Reads among changes

A change may read the object that it changes: an operator combines the stored value with another
one, and a revision of children starts from the stored list. If another change of the object stores
a value in the same field, the outcome depends on whether reads see the object as it was before all
changes, or with the changes before the read.

A change reads only the field that it stores a value in. So such a read meets another writer of its
own field, and these are known: two revisions of the same children. The names of inputs have to be
distinct for this. Otherwise a value gets past the check for conflicts under a shared name, and an
object is both set and combined.

Where no list of children is stored twice, the two ways to see the object agree: the changes of an
object are one simultaneous update.

## Main definitions

* `Plan.reads` — whether a plan reads a field of the object that a variable is bound to
* `inTurn`, `atOnce` — two ways to apply changes
* `Plan.HazardsConfined` — where a change reads what another one stores

## Main results

* `inTurn_eq_atOnce` — the two ways agree if no change reads what another one stores
* `hazards_are_revisions` — only revisions of the same children read each other's field
* `revisions_meet` — and they do
-/

namespace EntityGraph

/-! ### Reads -/

namespace Plan

/-- Whether something in the plan reads the field of the object that the variable is bound to. -/
def reads (p : Plan) (b : Variable) (x : FieldId) : Bool :=
  p.nodes.any fun q => q.variableField? = some (b.id, x)

theorem reads_eq_true {p : Plan} {b : Variable} {x : FieldId} : p.reads b x = true ↔
    ∃ v name, v.id = b.id ∧ .field (.var v) x name ∈ p.nodes := by
  rw [reads, List.any_eq_true]
  constructor
  · rintro ⟨q, hq, hread⟩
    rw [decide_eq_true_eq] at hread
    obtain ⟨v, y, name, rfl⟩ : ∃ v y name, q = .field (.var v) y name := by
      unfold variableField? at hread
      split at hread
      · exact ⟨_, _, _, rfl⟩
      · cases hread
    obtain ⟨hv, rfl⟩ : v.id = b.id ∧ y = x := by simpa [variableField?] using hread
    exact ⟨v, name, hv, hq⟩
  · rintro ⟨v, name, hv, hread⟩
    exact ⟨_, hread, by simp [variableField?, hv]⟩

theorem Separate.symm {c d : Plan} (h : c.Separate d) : d.Separate c := by
  refine ⟨fun x hd hc => h.1 x hc hd, fun x hd hc => ?_⟩
  obtain ⟨r, r', hr, hr', hne⟩ := h.2 x hc hd
  exact ⟨r', r, hr', hr, hne.symm⟩

end Plan

/-! ### Two ways to apply changes -/

section Apply

variable {α : Type}

/-- The values of the fields of an object after a step that comes to `a`. -/
def Plan.put (c : Plan) (a : α) (values : FieldId → α) : FieldId → α :=
  fun x => if c.stored? = some x then a else values x

/-- What the changes come to, and the values afterwards, if each change sees those before it. The
changes are evaluated by `value`, for the values of the fields that they see. -/
def inTurn (value : Plan → (FieldId → α) → α) :
    List Plan → (FieldId → α) → List α × (FieldId → α)
  | [], values => ([], values)
  | c :: cs, values =>
    let rest := inTurn value cs (c.put (value c values) values)
    (value c values :: rest.1, rest.2)

/-- What the changes come to, and the values afterwards, if all changes see the object as it was. -/
def atOnce (value : Plan → (FieldId → α) → α) (cs : List Plan) (values : FieldId → α) :
    List α × (FieldId → α) :=
  (cs.map (value · values), cs.foldl (fun after c => c.put (value c values) after) values)

/-- Plans are evaluated from nothing else of the bound object than the fields that they read. -/
def DependsOnReads (b : Variable) (value : Plan → (FieldId → α) → α) : Prop :=
  ∀ p values values', (∀ x, p.reads b x = true → values x = values' x) →
    value p values = value p values'

theorem Plan.put_of_ne {c : Plan} {x : FieldId} (h : c.stored? ≠ some x) (a : α)
    (values : FieldId → α) : c.put a values x = values x := if_neg h

variable {b : Variable} {value : Plan → (FieldId → α) → α} {cs : List Plan}

/-- Changes that do not read what earlier ones stored are a simultaneous update. -/
theorem inTurn_eq_atOnce (hvalue : DependsOnReads b value)
    (h : cs.Pairwise fun c d => ∀ x, c.stored? = some x → d.reads b x = false)
    (values : FieldId → α) : inTurn value cs values = atOnce value cs values := by
  -- The fields that are still to be read have kept their values.
  suffices hrun : ∀ after : FieldId → α,
      (∀ d ∈ cs, ∀ x, d.reads b x = true → after x = values x) → inTurn value cs after =
        (cs.map (value · values), cs.foldl (fun after c => c.put (value c values) after) after) from
    hrun values fun _ _ _ _ => rfl
  induction cs with
  | nil => intro after _; rfl
  | cons c cs ih =>
    intro after hkept
    obtain ⟨hfirst, hrest⟩ := List.pairwise_cons.1 h
    have hc : value c after = value c values := hvalue c after values (hkept c List.mem_cons_self)
    have hkept' : ∀ d ∈ cs, ∀ x, d.reads b x = true →
        c.put (value c values) after x = values x := by
      intro d hd x hread
      have hne : c.stored? ≠ some x := by
        intro hstored
        simp [hfirst d hd x hstored] at hread
      rw [Plan.put_of_ne hne]
      exact hkept d (List.mem_cons_of_mem c hd) x hread
    rw [inTurn, hc, ih hrest _ hkept']
    rfl

end Apply

/-! ### Mutations -/

/-- One change of the outermost step stores a value in a field of the object, and another change
reads the field. -/
def Plan.Hazard (q : Plan) (x : FieldId) (c d : Plan) : Prop :=
  ∃ (b : Variable) (i j : Nat), q.binder? = some b ∧ i ≠ j ∧ q.changes[i]? = some c ∧
    q.changes[j]? = some d ∧ c.stored? = some x ∧ d.reads b x = true

/-- A change of the outermost step reads what another change stores only if both revise the same
children of an object that is updated, in different ways. If no list of children is stored twice,
all changes may see the object as it was. -/
structure Plan.HazardsConfined (s : Schema) (q : Plan) : Prop where
  revisions : ∀ x c d, q.Hazard x c d →
    q.isUpdate = true ∧ s.holdsChildren x = true ∧ d.stored? = some x ∧
      ∃ r r', c.revision? = some r ∧ d.revision? = some r' ∧ r ≠ r'
  simultaneous : (∀ x, s.holdsChildren x = true →
      (q.changes.countP fun c => c.stored? = some x) ≤ 1) → ∀ b, q.binder? = some b →
    ∀ (α : Type) (value : Plan → (FieldId → α) → α), DependsOnReads b value →
      ∀ values, inTurn value q.changes values = atOnce value q.changes values

theorem Schema.Orderly.hazardsConfined {s : Schema} {q : Plan} (h : s.Orderly q) :
    q.HazardsConfined s := by
  -- A change that reads a field of the object stores a value in it, so it meets another writer.
  have hmeet : ∀ b, q.binder? = some b → ∀ c ∈ q.changes, ∀ d ∈ q.changes, c.Separate d →
      ∀ x, c.stored? = some x → d.reads b x = true →
        q.isUpdate = true ∧ s.holdsChildren x = true ∧ d.stored? = some x ∧
          ∃ r r', c.revision? = some r ∧ d.revision? = some r' ∧ r ≠ r' := by
    intro b hb c hc d hd hseparate x hstored hread
    obtain ⟨v, name, hv, hnode⟩ := Plan.reads_eq_true.1 hread
    have hown := h.reads b hb d hd v x name hv hnode
    obtain ⟨r, r', hr, hr', hne⟩ := hseparate.2 x hstored hown
    obtain ⟨hupdate, y, hy, hchildren⟩ := (h.revises c hc).1 (by simp [hr])
    obtain rfl : x = y := Option.some.inj (hstored.symm.trans hy)
    exact ⟨hupdate, hchildren, hown, r, r', hr, hr', hne⟩
  constructor
  · rintro x c d ⟨b, i, j, hb, hij, hi, hj, hstored, hread⟩
    have hseparate : c.Separate d := by
      obtain ⟨hi', rfl⟩ := List.getElem?_eq_some_iff.1 hi
      obtain ⟨hj', rfl⟩ := List.getElem?_eq_some_iff.1 hj
      rcases Nat.lt_or_gt_of_ne hij with hlt | hgt
      · exact List.pairwise_iff_getElem.1 h.separate i j hi' hj' hlt
      · exact (List.pairwise_iff_getElem.1 h.separate j i hj' hi' hgt).symm
    exact hmeet b hb c (List.mem_of_getElem? hi) d (List.mem_of_getElem? hj) hseparate x hstored
      hread
  · intro honce b hb α value hvalue values
    refine inTurn_eq_atOnce hvalue ?_ values
    rw [List.pairwise_iff_forall_sublist]
    intro c d hsub x hstored
    have hseparate := List.pairwise_iff_forall_sublist.1 h.separate hsub
    by_contra hread
    obtain ⟨-, hchildren, hown, -⟩ := hmeet b hb c (hsub.subset (by simp)) d (hsub.subset (by simp))
      hseparate x hstored (by simpa using hread)
    have htwice := hsub.countP_le (p := fun c => c.stored? = some x)
    have htwo : [c, d].countP (fun c => c.stored? = some x) = 2 := by simp [hstored, hown]
    have hone := honce x hchildren
    omega

/-- **Only revisions of children read each other's field.** In an accepted schema with distinct
names of inputs, a change of an object does not read a field in which another change of the object
stores a value, unless both revise the same list of children. Where no such list is stored twice,
the outcome does not depend on whether a change sees what those before it have stored. This holds
everywhere in a mutation. For many objects it is about the update of one object, so the plan of the
targets is left out. -/
theorem hazards_are_revisions {decl : SchemaDecl} {a : AcceptedSchema} (h : decl.accept = .ok a)
    (hnames : a.schema.NamesDistinct) {t : TypeDef} (ht : t ∈ a.schema.types) (n m : Nat)
    (input : Value) (result : Mutation) :
    ((a.schema.planCreate t input).outcome ⟨n⟩ = (.ok result, ⟨m⟩) →
      ∀ q ∈ result.plan.nodes, q.HazardsConfined a.schema) ∧
    ((a.schema.planUpdate t input).outcome ⟨n⟩ = (.ok result, ⟨m⟩) →
      ∀ q ∈ result.plan.nodes, q.HazardsConfined a.schema) ∧
    ∀ targets, (a.schema.planUpdateAll t input targets).outcome ⟨n⟩ = (.ok result, ⟨m⟩) →
      ∃ item update, result.plan = .transformList targets item none none (some update) ∧
        ∀ q ∈ update.nodes, q.HazardsConfined a.schema := by
  have hs := SchemaDecl.lawful_of_accept h
  refine ⟨fun hp q hq => ?_, fun hp q hq => ?_, fun targets hp => ?_⟩
  · exact (hs.orderly_planCreate hnames ht hp q hq).hazardsConfined
  · exact (hs.orderly_planUpdate hnames ht hp q hq).hazardsConfined
  · obtain ⟨item, update, hplan, horderly⟩ := hs.orderly_planUpdateAll hnames ht hp
    exact ⟨item, update, hplan, fun q hq => (horderly q hq).hazardsConfined⟩

/-- In the shop, the total of orders is increased and items are added in one update. Both changes
read what they replace, and they may be applied in turn or at once. -/
theorem shop_total_and_items : ∃ order ∈ shop.schema.types, order.name = "Order" ∧
    ∃ (input : Value) (result : Mutation) (m : Nat),
      (shop.schema.planUpdateAll order input (.entities order.id)).outcome ⟨0⟩ =
        (.ok result, ⟨m⟩) ∧
      ∃ q ∈ result.plan.nodes, q.HazardsConfined shop.schema ∧
        ∃ b x y, q.binder? = some b ∧ q.changes.map (·.stored?) = [some x, some y] ∧ x ≠ y ∧
          q.changes.any (·.reads b x) = true ∧ q.changes.any (·.reads b y) = true ∧
          ∀ (α : Type) (value : Plan → (FieldId → α) → α), DependsOnReads b value →
            ∀ values, inTurn value q.changes values = atOnce value q.changes values := by
  have ht : shop.schema.types.get ⟨8, by decide⟩ ∈ shop.schema.types := List.get_mem _ _
  let input : Value := .object
    [("addItems", .list [.object [("sku", .string "c")]]), ("increaseByTotal", .int 5)]
  have hplanned : ∃ result m, (shop.schema.planUpdateAll (shop.schema.types.get ⟨8, by decide⟩)
      input (.entities (shop.schema.types.get ⟨8, by decide⟩).id)).outcome ⟨0⟩ =
        (.ok result, ⟨m⟩) ∧ (result.plan.nodes.any fun q =>
          q.changes.map (·.stored?) = [some ⟨10⟩, some ⟨13⟩] ∧ (q.binder?.any fun b =>
            q.changes.any (·.reads b ⟨10⟩) && q.changes.any (·.reads b ⟨13⟩)) = true) = true :=
    Planner.exists_result (by decide +kernel)
  obtain ⟨result, m, hupdate, hfound⟩ := hplanned
  obtain ⟨q, hq, hfound⟩ := List.any_eq_true.1 hfound
  obtain ⟨hstored, hreads⟩ := of_decide_eq_true hfound
  obtain ⟨b, hb, hreads⟩ := (Option.any_eq_true _ _).1 hreads
  obtain ⟨hreadsTotal, hreadsItems⟩ := Bool.and_eq_true_iff.1 hreads
  have hconfined : q.HazardsConfined shop.schema := by
    have hall := (hazards_are_revisions accept_shopDecl namesDistinct_shop ht 0 m input result).2.2
    obtain ⟨item, update, hplan, hconfined⟩ := hall _ hupdate
    rw [hplan, Plan.nodes_eq] at hq
    -- Neither the step around the update nor the plan of the targets has changes.
    rcases List.mem_cons.1 hq with rfl | hinside
    · cases hstored
    · obtain ⟨p, hp, hnode⟩ := List.mem_flatMap.1 hinside
      obtain rfl | rfl : p = .entities _ ∨ p = update := by simpa [Plan.parts] using hp
      · rw [List.mem_singleton.1 hnode] at hstored
        cases hstored
      · exact hconfined q hnode
  have honce : ∀ x, (q.changes.countP fun c => c.stored? = some x) ≤ 1 := by
    intro x
    refine countP_le_one ?_
    have hapart : (q.changes.map (·.stored?)).Pairwise (· ≠ ·) := by
      rw [hstored]
      decide
    refine (List.pairwise_map.1 hapart).imp fun {c d} hne hc hd => hne ?_
    exact (of_decide_eq_true hc).trans (of_decide_eq_true hd).symm
  exact ⟨_, ht, rfl, input, result, m, hupdate, q, hq, hconfined, b, _, _, hb, hstored, by decide,
    hreadsTotal, hreadsItems, hconfined.simultaneous (fun x _ => honce x) b hb⟩

/-! ### Revisions that meet -/

/-- Whether somewhere in the plan the second change of a step reads the field that the first one
stores a value in. -/
def Plan.hazardous (p : Plan) (x : FieldId) : Bool :=
  p.nodes.any fun q => q.binder?.any fun b =>
    q.changes[0]?.any (·.stored? = some x) && q.changes[1]?.any (·.reads b x)

theorem Plan.exists_hazard {p : Plan} {x : FieldId} (h : p.hazardous x = true) :
    ∃ q ∈ p.nodes, ∃ c d, q.Hazard x c d := by
  obtain ⟨q, hq, h⟩ := List.any_eq_true.1 h
  obtain ⟨b, hb, h⟩ := (Option.any_eq_true _ _).1 h
  obtain ⟨hfirst, hsecond⟩ := Bool.and_eq_true_iff.1 h
  obtain ⟨c, hc, hstored⟩ := (Option.any_eq_true _ _).1 hfirst
  obtain ⟨d, hd, hread⟩ := (Option.any_eq_true _ _).1 hsecond
  exact ⟨q, hq, c, d, b, 0, 1, hb, by decide, hc, hd, of_decide_eq_true hstored, hread⟩

/-- Orders with priced items, and with notes under the name of the input that updates the items. -/
def notesDecl : SchemaDecl where
  profiles := [.named defaultProfileName]
  types :=
    [(TypeDecl.named "Order" .rootEntity)
        |>.withField (.named "updateItems" "JSON")
        |>.withField ((FieldDecl.named "items" "Item").asList),
      (TypeDecl.named "Item" .childEntity)
        |>.withField ((FieldDecl.named "price" "Int").withCalc "ADD")]

def notes : AcceptedSchema := ⟨(Schema.ofDecl notesDecl).toOption.getD .initial, by decide⟩

/-- Items that are added and items that are removed in one update read each other's field. And in
the schema with notes, whose inputs share a name, the price of an item is set and increased in one
update: what is supplied under the shared name was only checked as a note. -/
theorem revisions_meet :
    (∃ order ∈ shop.schema.types, order.name = "Order" ∧
      ∃ (input : Value) (result : Mutation) (m : Nat),
        (shop.schema.planUpdateAll order input (.entities order.id)).outcome ⟨0⟩ =
          (.ok result, ⟨m⟩) ∧
        ∃ x, ∃ q ∈ result.plan.nodes, ∃ c d, q.Hazard x c d) ∧
    notesDecl.accept = .ok notes ∧ ¬notes.schema.NamesDistinct ∧
      ∃ order ∈ notes.schema.types, order.name = "Order" ∧
        ∃ (input : Value) (result : Mutation) (m : Nat),
          (notes.schema.planUpdateAll order input (.entities order.id)).outcome ⟨0⟩ =
            (.ok result, ⟨m⟩) ∧
          ∃ x, notes.schema.holdsChildren x = false ∧
            ∃ q ∈ result.plan.nodes, ∃ c d, q.Hazard x c d := by
  have ht : shop.schema.types.get ⟨8, by decide⟩ ∈ shop.schema.types := List.get_mem _ _
  have ht' : notes.schema.types.get ⟨7, by decide⟩ ∈ notes.schema.types := List.get_mem _ _
  refine ⟨⟨_, ht, rfl, ?_⟩, rfl, by decide, _, ht', rfl, ?_⟩
  · let input : Value := .object
      [("addItems", .list [.object [("sku", .string "c")]]), ("removeItems", .list [.string "i2"])]
    have hplanned : ∃ result m, (shop.schema.planUpdateAll (shop.schema.types.get ⟨8, by decide⟩)
        input (.entities (shop.schema.types.get ⟨8, by decide⟩).id)).outcome ⟨0⟩ =
          (.ok result, ⟨m⟩) ∧ result.plan.hazardous ⟨13⟩ = true :=
      Planner.exists_result (by decide +kernel)
    obtain ⟨result, m, hupdate, hfound⟩ := hplanned
    exact ⟨input, result, m, hupdate, _, Plan.exists_hazard hfound⟩
  · let input : Value := .object
      [("updateItems", .list [.object
        [("id", .string "i1"), ("increaseByPrice", .int 2), ("price", .int 1)]])]
    have hplanned : ∃ result m, (notes.schema.planUpdateAll (notes.schema.types.get ⟨7, by decide⟩)
        input (.entities (notes.schema.types.get ⟨7, by decide⟩).id)).outcome ⟨0⟩ =
          (.ok result, ⟨m⟩) ∧ result.plan.hazardous ⟨8⟩ = true :=
      Planner.exists_result (by decide +kernel)
    obtain ⟨result, m, hupdate, hfound⟩ := hplanned
    exact ⟨input, result, m, hupdate, _, by decide, Plan.exists_hazard hfound⟩

end EntityGraph
