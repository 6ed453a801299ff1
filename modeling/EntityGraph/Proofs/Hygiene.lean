import EntityGraph.Proofs.Binding
import EntityGraph.Proofs.Steps

/-!
# Variables of generated plans

Every plan that is made binds exactly the variables that were drawn for it, each once, and mentions
a variable only where it is bound. So a plan that depends on nothing else is closed, and one that is
made around a plan of somebody else captures nothing in it, if the variables in there were drawn
before.

Parts of plans are used twice: the stored value of a field, the key of a candidate, the child that
an update is for. That no variable is bound twice rests on these parts binding none. For keys this
needs an accepted schema, in which a key is never a reference and is read without a look-up.

## Main definitions

* `Plan.Hygienic` — the variables of a plan made between two states of the supply

## Main results

* `Schema.Lawful.read_fresh`, `readObject_fresh`, `listing_fresh` — reads
* `Schema.stable_fresh` — changes of input objects
* `generated_plans_hygienic` — mutations, reads and listings
-/

namespace EntityGraph

open Plan (Fresh)

variable {leaf : Option Plan} {scope : List Variable} {n k m : Nat} {source current : Plan}

/-! ### Reads -/

namespace Plan.Fresh

theorem ensure {value fallback : Plan} {shape : ValueShape} (h : Fresh leaf scope n [value] n)
    (hfallback : Fresh leaf scope n [fallback] n) :
    Fresh leaf scope n [value.ensure shape fallback] n := by
  have htest : Fresh leaf scope n [.typeCheck value shape] n := .plain rfl rfl h
  exact .plain rfl rfl (htest.cons (h.cons hfallback))

theorem storedField (h : Fresh leaf scope n [source] n) (f : FieldDef) :
    Fresh leaf scope n [.field source f.id f.name] n := .plain rfl rfl h

theorem literal (v : Value) : Fresh leaf scope n [.literal v] n := .plain rfl rfl .nil

theorem binary {op : BinaryOperator} {lhs rhs : Plan} (hlhs : Fresh leaf scope n [lhs] k)
    (hrhs : Fresh leaf scope k [rhs] m) : Fresh leaf scope n [.binary op lhs rhs] m :=
  .plain rfl rfl (hlhs.cons hrhs)

/-- A look-up binds its candidate. -/
theorem lookup {type : TypeId} {label : String} {filter : Plan}
    (h : Fresh leaf (⟨n, label⟩ :: scope) (n + 1) [filter] (n + 1)) :
    Fresh leaf scope n [.lookup type ⟨n, label⟩ filter] (n + 1) := by
  have hentities : Fresh leaf scope n [.entities type] n := .plain rfl rfl .nil
  exact .plain rfl rfl (.bind rfl hentities h)

/-- A look-up by a key that binds nothing binds its candidate, though the key and the stored value
stand in it twice. -/
theorem lookupByKey {type : TypeId} {label : String} {candidateKey stored : Plan}
    (hkey : Fresh leaf (⟨n, label⟩ :: scope) (n + 1) [candidateKey] (n + 1))
    (hstored : Fresh leaf scope n [stored] n) :
    Fresh leaf scope n [.lookupByKey type ⟨n, label⟩ candidateKey stored] (n + 1) := by
  have hinner := (hstored.shift (n + 1)).mono (List.subset_cons_self (⟨n, label⟩ : Variable) scope)
  have hlookup : Fresh leaf scope n [.lookup type ⟨n, label⟩
      (.and (.eq candidateKey stored) (.ne candidateKey .null))] (n + 1) :=
    lookup (binary (hkey.binary hinner) (hkey.binary (literal .null)))
  have htest : Fresh leaf scope n [.eq stored .null] n := hstored.binary (literal .null)
  exact .plain rfl rfl (htest.cons ((literal .null).cons hlookup))

end Plan.Fresh

namespace Schema

variable {s : Schema} {t : TypeDef} {f : FieldDef}

/-- Reading anything but a reference binds nothing, however often the source is used. -/
theorem readWithin_fresh (s : Schema) (steps : Nat) (hsource : Fresh leaf scope n [source] n)
    (hdirect : f.isReference = false ∨ f.isRelation = true) :
    (s.readWithin steps f source).Yields n fun p m => m = n ∧ Fresh leaf scope n [p] n := by
  cases steps with
  | zero => exact .throw
  | succ steps =>
    have hstored := hsource.storedField f
    rw [readWithin]
    cases s.target? f with
    | none => exact .throw
    | some target =>
      simp only
      split
      · split
        · exact .throw
        · refine .pure ⟨rfl, ?_⟩
          split
          · exact .plain rfl rfl hsource
          · exact .plain rfl rfl (.plain rfl rfl hsource)
      · next hrelation =>
        rw [if_neg (by simpa [hrelation] using hdirect)]
        split
        · exact .pure ⟨rfl, .plain rfl rfl hsource⟩
        · split
          · exact .pure ⟨rfl, hstored.ensure (.plain rfl rfl .nil)⟩
          · split
            · exact .pure ⟨rfl, hstored.ensure (.plain rfl rfl .nil)⟩
            · exact .pure ⟨rfl, hstored⟩

namespace Lawful

/-- Reading a field binds what is drawn for it. -/
theorem read_fresh (h : s.Lawful) (f : FieldDef) (hsource : Fresh leaf scope n [source] n) :
    (s.read f source).Yields n fun p m => Fresh leaf scope n [p] m := by
  by_cases hdirect : f.isReference = false ∨ f.isRelation = true
  · exact (s.readWithin_fresh _ hsource hdirect).imp fun p m hp => hp.1 ▸ hp.2
  · simp only [not_or, Bool.not_eq_false, Bool.not_eq_true] at hdirect
    rw [read, readWithin]
    cases htarget : s.target? f with
    | none => exact .throw
    | some target =>
      simp only [hdirect.1, hdirect.2, Bool.false_eq_true, if_false, if_true]
      cases hkey : referenceKey? target with
      | none => exact .throw
      | some key =>
        refine .bindFresh ?_
        -- The key stands twice in the filter, and binds nothing because it is read directly.
        have hkeyDirect : key.isReference = false ∨ key.isRelation = true := by
          rw [referenceKey?] at hkey
          split at hkey
          · exact .inl (h.key_direct (mem_types_of_target? htarget) hkey).2.1
          · cases hkey
        have hcandidate : Fresh leaf (⟨n, "candidate"⟩ :: scope) (n + 1) [.var ⟨n, "candidate"⟩]
            (n + 1) := .var List.mem_cons_self
        refine (s.readWithin_fresh _ hcandidate hkeyDirect).bind ?_
        rintro candidateKey _ ⟨rfl, hcandidateKey⟩
        exact .pure (hcandidateKey.lookupByKey (hsource.storedField f))

theorem readObject_fresh (h : s.Lawful) (t : TypeDef) (hsource : Fresh leaf scope n [source] n) :
    (s.readObject t source).Yields n fun p m => Fresh leaf scope n [p] m := by
  rw [readObject]
  refine (Planner.Yields.mapM (R := fun _ n property m => Fresh leaf scope n [property.2] m)
    fun f _ n => ?_).bind fun properties m hproperties => .pure (.plain rfl rfl ?_)
  · exact (h.read_fresh f (hsource.shift n)).bind fun p m hp => .pure hp
  · refine hproperties.fold (S := fun n (properties : List (String × Plan)) m =>
      Fresh leaf scope n (properties.map (·.2)) m) (fun _ => .nil) ?_
    exact fun f _ n property k rest m hhead htail => hhead.cons htail

theorem listing_fresh (h : s.Lawful) (t : TypeDef) :
    (s.listing t).Yields n fun p m => Fresh none [] n [p] m := by
  rw [listing]
  refine .bindFresh ?_
  have hitem : Fresh none [⟨n, "entity"⟩] (n + 1) [.var ⟨n, "entity"⟩] (n + 1) :=
    .var List.mem_cons_self
  refine (h.readObject_fresh t hitem).bind fun inner m hinner => .pure ?_
  exact .bind rfl (.plain rfl rfl .nil) hinner

end Lawful

/-! ### Changes -/

variable {shape : Shape} {u : Value} {p : Plan}

/-- The changes of an input object bind what is drawn for them, and mention no other variable than
that of the object. -/
def BindsDrawn : StepLaw := fun _ _ b n steps m => Fresh none [b] n steps m

theorem fresh_identitySteps (t : TypeDef) : Fresh none scope n (Shape.identitySteps t) n := by
  rw [Shape.identitySteps]
  split
  · split
    · exact .plain rfl rfl (.plain rfl rfl .nil)
    · exact .nil
  · exact .nil

theorem fresh_of_creates (h : shape.Creates BindsDrawn u n p m) : Fresh none scope n [p] m := by
  obtain ⟨steps, rfl, hsteps⟩ := h
  have hchanges : Fresh none (⟨n, "new"⟩ :: scope) (n + 1) steps m :=
    Fresh.mono hsteps (List.cons_subset_cons _ (List.nil_subset _))
  exact .bind rfl .nil ((fresh_identitySteps shape.type).append hchanges)

theorem fresh_of_updates {target : Plan} (htarget : Fresh none scope n [target] k)
    (h : shape.Updates BindsDrawn target u k p m) : Fresh none scope n [p] m := by
  obtain ⟨steps, rfl, hsteps⟩ := h
  have hchanges : Fresh none (⟨k, "target"⟩ :: scope) (k + 1) steps m :=
    Fresh.mono hsteps (List.cons_subset_cons _ (List.nil_subset _))
  exact .bind rfl htarget hchanges

theorem fresh_of_chain {us : List Value} {ps : List Plan}
    (h : Chain (shape.Creates BindsDrawn) us n ps m) : Fresh none scope n ps m :=
  h.fold (fun _ => .nil) fun _ _ _ _ _ _ _ hhead htail => (fresh_of_creates hhead).cons htail

theorem fresh_storedParts (i : Input) (hcurrent : Fresh leaf scope n [current] n) :
    Fresh leaf scope n [i.storedParts current] n := by
  have hstored := hcurrent.storedField i.field
  rw [Input.storedParts]
  split
  · exact hstored.ensure (.plain rfl rfl .nil)
  · exact hstored.ensure (.plain rfl rfl .nil)

/-- Each update of the children mentions the child, which is bound once for all of them. -/
theorem fresh_updateChain {child : Variable} (hchild : child ∈ scope) {us : List Value}
    {updates : List (Value × Plan)} (h : Chain (fun u k update l =>
      update.1 = (u.get? identityName).getD .null ∧
        shape.Updates BindsDrawn (.var child) u k update.2 l) us n updates m) :
    Fresh none scope n [updateChain child updates] m := by
  refine h.fold (S := fun n updates m => Fresh none scope n [updateChain child updates] m)
    (fun _ => .var hchild) ?_
  rintro u - n ⟨id, step⟩ k rest m ⟨-, hstep⟩ hrest
  have hid : Fresh none scope n [.entityId (.var child)] n := .plain rfl rfl (.var hchild)
  have htest : Fresh none scope n [.eq (.entityId (.var child)) (.literal id)] n :=
    hid.binary (.literal id)
  exact .plain rfl rfl (htest.cons ((fresh_of_updates (.var hchild) hstep).cons hrest))

/-- Changes of input objects bind what is drawn: each form of steps does. -/
theorem stable_fresh (s : Schema) : s.Stable BindsDrawn where
  nil := fun _ _ _ _ => .nil
  append := Fresh.append
  input := by
    intro shape u w b n m i form steps _ _ _ hmakes
    have hcurrent : ∀ k, Fresh none [b] k [.var b] k := fun k => .var List.mem_cons_self
    have hstored := fresh_storedParts i (hcurrent n)
    have hset : ∀ {value : Plan} {n m : Nat}, Fresh none [b] n [value] m →
        Fresh none [b] n [i.set value] m := fun h => .plain rfl rfl h
    cases hmakes with
    | nothing => exact .nil
    | literal => exact hset (.literal w)
    | combine => exact hset (Fresh.binary ((hcurrent n).storedField i.field) (.literal w))
    | newObject _ _ hp => exact hset (fresh_of_creates hp)
    | newObjects _ _ hps => exact hset (.plain rfl rfl (fresh_of_chain hps))
    | addChildren _ _ hps => exact hset (hstored.binary (.plain rfl rfl (fresh_of_chain hps)))
    | updateExtension _ _ hp => exact hset (fresh_of_updates hstored hp)
    | updateChildren _ _ hupdates =>
      exact hset (.bind rfl hstored (fresh_updateChain List.mem_cons_self hupdates))
    | removeChildren =>
      have hid : Fresh none [⟨n, "child"⟩, b] (n + 1) [.entityId (.var ⟨n, "child"⟩)] (n + 1) :=
        .plain rfl rfl (.var List.mem_cons_self)
      exact hset (.bind rfl hstored (.plain rfl rfl (hid.binary (.literal w))))
    | addEdges | removeEdges => exact .plain rfl rfl ((hcurrent n).cons (.literal w))
    | setEdge =>
      refine .plain rfl rfl ((hcurrent n).cons ?_)
      split
      · exact .nil
      · exact .literal w
    | createAndAddEdges _ _ _ hps =>
      exact .plain rfl rfl ((hcurrent n).cons (.plain rfl rfl (fresh_of_chain hps)))
    | createAndSetEdge _ _ _ hp =>
      exact .plain rfl rfl ((hcurrent n).cons (fresh_of_creates hp))

/-! ### Mutations -/

theorem fresh_entityById (type : TypeId) (id : Value) : Fresh none scope n
    [.lookup type ⟨n, "candidate"⟩ (.eq (.entityId (.var ⟨n, "candidate"⟩)) (.literal id))]
    (n + 1) := by
  have hid : Fresh none (⟨n, "candidate"⟩ :: scope) (n + 1) [.entityId (.var ⟨n, "candidate"⟩)]
      (n + 1) := .plain rfl rfl (.var List.mem_cons_self)
  exact .lookup (hid.binary (.literal id))

theorem planDelete_fresh (t : TypeDef) (id : Value) :
    (planDelete t id).Yields n fun result m => Fresh none [] n [result.plan] m := by
  refine .bindExcept fun _ _ => .bindExcept fun id _ => ?_
  rw [entityById, bind_assoc]
  refine .bindFresh ?_
  rw [pure_bind]
  exact .pure (.plain rfl rfl (fresh_entityById t.id id))

end Schema

/-- The variables of a plan that was made while the supply went from `n` to `m`. Every variable in
the plan stands in the scope of the step that binds it, and the variables that are bound were drawn
meanwhile, each of them for one step. If all variables in the leaf were drawn before, none of them
is the variable of such a step. -/
structure Plan.Hygienic (leaf : Option Plan) (n m : Nat) (p : Plan) (binders : List Variable) :
    Prop where
  closed : Plan.Scoped leaf [] [p] binders
  inRange : ∀ b ∈ binders, n ≤ b.id ∧ b.id < m
  distinct : (binders.map (·.id)).Nodup
  uncaptured : ∀ q ∈ leaf, (∀ v, .var v ∈ q.nodes → v.id < n) →
    ∀ b ∈ binders, ∀ v, .var v ∈ q.nodes → b.id ≠ v.id

theorem Plan.Fresh.hygienic {p : Plan} (h : Fresh leaf [] n [p] m) :
    ∃ binders, p.Hygienic leaf n m binders := by
  obtain ⟨binders, hscoped, hdrawn⟩ := h
  refine ⟨binders, hscoped, fun b hb => hdrawn.inRange hb, hdrawn.nodup, ?_⟩
  intro q _ hold b hb v hv
  have hbefore := hold v hv
  have hafter := (hdrawn.inRange hb).1
  omega

/-- **Generated plans are hygienic.** In an accepted schema, the plans that create, update, delete
or list objects are closed, and each variable that they bind was drawn for them and is bound once.
The same holds for updates of many objects and for reads, with the plan of the targets or of the
source taken as it is: if its variables were drawn before, none of them is captured. -/
theorem generated_plans_hygienic {decl : SchemaDecl} {a : AcceptedSchema}
    (h : decl.accept = .ok a) {t : TypeDef} (ht : t ∈ a.schema.types) (n m : Nat) :
    (∀ input result, (a.schema.planCreate t input).outcome ⟨n⟩ = (.ok result, ⟨m⟩) →
      ∃ binders, result.plan.Hygienic none n m binders) ∧
    (∀ input result, (a.schema.planUpdate t input).outcome ⟨n⟩ = (.ok result, ⟨m⟩) →
      ∃ binders, result.plan.Hygienic none n m binders) ∧
    (∀ id result, (Schema.planDelete t id).outcome ⟨n⟩ = (.ok result, ⟨m⟩) →
      ∃ binders, result.plan.Hygienic none n m binders) ∧
    (∀ p, (a.schema.listing t).outcome ⟨n⟩ = (.ok p, ⟨m⟩) →
      ∃ binders, p.Hygienic none n m binders) ∧
    (∀ input targets result,
      (a.schema.planUpdateAll t input targets).outcome ⟨n⟩ = (.ok result, ⟨m⟩) →
      ∃ binders, result.plan.Hygienic (some targets) n m binders) ∧
    (∀ f source p, (a.schema.read f source).outcome ⟨n⟩ = (.ok p, ⟨m⟩) →
      ∃ binders, p.Hygienic (some source) n m binders) ∧
    ∀ source p, (a.schema.readObject t source).outcome ⟨n⟩ = (.ok p, ⟨m⟩) →
      ∃ binders, p.Hygienic (some source) n m binders := by
  have hs := SchemaDecl.lawful_of_accept h
  have hstable := a.schema.stable_fresh
  have hsource : ∀ source, Fresh (some source) [] n [source] n := fun source => .ofLeaf rfl
  refine ⟨fun input result hp => ?_, fun input result hp => ?_, fun id result hp => ?_,
    fun p hp => ?_, fun input targets result hp => ?_, fun f source p hp => ?_,
    fun source p hp => ?_⟩
  · obtain ⟨shape, value, -, -, hcreates⟩ := (hstable.planCreate ht).result hp
    exact (Schema.fresh_of_creates hcreates).hygienic
  · obtain ⟨shape, value, id, -, -, hupdates⟩ := (hstable.planUpdate ht).result hp
    exact (Schema.fresh_of_updates (Schema.fresh_entityById t.id id) hupdates).hygienic
  · exact ((Schema.planDelete_fresh t id).result hp).hygienic
  · exact ((hs.listing_fresh t).result hp).hygienic
  · obtain ⟨shape, value, update, -, -, hplan, hupdates⟩ :=
      (hstable.planUpdateAll ht targets).result hp
    rw [hplan]
    have hupdate : Fresh none [⟨n, "item"⟩] (n + 1) [update] m :=
      Schema.fresh_of_updates (.var List.mem_cons_self) hupdates
    exact (Fresh.bind rfl (hsource targets) hupdate.withLeaf).hygienic
  · exact ((hs.read_fresh f (hsource source)).result hp).hygienic
  · exact ((hs.readObject_fresh t (hsource source)).result hp).hygienic

/-- In the shop, orders that an outer plan has bound are updated: one of their items is changed, and
another one is removed. -/
theorem shop_orders_hygienic : ∃ order ∈ shop.schema.types, order.name = "Order" ∧
    ∃ (input : Value) (result : Mutation) (m : Nat) (binders : List Variable),
      (shop.schema.planUpdateAll order input (.var ⟨2, "orders"⟩)).outcome ⟨3⟩ =
        (.ok result, ⟨m⟩) ∧
      result.plan.Hygienic (some (.var ⟨2, "orders"⟩)) 3 m binders := by
  have ht : shop.schema.types.get ⟨8, by decide⟩ ∈ shop.schema.types := List.get_mem _ _
  let input : Value := .object
    [("removeItems", .list [.string "i2"]),
      ("updateItems", .list [.object [("id", .string "i1"), ("sku", .string "b")]])]
  have hplanned : ∃ result m, (shop.schema.planUpdateAll
      (shop.schema.types.get ⟨8, by decide⟩) input (.var ⟨2, "orders"⟩)).outcome ⟨3⟩ =
        (.ok result, ⟨m⟩) := ⟨_, _, rfl⟩
  obtain ⟨result, m, hupdate⟩ := hplanned
  obtain ⟨binders, hhygienic⟩ :=
    (generated_plans_hygienic accept_shopDecl ht 3 m).2.2.2.2.1 input _ result hupdate
  exact ⟨_, ht, rfl, input, result, m, binders, hupdate, hhygienic⟩

end EntityGraph
