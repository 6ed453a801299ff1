import EntityGraph.Proofs.Evaluation
import EntityGraph.Proofs.Reading
import EntityGraph.Proofs.Validity

/-!
# The values of fields

What the read of a field comes to. `Schema.ReadsTo` says it for a store and an object without
mentioning plans, by one rule for each kind of field: relations follow their edges, references find
the entity with the stored key, the identity of an entity is asked for, and every other field has
the value that is stored for it.

The rules exclude each other. In an accepted schema one of them applies to every field, and the plan
that reads a field comes to what this rule says.

## Main definitions

* `Schema.ReadsTo` — the value of a field of an object

## Main results

* `Schema.ReadsTo.unique` — a field has one value
* `accepted_reads_evaluate` — reads of accepted schemas come to the values of fields
-/

namespace EntityGraph

/-- Whether the value of a field is kept in the object itself and not found through it. -/
def FieldDef.Kept (f : FieldDef) : Prop :=
  f.isRelation = false ∧ f.isReference = false ∧ f.isIdentity = false

/-- The key of an entity: its identity if this is what it is referred to by, and else the value of
the key field. -/
def Store.keyOf (store : Store) (key : FieldDef) (entity : Value) : Value :=
  bif key.isIdentity then store.identity entity else store.stored entity key.id

namespace Schema

/-- What a field of an object comes to in a store. Only a reference whose key is not null needs the
entities of a type, and there is no value if the store cannot list them. -/
inductive ReadsTo (s : Schema) (store : Store) (f : FieldDef) (o : Value) : Option Value → Prop
  | relations {side : RelationSide} (hrelation : f.isRelation = true) (hlist : f.isList = true)
      (hside : s.relationSide? f = some side) :
    ReadsTo s store f o (some (.list (store.connected side o)))
  | relation {side : RelationSide} (hrelation : f.isRelation = true) (hlist : f.isList = false)
      (hside : s.relationSide? f = some side) :
    ReadsTo s store f o (some ((store.connected side o).headD .null))
  | nullReference (hrelation : f.isRelation = false) (hreference : f.isReference = true)
      (hnull : (store.stored o f.id).isNull = true) :
    ReadsTo s store f o (some .null)
  | reference {target : TypeDef} {key : FieldDef} (hrelation : f.isRelation = false)
      (hreference : f.isReference = true) (hnull : (store.stored o f.id).isNull = false)
      (htarget : s.target? f = some target) (hkey : target.keyField? = some key) :
    ReadsTo s store f o ((store.entities target.id).map fun entities =>
      (entities.find? (store.keyOf key · == store.stored o f.id)).getD .null)
  | identity (hrelation : f.isRelation = false) (hreference : f.isReference = false)
      (hidentity : f.isIdentity = true) :
    ReadsTo s store f o (some (store.identity o))
  | extension {target : TypeDef} (hkept : f.Kept) (hlist : f.isList = false)
      (htarget : s.target? f = some target) (hkind : target.kind = .entityExtension) :
    ReadsTo s store f o (some (bif (store.stored o f.id).isObject then store.stored o f.id
      else .object []))
  | list (hkept : f.Kept) (hlist : f.isList = true) :
    ReadsTo s store f o (some (bif (store.stored o f.id).isList then store.stored o f.id
      else .list []))
  | value {target : TypeDef} (hkept : f.Kept) (hlist : f.isList = false)
      (htarget : s.target? f = some target) (hkind : target.kind ≠ .entityExtension) :
    ReadsTo s store f o (some (store.stored o f.id))

/-- A field of an object has one value. -/
theorem ReadsTo.unique {s : Schema} {store : Store} {f : FieldDef} {o : Value}
    {r r' : Option Value} (h : s.ReadsTo store f o r) (h' : s.ReadsTo store f o r') : r = r' := by
  cases h <;> cases h' <;> simp_all [FieldDef.Kept]

namespace Lawful

variable {s : Schema} {t : TypeDef} {f key : FieldDef} {source p : Plan} {store : Store}
  {env : Environment} {o : Value}

/-- A field that is no reference reads as its rule says. -/
theorem readsTo_direct (h : s.Lawful) (hf : f ∈ s.fields)
    (hdirect : f.isReference = false ∨ f.isRelation = true)
    (hp : ∀ steps, s.readWithin (steps + 1) f source = pure p)
    (hsource : source.eval store env = some o) : s.ReadsTo store f o (p.eval store env) := by
  obtain ⟨target, htarget⟩ := h.exists_target? hf
  have hplan := congrArg (·.outcome ⟨0⟩) (hp 0)
  simp only [readWithin, htarget] at hplan
  cases hrelation : f.isRelation with
  | true =>
    obtain ⟨side, hside⟩ := h.exists_relationSide? hf hrelation
    have hedges : (Plan.followEdge side source).eval store env =
        some (.list (store.connected side o)) := by
      rw [Plan.eval, hsource]
      rfl
    cases hlist : f.isList with
    | true =>
      obtain rfl : Plan.followEdge side source = p := by simpa [hrelation, hside, hlist] using hplan
      rw [hedges]
      exact .relations hrelation hlist hside
    | false =>
      obtain rfl : (Plan.followEdge side source).firstOfList = p := by
        simpa [hrelation, hside, hlist] using hplan
      rw [Plan.eval, hedges]
      exact .relation hrelation hlist hside
  | false =>
    have hreference : f.isReference = false := by simpa [hrelation] using hdirect
    have hstored : (Plan.field source f.id f.name).eval store env =
        some (store.stored o f.id) := by
      rw [Plan.eval, hsource]
      rfl
    cases hidentity : f.isIdentity with
    | true =>
      obtain rfl : Plan.entityId source = p := by
        simpa [hrelation, hreference, hidentity] using hplan
      rw [Plan.eval, hsource]
      exact .identity hrelation hreference hidentity
    | false =>
      have hkept : f.Kept := ⟨hrelation, hreference, hidentity⟩
      cases hlist : f.isList with
      | true =>
        obtain rfl : (Plan.field source f.id f.name).ensure .list (.list []) = p := by
          simpa [hrelation, hreference, hidentity, hlist] using hplan
        rw [Plan.eval_ensure hstored rfl]
        exact .list hkept hlist
      | false =>
        by_cases hkind : target.kind = .entityExtension
        · obtain rfl : (Plan.field source f.id f.name).ensure .object (.object []) = p := by
            simpa [hrelation, hreference, hidentity, hlist, hkind] using hplan
          rw [Plan.eval_ensure hstored rfl]
          exact .extension hkept hlist htarget hkind
        · obtain rfl : Plan.field source f.id f.name = p := by
            simpa [hrelation, hreference, hidentity, hlist, hkind] using hplan
          rw [hstored]
          exact .value hkept hlist htarget hkind

/-- The key field of an entity reads as its key. -/
theorem eval_key (h : s.Lawful) (ht : t ∈ s.types) (hkey : t.keyField? = some key)
    (hp : ∀ steps, s.readWithin (steps + 1) key source = pure p)
    (hsource : source.eval store env = some o) : p.eval store env = some (store.keyOf key o) := by
  obtain ⟨hmem, hreference, hrelation⟩ := h.key_direct ht hkey
  obtain ⟨hsingle, target, htarget, hplain⟩ := isKeyable_iff.1 (h.key_keyable ht hkey).2
  have hreads := h.readsTo_direct (mem_fields ht hmem) (.inl hreference) hp hsource
  -- A key is a single scalar or enum, so it is the identity or kept in the entity as it is.
  cases hidentity : key.isIdentity with
  | true =>
    rw [Store.keyOf, hidentity]
    exact hreads.unique (.identity hrelation hreference hidentity)
  | false =>
    have hkind : target.kind ≠ .entityExtension := by
      intro hkind
      rw [hkind] at hplain
      cases hplain
    rw [Store.keyOf, hidentity]
    exact hreads.unique (.value ⟨hrelation, hreference, hidentity⟩ hsingle htarget hkind)

/-- A reference reads as the entity with the stored key, provided the candidate is no variable of
the source. -/
theorem exists_readsTo_reference (h : s.Lawful) (hf : f ∈ s.fields)
    (hreference : f.isReference = true) (hrelation : f.isRelation = false) {supply : Supply}
    (hfresh : ∀ v, .var v ∈ source.nodes → v.id ≠ supply.next) :
    ∃ p rest, (s.read f source).outcome supply = (.ok p, rest) ∧ ∀ store env o,
      source.eval store env = some o → s.ReadsTo store f o (p.eval store env) := by
  obtain ⟨target, key, candidateKey, htarget, hkey, hcandidateKey, hp⟩ :=
    h.readWithin_reference hf hreference hrelation source
  let candidate : Variable := ⟨supply.next, "candidate"⟩
  refine ⟨.lookupByKey target.id candidate (candidateKey candidate) (.field source f.id f.name),
    ⟨supply.next + 1⟩, ?_, fun store env o hsource => ?_⟩
  · obtain ⟨extra, hextra⟩ := Nat.exists_eq_add_of_le h.two_le_budget
    rw [read, hextra, Nat.add_comm, hp extra, Planner.outcome_bind, outcome_fresh]
    exact Planner.outcome_pure _ _
  · -- The source means the same where the candidate is bound, since it does not mention it.
    have hsame : ∀ x, source.eval store (env.bind candidate x) = some o := by
      intro x
      rw [← hsource]
      refine Plan.eval_congr fun q hq v hv => env.bind_of_ne ?_ x
      exact hfresh v (hv ▸ hq)
    have hstored : ∀ env', source.eval store env' = some o →
        (Plan.field source f.id f.name).eval store env' = some (store.stored o f.id) := by
      intro env' henv'
      rw [Plan.eval, henv']
      rfl
    have hcandidate : ∀ x, (candidateKey candidate).eval store (env.bind candidate x) =
        some (store.keyOf key x) := by
      intro x
      refine h.eval_key (mem_types_of_target? htarget) hkey (hcandidateKey candidate) ?_
      exact env.bind_self candidate x
    rw [Plan.eval_lookupByKey (hstored env hsource) (fun x => hstored _ (hsame x)) hcandidate]
    cases hnull : (store.stored o f.id).isNull with
    | true => exact .nullReference hrelation hreference hnull
    | false => exact .reference hrelation hreference hnull htarget hkey

/-- Every read comes to what the rule for the field says. -/
theorem exists_readsTo (h : s.Lawful) (hf : f ∈ s.fields) {supply : Supply}
    (hfresh : ∀ v, .var v ∈ source.nodes → v.id ≠ supply.next) :
    ∃ p rest, (s.read f source).outcome supply = (.ok p, rest) ∧ ∀ store env o,
      source.eval store env = some o → s.ReadsTo store f o (p.eval store env) := by
  by_cases hdirect : f.isReference = false ∨ f.isRelation = true
  · obtain ⟨p, hp⟩ := h.readWithin_direct hf hdirect source
    refine ⟨p, supply, ?_, fun store env o hsource => h.readsTo_direct hf hdirect hp hsource⟩
    rw [read, hp, Planner.outcome_pure]
  · simp only [not_or, Bool.not_eq_false, Bool.not_eq_true] at hdirect
    exact h.exists_readsTo_reference hf hdirect.1 hdirect.2 hfresh

end Lawful

end Schema

/-- **Reads mean what the rules say.** In an accepted schema every field can be read from every
source that does not mention the next variable of the supply, and none does whose own variables were
drawn before. Wherever the source comes to an object, the plan comes to the value of the field of
this object. -/
theorem accepted_reads_evaluate {decl : SchemaDecl} {a : AcceptedSchema}
    (h : decl.accept = .ok a) {f : FieldDef} (hf : f ∈ a.schema.fields) {source : Plan}
    {supply : Supply} (hfresh : ∀ v, .var v ∈ source.nodes → v.id ≠ supply.next) :
    ∃ p rest, (a.schema.read f source).outcome supply = (.ok p, rest) ∧ ∀ store env o,
      source.eval store env = some o →
        ∀ r, p.eval store env = r ↔ a.schema.ReadsTo store f o r := by
  obtain ⟨p, rest, hp, hreads⟩ := (SchemaDecl.lawful_of_accept h).exists_readsTo hf hfresh
  refine ⟨p, rest, hp, fun store env o hsource r => ⟨fun hr => ?_, fun hr => ?_⟩⟩
  · rw [← hr]
    exact hreads store env o hsource
  · exact (hreads store env o hsource).unique hr

/-- Objects that hold the values of their fields under the numbers of the fields. -/
def documents (entities : TypeId → Option (List Value)) : Store where
  entities
  identity o := (o.get? identityName).getD .null
  stored? o f := o.get? (toString f)
  connected _ _ := []
  calculate _ _ _ := none

/-- In the shop, the payer of an order is the customer with the email that the order holds. An order
that holds none has no payer, also where the customers cannot be listed. -/
theorem shop_payer_found : ∃ f ∈ shop.schema.fields, f.name = "payer" ∧ ∃ p rest,
    (shop.schema.read f (.var ⟨0, "order"⟩)).outcome ⟨1⟩ = (.ok p, rest) ∧
      p.eval (documents fun _ =>
          some [.object [("f3", .string "ann")], .object [("f3", .string "bob")]])
        (fun _ => some (.object [("f12", .string "bob")])) =
          some (.object [("f3", .string "bob")]) ∧
      p.eval (documents fun _ => none) (fun _ => some (.object [])) = some .null := by
  have hf : shop.schema.fields.get ⟨12, by decide⟩ ∈ shop.schema.fields := List.get_mem _ _
  have hfresh : ∀ v, .var v ∈ (Plan.var ⟨0, "order"⟩).nodes → v.id ≠ Supply.next ⟨1⟩ := by
    intro v hv
    obtain rfl : v = ⟨0, "order"⟩ := by simpa [Plan.nodes, Plan.inside] using hv
    exact Nat.zero_ne_one
  obtain ⟨p, rest, hp, heval⟩ := accepted_reads_evaluate accept_shopDecl hf hfresh
  refine ⟨_, hf, rfl, p, rest, hp, ?_, (heval _ _ _ rfl _).2 (.nullReference rfl rfl rfl)⟩
  have hkey : (shop.schema.types.get ⟨7, by decide⟩).keyField? =
    some (shop.schema.fields.get ⟨3, by decide⟩) := rfl
  exact (heval _ _ _ rfl _).2 (.reference rfl rfl rfl rfl hkey)

end EntityGraph
