import EntityGraph.Plan.Read
import EntityGraph.Proofs.Nodes
import EntityGraph.Proofs.Pairing

/-!
# Reads of accepted schemas

A read can only go on from a reference to the key of its target. In a lawful schema a key is a
single scalar or enum, while relations and references lead to root entities; so a key is neither,
and the read of a key is over after one step. Every read therefore needs a budget of at most two
steps, and with such a budget it succeeds.

The check of keys does not look at references or relations at all. That keys are neither follows
from two rules together: what a key may hold, and what relations and references may lead to.

## Main results

* `Schema.readWithin_readOnly` — reading from a read-only source is read-only, in any schema
* `Schema.Lawful.key_direct` — keys are neither references nor relations
* `Schema.Lawful.exists_readWithin` — every budget of two or more steps finds the same result
* `accepted_reads_succeed` — reads, objects and listings of an accepted schema succeed
-/

namespace EntityGraph

namespace Plan

@[simp] theorem readOnly_ensure {value fallback : Plan} {shape : ValueShape} :
    (value.ensure shape fallback).ReadOnly ↔ value.ReadOnly ∧ fallback.ReadOnly := by
  simp [ensure]

@[simp] theorem readOnly_lookup {type : TypeId} {candidate : Variable} {filter : Plan} :
    (lookup type candidate filter).ReadOnly ↔ filter.ReadOnly := by
  simp [lookup]

@[simp] theorem readOnly_lookupByKey {type : TypeId} {candidate : Variable}
    {candidateKey stored : Plan} : (lookupByKey type candidate candidateKey stored).ReadOnly ↔
      stored.ReadOnly ∧ candidateKey.ReadOnly := by
  simp only [lookupByKey, eq, ne, and, readOnly_conditional, readOnly_lookup, readOnly_binary,
    readOnly_null, and_true, true_and]
  tauto

end Plan

namespace Schema

/-! ### Reading does not write -/

/-- A read of a read-only source is read-only. -/
theorem readWithin_readOnly (s : Schema) (steps : Nat) (f : FieldDef) {source : Plan}
    (hsource : source.ReadOnly) :
    (s.readWithin steps f source).Ensures Plan.ReadOnly fun _ => True := by
  induction steps generalizing f source with
  | zero => exact .throw trivial
  | succ steps ih =>
    rw [readWithin]
    cases s.target? f with
    | none => exact .throw trivial
    | some target =>
      simp only
      split
      · split
        · exact .throw trivial
        · refine .pure ?_
          split <;> simpa
      · split
        · split
          · exact .throw trivial
          · refine (Planner.Ensures.fresh _).bind fun candidate _ => ?_
            refine (ih _ (Plan.readOnly_var candidate)).bind fun candidateKey hkey => .pure ?_
            simpa using ⟨hsource, hkey⟩
        · split
          · exact .pure (by simpa)
          · split
            · exact .pure (by simpa)
            · split
              · exact .pure (by simpa)
              · exact .pure (by simpa)

/-! ### Keys -/

namespace Lawful

variable {s : Schema} {t : TypeDef} {f key : FieldDef}

/-- A key is a field of its type that may be a key. -/
theorem key_keyable (h : s.Lawful) (ht : t ∈ s.types) (hkey : t.keyField? = some key) :
    key ∈ t.fields ∧ s.isKeyable key = true := by
  obtain ⟨name, hname, hfield⟩ := Option.bind_eq_some_iff.1 hkey
  obtain ⟨-, key', hfield', hkeyable⟩ := h.keyRules ht name hname
  obtain rfl : key' = key := Option.some.inj (hfield'.symm.trans hfield)
  exact ⟨TypeDef.mem_of_field? hfield, hkeyable⟩

/-- A key is neither a reference nor a relation. -/
theorem key_direct (h : s.Lawful) (ht : t ∈ s.types) (hkey : t.keyField? = some key) :
    key ∈ t.fields ∧ key.isReference = false ∧ key.isRelation = false := by
  obtain ⟨hmem, hkeyable⟩ := h.key_keyable ht hkey
  refine ⟨hmem, ?_⟩
  cases hsystem : key.isSystem with
  | true =>
    have hplain := h.built.maintained ht hmem hsystem
    exact ⟨hplain.noReference, hplain.noRelation⟩
  | false =>
    obtain ⟨target, htarget, hrules⟩ := h.typedRules ht hmem hsystem
    -- What a key holds is plain, and plain types are no targets of references or relations.
    have hplain : target.kind.isPlain = true := by
      rw [isKeyable, htarget] at hkeyable
      simpa using (Bool.and_eq_true_iff.1 hkeyable).2
    have hnotRoot : target.isRoot ≠ true := by
      intro hroot
      have hobject := isObject_of_isRoot hroot
      rw [TypeKind.isObject_eq_not_isPlain, hplain] at hobject
      cases hobject
    constructor
    · by_contra hreference
      exact hnotRoot (hrules.reference (by simpa using hreference)).root
    · by_contra hrelation
      exact hnotRoot (hrules.relation (by simpa using hrelation)).targetRoot

/-! ### Reads succeed -/

theorem exists_target? (h : s.Lawful) (hf : f ∈ s.fields) :
    ∃ target, s.target? f = some target := by
  obtain ⟨t, ht, hft⟩ := exists_type_of_mem_fields hf
  cases hsystem : f.isSystem with
  | true =>
    obtain ⟨target, htarget, -⟩ := h.built.target?_system ht hft hsystem
    exact ⟨target, htarget⟩
  | false =>
    obtain ⟨target, htarget, -⟩ := h.typedRules ht hft hsystem
    exact ⟨target, htarget⟩

theorem exists_relationSide? (h : s.Lawful) (hf : f ∈ s.fields) (hrelation : f.isRelation = true) :
    ∃ side, s.relationSide? f = some side := by
  obtain ⟨r, hr, -⟩ := h.ends_see_relation hf hrelation
  exact ⟨_, by rw [relationSide?, hr]; rfl⟩

/-- A field that is no reference is read in one step. -/
theorem readWithin_direct (h : s.Lawful) (hf : f ∈ s.fields)
    (hdirect : f.isReference = false ∨ f.isRelation = true) (source : Plan) :
    ∃ p, ∀ steps, s.readWithin (steps + 1) f source = pure p := by
  obtain ⟨target, htarget⟩ := h.exists_target? hf
  cases hrelation : f.isRelation with
  | true =>
    obtain ⟨side, hside⟩ := h.exists_relationSide? hf hrelation
    refine ⟨if f.isList then .followEdge side source else .firstOfList (.followEdge side source),
      fun steps => ?_⟩
    rw [readWithin, htarget]
    simp only [hrelation, hside, if_true]
  | false =>
    have hreference : f.isReference = false := by simpa [hrelation] using hdirect
    refine ⟨if f.isIdentity then .entityId source
      else if target.kind = .entityExtension ∧ f.isList = false then
        (Plan.field source f.id f.name).ensure .object (.object [])
      else if f.isList then (Plan.field source f.id f.name).ensure .list (.list [])
      else .field source f.id f.name, fun steps => ?_⟩
    rw [readWithin, htarget]
    simp only [hrelation, hreference, Bool.false_eq_true, if_false]
    split
    · rfl
    · split
      · rfl
      · split <;> rfl

/-- A reference is read in two steps: its own and that of the key of its target. -/
theorem readWithin_reference (h : s.Lawful) (hf : f ∈ s.fields) (hreference : f.isReference = true)
    (hrelation : f.isRelation = false) (source : Plan) :
    ∃ (target : TypeDef) (key : FieldDef) (candidateKey : Variable → Plan),
      s.target? f = some target ∧ target.keyField? = some key ∧
      (∀ candidate steps,
        s.readWithin (steps + 1) key (.var candidate) = pure (candidateKey candidate)) ∧
      ∀ steps, s.readWithin (steps + 2) f source = (do
        let candidate ← fresh "candidate"
        return .lookupByKey target.id candidate (candidateKey candidate)
          (.field source f.id f.name)) := by
  obtain ⟨t, ht, hft⟩ := exists_type_of_mem_fields hf
  have hdeclared : f.isSystem = false := by
    by_contra hsystem
    have hno := (h.built.maintained ht hft (by simpa using hsystem)).noReference
    rw [hreference] at hno
    cases hno
  obtain ⟨target, htarget, hrules⟩ := h.typedRules ht hft hdeclared
  have hreferenceRules := hrules.reference hreference
  obtain ⟨key, hkey⟩ := Option.ne_none_iff_exists'.1 hreferenceRules.key
  have htypes : target ∈ s.types := mem_types_of_target? htarget
  obtain ⟨hmem, hkeyReference, -⟩ := h.key_direct htypes hkey
  have hdirect := h.readWithin_direct (mem_fields htypes hmem) (.inl hkeyReference)
  choose candidateKey hcandidateKey using fun candidate => hdirect (.var candidate)
  refine ⟨target, key, candidateKey, htarget, hkey, hcandidateKey, fun steps => ?_⟩
  have hreferenceKey : referenceKey? target = some key := by
    rw [referenceKey?, if_pos hreferenceRules.root, hkey]
  rw [readWithin, htarget]
  simp only [hrelation, hreference, hreferenceKey, Bool.false_eq_true, if_false, if_true]
  refine congrArg (fresh "candidate" >>= ·) (funext fun candidate => ?_)
  rw [hcandidateKey candidate steps, pure_bind]

/-- From every supply a read has one result, which every budget of two or more steps finds. -/
theorem exists_readWithin (h : s.Lawful) (hf : f ∈ s.fields) (source : Plan) (supply : Supply) :
    ∃ p rest, (∀ steps, 2 ≤ steps →
        (s.readWithin steps f source).outcome supply = (.ok p, rest)) ∧
      (source.ReadOnly → p.ReadOnly) := by
  have hfound : ∃ p rest, ∀ steps, (s.readWithin (steps + 2) f source).outcome supply
      = (.ok p, rest) := by
    by_cases hdirect : f.isReference = false ∨ f.isRelation = true
    · obtain ⟨p, hp⟩ := h.readWithin_direct hf hdirect source
      exact ⟨p, supply, fun steps => by rw [hp (steps + 1), Planner.outcome_pure]⟩
    · simp only [not_or, Bool.not_eq_false, Bool.not_eq_true] at hdirect
      obtain ⟨target, -, candidateKey, -, -, -, hp⟩ :=
        h.readWithin_reference hf hdirect.1 hdirect.2 source
      let candidate : Variable := ⟨supply.next, "candidate"⟩
      refine ⟨.lookupByKey target.id candidate (candidateKey candidate)
        (.field source f.id f.name), ⟨supply.next + 1⟩, fun steps => ?_⟩
      rw [hp steps, Planner.outcome_bind, outcome_fresh]
      exact Planner.outcome_pure _ _
  obtain ⟨p, rest, hp⟩ := hfound
  refine ⟨p, rest, fun steps hsteps => ?_, fun hsource => ?_⟩
  · obtain ⟨extra, rfl⟩ := Nat.exists_eq_add_of_le hsteps
    rw [Nat.add_comm, hp extra]
  · exact (s.readWithin_readOnly 2 f hsource).result (hp 0)

/-- There are more types than a read has steps. -/
theorem two_le_budget (h : s.Lawful) : 2 ≤ s.types.length + 1 := by
  obtain ⟨declared, hs⟩ := h.built.types_eq
  rw [hs, List.length_append]
  have hbuiltin : Schema.initial.types.length = 7 := rfl
  omega

theorem read_ensures (h : s.Lawful) (hf : f ∈ s.fields) (source : Plan) :
    (s.read f source).Ensures (fun p => source.ReadOnly → p.ReadOnly) fun _ => False := by
  intro supply
  obtain ⟨p, rest, hp, hreadOnly⟩ := h.exists_readWithin hf source supply
  rw [read, hp _ h.two_le_budget]
  exact hreadOnly

theorem readObject_ensures (h : s.Lawful) (ht : t ∈ s.types) (source : Plan) :
    (s.readObject t source).Ensures (fun p => source.ReadOnly → p.ReadOnly) fun _ => False := by
  rw [readObject]
  refine (Planner.Ensures.mapM (R := fun _ property => source.ReadOnly → property.2.ReadOnly)
    fun f hf => ?_).bind fun properties hproperties => .pure fun hsource => ?_
  · exact (h.read_ensures (mem_fields ht hf) source).bind fun p hp => .pure hp
  · rw [Plan.readOnly_object, List.forall_mem_map]
    intro property hproperty
    obtain ⟨f, -, hp⟩ := exists_of_forall₂_of_mem hproperties hproperty
    exact hp hsource

theorem listing_ensures (h : s.Lawful) (ht : t ∈ s.types) :
    (s.listing t).Ensures Plan.ReadOnly fun _ => False := by
  rw [listing]
  refine (Planner.Ensures.fresh _).bind fun item _ => ?_
  refine (h.readObject_ensures ht (.var item)).bind fun inner hinner => .pure ?_
  simpa using hinner (Plan.readOnly_var item)

end Lawful

end Schema

/-- **Reads succeed.** In an accepted schema keys are neither references nor relations, so a read
takes at most two steps, however many it is allowed. Reading a field or a whole object succeeds from
every source and every supply, as does every listing, and nothing that is read from a read-only
source writes. -/
theorem accepted_reads_succeed {decl : SchemaDecl} {a : AcceptedSchema}
    (h : decl.accept = .ok a) :
    (∀ t ∈ a.schema.types, ∀ key, t.keyField? = some key →
      key.isReference = false ∧ key.isRelation = false) ∧
    (∀ f ∈ a.schema.fields, ∀ source supply, ∃ p rest,
      (∀ steps, 2 ≤ steps →
        (a.schema.readWithin steps f source).outcome supply = (.ok p, rest)) ∧
      (a.schema.read f source).outcome supply = (.ok p, rest) ∧
      (source.ReadOnly → p.ReadOnly)) ∧
    ∀ t ∈ a.schema.types, ∀ supply,
      (∀ source, ∃ p rest, (a.schema.readObject t source).outcome supply = (.ok p, rest) ∧
        (source.ReadOnly → p.ReadOnly)) ∧
      ∃ p rest, (a.schema.listing t).outcome supply = (.ok p, rest) ∧ p.ReadOnly := by
  have hs := SchemaDecl.lawful_of_accept h
  refine ⟨fun t ht key hkey => (hs.key_direct ht hkey).2, fun f hf source supply => ?_,
    fun t ht supply => ⟨fun source => ?_, ?_⟩⟩
  · obtain ⟨p, rest, hp, hreadOnly⟩ := hs.exists_readWithin hf source supply
    exact ⟨p, rest, hp, hp _ hs.two_le_budget, hreadOnly⟩
  · exact (hs.readObject_ensures ht source).exists_ok supply
  · exact (hs.listing_ensures ht).exists_ok supply

/-- In the shop, the reference to the payer of an order is read through the key of customers. -/
theorem shop_payer_read : ∃ f ∈ shop.schema.fields, f.name = "payer" ∧ f.isReference = true ∧
    ∃ p rest, (shop.schema.read f (.var ⟨0, "order"⟩)).outcome ⟨1⟩ = (.ok p, rest) ∧
      p.ReadOnly := by
  have hf : shop.schema.fields.get ⟨12, by decide⟩ ∈ shop.schema.fields := List.get_mem _ _
  obtain ⟨p, rest, -, hp, hreadOnly⟩ :=
    (accepted_reads_succeed accept_shopDecl).2.1 _ hf (.var ⟨0, "order"⟩) ⟨1⟩
  exact ⟨_, hf, rfl, rfl, p, rest, hp, hreadOnly (Plan.readOnly_var _)⟩

end EntityGraph
