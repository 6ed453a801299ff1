import EntityGraph.Proofs.Sides
import EntityGraph.Proofs.Validity

/-!
# Pairs of relation fields

The two fields of a pair find their relation by different routes. The far one names its inverse and
looks the name up; the near one searches the target type for fields that name it. `Paired` states
what both routes have to agree on, without mentioning either, and the two routes are then shown to
end at the same relation.

In a lawful schema every relation field belongs to exactly one of three cases: it has a relation of
its own, it is the near field of a pair, or it is the far field of one.

## Main definitions

* `Schema.Paired` — two relation fields of which the second names the first as its inverse
* `Relation.between` — the relation that a pair sees

## Main results

* `Schema.Paired.relation?_near`, `Schema.Paired.relation?_far` — both routes end at it
* `Schema.Lawful.relation_cases` — the three cases of a relation field
* `accepted_relations_partition` — relations partition the relation fields of an accepted schema
-/

namespace EntityGraph

/-- The relation of a pair of fields. -/
def Relation.between (near far : FieldDef) : Relation :=
  ⟨near.owner, near.id, far.owner, some far.id⟩

namespace Schema

/-- A pair of relation fields that lead to each other's types. The far one names the near one as
its inverse, and the near one names none. -/
structure Paired (s : Schema) (near far : FieldDef) : Prop where
  near_mem : near ∈ s.fields
  far_mem : far ∈ s.fields
  near_isRelation : near.isRelation = true
  far_isRelation : far.isRelation = true
  near_inverseOf : near.inverseOf = none
  far_inverseOf : far.inverseOf = some near.name
  near_target : s.targetId? near = some far.owner
  far_target : s.targetId? far = some near.owner

theorem isObject_of_isRoot {t : TypeDef} (h : t.isRoot = true) : t.kind.isObject = true := by
  have hk : t.kind = .rootEntity := by simpa [TypeDef.isRoot] using h
  rw [hk]
  rfl

namespace Lawful

variable {s : Schema} {f near far : FieldDef}

theorem declared_of_isRelation (h : s.Lawful) {t : TypeDef} (ht : t ∈ s.types) (hf : f ∈ t.fields)
    (hrelation : f.isRelation = true) : f.isSystem = false := by
  by_contra hsystem
  have hplain := (h.built.maintained ht hf (by simpa using hsystem)).noRelation
  rw [hrelation] at hplain
  cases hplain

/-- A relation field of a lawful schema, with its two types. -/
theorem relationRules (h : s.Lawful) (hf : f ∈ s.fields) (hrelation : f.isRelation = true) :
    ∃ t ∈ s.types, f ∈ t.fields ∧ ∃ target, s.target? f = some target ∧
      s.RelationRules t f target := by
  obtain ⟨t, ht, hft⟩ := exists_type_of_mem_fields hf
  obtain ⟨target, htarget, hrules⟩ :=
    h.typedRules ht hft (h.declared_of_isRelation ht hft hrelation)
  exact ⟨t, ht, hft, target, htarget, hrules.relation hrelation⟩

end Lawful

namespace Paired

variable {s : Schema} {near far : FieldDef}

theorem id_ne (h : s.Paired near far) (hs : s.Lawful) : near.id ≠ far.id := by
  intro hid
  have hsame := hs.built.numbered.field_eq_of_id h.near_mem h.far_mem hid
  have hnone := h.near_inverseOf
  rw [hsame, h.far_inverseOf] at hnone
  cases hnone

/-- The near field finds the far one as the only field that names it. -/
theorem relation?_near (h : s.Paired near far) (hs : s.Lawful) :
    s.relation? near = some (.between near far) := by
  obtain ⟨t, ht, hnear, target, htarget, hrules⟩ :=
    hs.relationRules h.near_mem h.near_isRelation
  have hid : target.id = far.owner := by
    obtain ⟨target', htarget', hid⟩ := targetId?_eq_some.1 h.near_target
    rw [htarget] at htarget'
    rwa [Option.some.inj htarget']
  have hfar : far ∈ target.fields :=
    hs.built.numbered.mem_fields_of_owner (mem_types_of_target? htarget) h.far_mem hid
  have hcandidate : far ∈ s.inverseCandidates near target :=
    mem_inverseCandidates.2 ⟨hfar, h.far_isRelation, h.far_target, h.far_inverseOf⟩
  have hsingle : s.inverseCandidates near target = [far] := by
    have hle := hrules.pairing h.near_inverseOf
    rcases hc : s.inverseCandidates near target with _ | ⟨g, _ | _⟩
    · simp [hc] at hcandidate
    · rw [hc, List.mem_singleton] at hcandidate
      rw [hcandidate]
    · simp [hc] at hle
  rw [Relation.between, ← hid]
  exact relation?_eq_some_iff.2
    ⟨h.near_isRelation, target, htarget, .claimed h.near_inverseOf hsingle⟩

/-- The far field finds the near one under its name. -/
theorem relation?_far (h : s.Paired near far) (hs : s.Lawful) :
    s.relation? far = some (.between near far) := by
  obtain ⟨t, ht, hfar, target, htarget, hrules⟩ := hs.relationRules h.far_mem h.far_isRelation
  have hid : target.id = near.owner := by
    obtain ⟨target', htarget', hid⟩ := targetId?_eq_some.1 h.far_target
    rw [htarget] at htarget'
    rwa [Option.some.inj htarget']
  have htypes : target ∈ s.types := mem_types_of_target? htarget
  have hnear : near ∈ target.fields :=
    hs.built.numbered.mem_fields_of_owner htypes h.near_mem hid
  have hname : target.field? near.name = some near :=
    hs.field?_name htypes (isObject_of_isRoot hrules.targetRoot) hnear
  rw [Relation.between, ← hid]
  exact relation?_eq_some_iff.2
    ⟨h.far_isRelation, target, htarget, .named h.far_inverseOf hname h.near_isRelation⟩

theorem relationSide?_near (h : s.Paired near far) (hs : s.Lawful) :
    s.relationSide? near = some ⟨.between near far, true⟩ := by
  rw [relationSide?, h.relation?_near hs]
  simp [Relation.between]

theorem relationSide?_far (h : s.Paired near far) (hs : s.Lawful) :
    s.relationSide? far = some ⟨.between near far, false⟩ := by
  rw [relationSide?, h.relation?_far hs]
  simp [Relation.between, h.id_ne hs]

end Paired

/-! ### The three cases -/

namespace Lawful

variable {s : Schema} {f : FieldDef}

/-- The field that a relation field names is the near field of a pair with it. -/
theorem paired_of_inverseOf (h : s.Lawful) (hf : f ∈ s.fields) (hrelation : f.isRelation = true)
    {name : String} (hname : f.inverseOf = some name) : ∃ near, s.Paired near f := by
  obtain ⟨t, ht, hft, target, htarget, hrules⟩ := h.relationRules hf hrelation
  obtain ⟨near, hfield, hnearRelation, hback, hnone⟩ := hrules.inverse name hname
  have htypes : target ∈ s.types := mem_types_of_target? htarget
  have hnear : near ∈ target.fields := TypeDef.mem_of_field? hfield
  refine ⟨near, mem_fields htypes hnear, hf, hnearRelation, hrelation, hnone, ?_, ?_, ?_⟩
  · rw [hname, TypeDef.name_of_field? hfield]
  · rw [hback, h.built.numbered.owner t ht f hft]
  · rw [targetId?_eq_some]
    exact ⟨target, htarget, (h.built.numbered.owner target htypes near hnear).symm⟩

/-- A field that names a near field is paired with it. -/
theorem paired_of_mem_inverseCandidates (h : s.Lawful) (hf : f ∈ s.fields)
    (hrelation : f.isRelation = true) (hnone : f.inverseOf = none) {target : TypeDef}
    (htarget : s.target? f = some target) {far : FieldDef}
    (hfar : far ∈ s.inverseCandidates f target) : s.Paired f far := by
  obtain ⟨hmem, hfarRelation, hback, hinverse⟩ := mem_inverseCandidates.1 hfar
  have htypes : target ∈ s.types := mem_types_of_target? htarget
  refine ⟨hf, mem_fields htypes hmem, hrelation, hfarRelation, hnone, hinverse, ?_, hback⟩
  exact targetId?_eq_some.2 ⟨target, htarget, (h.built.numbered.owner target htypes far hmem).symm⟩

/-- A relation field of a lawful schema has a relation of its own, or is one of the two fields of a
pair. -/
theorem relation_cases (h : s.Lawful) (hf : f ∈ s.fields) (hrelation : f.isRelation = true) :
    (∃ target, s.relation? f = some ⟨f.owner, f.id, target, none⟩) ∨
      (∃ far, s.Paired f far) ∨ ∃ near, s.Paired near f := by
  cases hname : f.inverseOf with
  | some name => exact .inr (.inr (h.paired_of_inverseOf hf hrelation hname))
  | none =>
    obtain ⟨t, ht, hft, target, htarget, hrules⟩ := h.relationRules hf hrelation
    rcases hc : s.inverseCandidates f target with _ | ⟨far, rest⟩
    · exact .inl ⟨target.id, relation?_eq_some_iff.2 ⟨hrelation, target, htarget, .alone hname hc⟩⟩
    · refine .inr (.inl ⟨far, ?_⟩)
      refine h.paired_of_mem_inverseCandidates hf hrelation hname htarget ?_
      rw [hc]
      exact List.mem_cons_self

/-- Both ends of a relation see it, and they are two fields. -/
theorem ends_see_relation (h : s.Lawful) (hf : f ∈ s.fields) (hrelation : f.isRelation = true) :
    ∃ r, s.relation? f = some r ∧ (∃ g ∈ s.fields, g.id = r.fromField ∧ s.relation? g = some r) ∧
      ∀ id, r.toField = some id →
        id ≠ r.fromField ∧ ∃ g ∈ s.fields, g.id = id ∧ s.relation? g = some r := by
  rcases h.relation_cases hf hrelation with ⟨target, hr⟩ | ⟨far, hp⟩ | ⟨near, hp⟩
  · exact ⟨_, hr, ⟨f, hf, rfl, hr⟩, fun id hid => nomatch hid⟩
  · refine ⟨_, hp.relation?_near h, ⟨f, hf, rfl, hp.relation?_near h⟩, ?_⟩
    rintro _ ⟨⟩
    exact ⟨(hp.id_ne h).symm, far, hp.far_mem, rfl, hp.relation?_far h⟩
  · refine ⟨_, hp.relation?_far h, ⟨near, hp.near_mem, rfl, hp.relation?_near h⟩, ?_⟩
    rintro _ ⟨⟩
    exact ⟨(hp.id_ne h).symm, f, hf, rfl, hp.relation?_far h⟩

/-- The partner of a field sees the relation from the other side, and its partner is the field. -/
theorem inverseField?_symm (h : s.Lawful) (hf : f ∈ s.fields) (hrelation : f.isRelation = true)
    {id : FieldId} (hid : s.inverseField? f = some id) :
    ∃ g ∈ s.fields, g.id = id ∧ s.inverseField? g = some f.id ∧
      ∃ side, s.relationSide? f = some side ∧ s.relationSide? g = some side.opposite := by
  rcases h.relation_cases hf hrelation with ⟨target, hr⟩ | ⟨far, hp⟩ | ⟨near, hp⟩
  · simp [inverseField?, relationSide?, hr, RelationSide.targetField] at hid
  · have hnear := hp.relationSide?_near h
    have hfar := hp.relationSide?_far h
    rw [inverseField?, hnear] at hid
    refine ⟨far, hp.far_mem, Option.some.inj hid, ?_, _, hnear, hfar⟩
    rw [inverseField?, hfar]
    rfl
  · have hnear := hp.relationSide?_near h
    have hfar := hp.relationSide?_far h
    rw [inverseField?, hfar] at hid
    refine ⟨near, hp.near_mem, Option.some.inj hid, ?_, _, hfar, hnear⟩
    rw [inverseField?, hnear]
    rfl

end Lawful

end Schema

/-- **Relations partition the relation fields.** In an accepted schema every relation field sees a
relation. The fields that see it are exactly its one or two ends, which are different fields, and
each of two ends is the partner of the other and sees the relation from the other side. -/
theorem accepted_relations_partition {decl : SchemaDecl} {a : AcceptedSchema}
    (h : decl.accept = .ok a) {f : FieldDef} (hf : f ∈ a.schema.fields)
    (hrelation : f.isRelation = true) :
    ∃ r, a.schema.relation? f = some r ∧
      (∃ g, a.schema.fieldAt? r.fromField = some g ∧ a.schema.relation? g = some r) ∧
      (∀ id, r.toField = some id → id ≠ r.fromField ∧
        ∃ g, a.schema.fieldAt? id = some g ∧ a.schema.relation? g = some r) ∧
      (∀ g ∈ a.schema.fields,
        a.schema.relation? g = some r ↔ g.id = r.fromField ∨ r.toField = some g.id) ∧
      ∀ id, a.schema.inverseField? f = some id → ∃ g, a.schema.fieldAt? id = some g ∧
        a.schema.inverseField? g = some f.id ∧
        ∃ side, a.schema.relationSide? f = some side ∧
          a.schema.relationSide? g = some side.opposite := by
  have hs := SchemaDecl.lawful_of_accept h
  have hnumbered := hs.built.numbered
  obtain ⟨r, hr, ⟨near, hnear, hnearId, hnearSees⟩, hto⟩ := hs.ends_see_relation hf hrelation
  refine ⟨r, hr, ⟨near, ?_, hnearSees⟩, fun id hid => ?_, fun g hg => ⟨fun hsees => ?_, ?_⟩,
    fun id hid => ?_⟩
  · rw [← hnearId]
    exact hnumbered.fieldAt?_id hnear
  · obtain ⟨hne, g, hg, rfl, hsees⟩ := hto id hid
    exact ⟨hne, g, hnumbered.fieldAt?_id hg, hsees⟩
  · rcases Schema.relation?_end hsees with ⟨-, hend⟩ | ⟨-, hend⟩
    · exact .inl hend.symm
    · exact .inr hend
  · rintro (hend | hend)
    · rwa [hnumbered.field_eq_of_id hg hnear (hend.trans hnearId.symm)]
    · obtain ⟨-, g', hg', hid, hsees⟩ := hto g.id hend
      rwa [hnumbered.field_eq_of_id hg hg' hid.symm]
  · obtain ⟨g, hg, rfl, hback, hside⟩ := hs.inverseField?_symm hf hrelation hid
    exact ⟨g, hnumbered.fieldAt?_id hg, hback, hside⟩

/-- In the shop, two fields of one type form a pair, and no third field sees their relation. -/
theorem shop_friends_partition : ∃ f ∈ shop.schema.fields, f.name = "friendOf" ∧
    f.isRelation = true ∧ ∃ r, shop.schema.relation? f = some r ∧ r.toField = some f.id ∧
      ∀ g ∈ shop.schema.fields,
        shop.schema.relation? g = some r ↔ g.id = r.fromField ∨ r.toField = some g.id := by
  have hf : shop.schema.fields.get ⟨6, by decide⟩ ∈ shop.schema.fields := List.get_mem _ _
  obtain ⟨r, hr, -, -, hends, -⟩ := accepted_relations_partition accept_shopDecl hf rfl
  refine ⟨_, hf, rfl, rfl, r, hr, ?_, hends⟩
  rw [← Option.some.inj hr]

end EntityGraph
