import EntityGraph.Proofs.Numbering
import EntityGraph.Schema.Relation

/-!
# Sides of relations

A relation has a near and a far end, and does not say at which of them a field stands. The side of a
field is told afterwards, by comparing its number with that of the near end. Here this is shown to
be right in every schema that can be built, whether or not it is accepted: the side starts at the
field and its own type, and leads to the type of the field and to a relation field there.

The comparison could only go wrong for a field that names an inverse, and so stands at the far end,
but has the number of the near end as well. Such a field is its own inverse. Since numbers are never
reused it leads to its own type, and then both sides of the relation have the same ends.

Nothing is said here about what the other end sees. If a schema is not accepted, the field at the
other end may lead to a third type, or may name another inverse.

## Main definitions

* `Schema.Resolves` — the three ways in which a relation is found
* `RelationSide.AnchoredAt` — a side starts at a field and leads to a type

## Main results

* `Schema.relation?_eq_some_iff` — a field sees a relation exactly if one of the ways leads to it
* `Schema.relation?_end` — a field that sees a relation is one of its ends
* `Schema.Numbered.exists_anchoredAt` — the side of a field is anchored at it
* `sides_anchored` — the same for the schemas of declarations
-/

namespace EntityGraph

/-- A side that is seen from a field and leads to a type. If a field views the other side, it is a
relation field of that type. -/
structure RelationSide.AnchoredAt (side : RelationSide) (f : FieldDef) (target : TypeDef) :
    Prop where
  sourceField : side.sourceField = some f.id
  sourceType : side.sourceType = f.owner
  targetType : side.targetType = target.id
  targetField : ∀ id, side.targetField = some id →
    ∃ g ∈ target.fields, g.id = id ∧ g.isRelation = true

namespace Schema

variable {s : Schema} {f : FieldDef} {target : TypeDef} {r : Relation} {side : RelationSide}

theorem mem_types_of_target? (h : s.target? f = some target) : target ∈ s.types := mem_of_type? h

theorem targetId?_eq_some {id : TypeId} :
    s.targetId? f = some id ↔ ∃ target, s.target? f = some target ∧ target.id = id :=
  Option.map_eq_some_iff

theorem mem_inverseCandidates {g : FieldDef} : g ∈ s.inverseCandidates f target ↔
    g ∈ target.fields ∧ g.isRelation = true ∧ s.targetId? g = some f.owner ∧
      g.inverseOf = some f.name := by
  simp only [inverseCandidates, leadsBack, List.mem_filter, Bool.and_eq_true, beq_iff_eq, and_assoc]

/-! ### Resolution -/

/-- The relations of a field of the given type. -/
inductive Resolves (s : Schema) (f : FieldDef) (target : TypeDef) : Relation → Prop
  /-- The field names its inverse, which the relation belongs to. -/
  | named {name : String} {g : FieldDef} (hname : f.inverseOf = some name)
      (hfound : target.field? name = some g) (hrelation : g.isRelation = true) :
    Resolves s f target ⟨target.id, g.id, f.owner, some f.id⟩
  /-- No field names this one. -/
  | alone (hname : f.inverseOf = none) (hcandidates : s.inverseCandidates f target = []) :
    Resolves s f target ⟨f.owner, f.id, target.id, none⟩
  /-- One field names this one. -/
  | claimed {g : FieldDef} (hname : f.inverseOf = none)
      (hcandidates : s.inverseCandidates f target = [g]) :
    Resolves s f target ⟨f.owner, f.id, target.id, some g.id⟩

theorem relationTo?_eq_some_iff : s.relationTo? f target = some r ↔ s.Resolves f target r := by
  constructor
  · intro h
    rw [relationTo?] at h
    split at h
    · next name hname =>
      split at h
      · next g hfound =>
        split at h
        · next hrelation =>
          obtain rfl := Option.some.inj h
          exact .named hname hfound hrelation
        · cases h
      · cases h
    · next hname =>
      split at h
      · next hcandidates =>
        obtain rfl := Option.some.inj h
        exact .alone hname hcandidates
      · next g hcandidates =>
        obtain rfl := Option.some.inj h
        exact .claimed hname hcandidates
      · cases h
  · intro h
    cases h with
    | named hname hfound hrelation => simp [relationTo?, hname, hfound, hrelation]
    | alone hname hcandidates => simp [relationTo?, hname, hcandidates]
    | claimed hname hcandidates => simp [relationTo?, hname, hcandidates]

/-- A field sees a relation exactly if it is a relation field whose type is found, and one of the
three ways leads to the relation. -/
theorem relation?_eq_some_iff : s.relation? f = some r ↔
    f.isRelation = true ∧ ∃ target, s.target? f = some target ∧ s.Resolves f target r := by
  rw [relation?]
  split
  · next hrelation => simp [hrelation, Option.bind_eq_some_iff, relationTo?_eq_some_iff]
  · next hrelation => simp [hrelation]

/-- A field that sees a relation is one of its ends: the one that the relation starts from if the
field names no inverse, and the other one if it does. -/
theorem relation?_end (h : s.relation? f = some r) :
    (f.inverseOf = none ∧ r.fromField = f.id) ∨
      (f.inverseOf.isSome = true ∧ r.toField = some f.id) := by
  obtain ⟨-, target, -, hresolves⟩ := relation?_eq_some_iff.1 h
  cases hresolves with
  | named hname => exact .inr ⟨by rw [hname]; rfl, rfl⟩
  | alone hname | claimed hname => exact .inl ⟨hname, rfl⟩

/-! ### Sides -/

/-- A field sees its relation from its own end. -/
theorem sourceField_of_relationSide? (h : s.relationSide? f = some side) :
    side.sourceField = some f.id := by
  obtain ⟨r, hr, rfl⟩ := Option.map_eq_some_iff.1 h
  rw [RelationSide.sourceField]
  rcases relation?_end hr with ⟨-, hnear⟩ | ⟨-, hfar⟩
  · simp [hnear]
  · by_cases hnear : r.fromField = f.id
    · simp [hnear]
    · simp [hnear, hfar]

/-- A field with the number of the inverse that it names leads to its own type. -/
theorem Numbered.owner_of_self_inverse (h : s.Numbered) (hf : f ∈ s.fields)
    (htarget : target ∈ s.types) {g : FieldDef} (hg : g ∈ target.fields) (hid : g.id = f.id) :
    f.owner = target.id := by
  have hsame : g = f := h.field_eq_of_id (mem_fields htarget hg) hf hid
  rw [← hsame]
  exact h.owner target htarget g hg

/-- Comparing numbers finds the side that is anchored at the field, whichever way its relation was
found. -/
theorem Numbered.anchoredAt_of_resolves (h : s.Numbered) (hf : f ∈ s.fields)
    (htarget : target ∈ s.types) (hresolves : s.Resolves f target r) :
    RelationSide.AnchoredAt ⟨r, r.fromField == f.id⟩ f target := by
  cases hresolves with
  | @named _ g _ hfound hrelation =>
    have hg : g ∈ target.fields := TypeDef.mem_of_field? hfound
    by_cases hself : g.id = f.id
    · have howner := h.owner_of_self_inverse hf htarget hg hself
      simp only [hself, beq_self_eq_true]
      refine ⟨rfl, howner.symm, howner, ?_⟩
      rintro _ ⟨⟩
      exact ⟨g, hg, hself, hrelation⟩
    · simp only [beq_false_of_ne hself]
      refine ⟨rfl, rfl, rfl, ?_⟩
      rintro _ ⟨⟩
      exact ⟨g, hg, rfl, hrelation⟩
  | alone =>
    simp only [beq_self_eq_true]
    exact ⟨rfl, rfl, rfl, fun id hid => nomatch hid⟩
  | @claimed g _ hcandidates =>
    have hg := mem_inverseCandidates.1 (hcandidates ▸ List.mem_singleton_self g)
    simp only [beq_self_eq_true]
    refine ⟨rfl, rfl, rfl, ?_⟩
    rintro _ ⟨⟩
    exact ⟨g, hg.1, rfl, hg.2.1⟩

theorem Numbered.exists_anchoredAt (h : s.Numbered) (hf : f ∈ s.fields)
    (hside : s.relationSide? f = some side) :
    ∃ target, s.target? f = some target ∧ side.AnchoredAt f target := by
  obtain ⟨r, hr, rfl⟩ := Option.map_eq_some_iff.1 hside
  obtain ⟨-, target, htarget, hresolves⟩ := relation?_eq_some_iff.1 hr
  exact ⟨target, htarget, h.anchoredAt_of_resolves hf (mem_types_of_target? htarget) hresolves⟩

end Schema

/-- **Sides are anchored at their fields.** In the schema of any declaration, the side of a field
starts at the field and at the type that declares it, and leads to the type of the field. If a field
views the other side, it is a relation field among those of that type. -/
theorem sides_anchored {decl : SchemaDecl} {s : Schema} (h : Schema.ofDecl decl = .ok s)
    {f : FieldDef} (hf : f ∈ s.fields) {side : RelationSide}
    (hside : s.relationSide? f = some side) :
    side.sourceField = some f.id ∧
      side.sourceType = f.owner ∧ (∃ t, s.typeAt? f.owner = some t ∧ f ∈ t.fields) ∧
      ∃ target, s.target? f = some target ∧
        side.targetType = target.id ∧ s.typeAt? target.id = some target ∧
        ∀ id, side.targetField = some id →
          ∃ g ∈ target.fields, s.fieldAt? id = some g ∧ g.isRelation = true := by
  have hnumbered := (Schema.built_of_ofDecl h).numbered
  obtain ⟨target, htarget, hanchored⟩ := hnumbered.exists_anchoredAt hf hside
  have htypes : target ∈ s.types := Schema.mem_types_of_target? htarget
  refine ⟨hanchored.sourceField, hanchored.sourceType, ?_, target, htarget, hanchored.targetType,
    hnumbered.typeAt?_id htypes, fun id hid => ?_⟩
  · obtain ⟨t, ht, hft⟩ := Schema.exists_type_of_mem_fields hf
    rw [hnumbered.owner t ht f hft]
    exact ⟨t, hnumbered.typeAt?_id ht, hft⟩
  · obtain ⟨g, hg, rfl, hrelation⟩ := hanchored.targetField id hid
    exact ⟨g, hg, hnumbered.fieldAt?_id (Schema.mem_fields htypes hg), hrelation⟩

/-- The declaration of a tangle of inverses: a field that is its own inverse, two fields that name
each other, and a field whose inverse leads to a third type. -/
def tangleDecl : SchemaDecl where
  profiles := []
  types :=
    [(TypeDecl.named "Person" .rootEntity)
        |>.withField ((FieldDecl.named "self" "Person").asInverseOf "self")
        |>.withField ((FieldDecl.named "boss" "Person").asInverseOf "reports")
        |>.withField ((FieldDecl.named "reports" "Person").asList.asInverseOf "boss")
        |>.withField ((FieldDecl.named "home" "Place").asInverseOf "owner"),
      (TypeDecl.named "Place" .rootEntity)
        |>.withField ((FieldDecl.named "owner" "Firm").asRelation),
      TypeDecl.named "Firm" .rootEntity]

/-- In the tangle, each of the five relation fields has a side, which starts at the field and leads
to a relation field of the field's type if it leads to a field at all. -/
theorem tangle_anchored : ∃ s, Schema.ofDecl tangleDecl = .ok s ∧
    (s.fields.filter (·.isRelation)).map (·.name) = ["self", "boss", "reports", "home", "owner"] ∧
    ∀ f ∈ s.fields.filter (·.isRelation), ∃ side, s.relationSide? f = some side ∧
      side.sourceField = some f.id ∧ side.sourceType = f.owner ∧
      ∃ target, s.target? f = some target ∧ side.targetType = target.id ∧
        ∀ id, side.targetField = some id →
          ∃ g ∈ target.fields, s.fieldAt? id = some g ∧ g.isRelation = true := by
  have hs : ∃ s, Schema.ofDecl tangleDecl = .ok s ∧
      (s.fields.filter (·.isRelation)).map (·.name) =
        ["self", "boss", "reports", "home", "owner"] ∧
      ∀ f ∈ s.fields.filter (·.isRelation), (s.relationSide? f).isSome = true :=
    ⟨_, rfl, rfl, by decide⟩
  obtain ⟨s, hbuilt, hnames, hsides⟩ := hs
  refine ⟨s, hbuilt, hnames, fun f hf => ?_⟩
  obtain ⟨side, hside⟩ := Option.isSome_iff_exists.1 (hsides f hf)
  obtain ⟨hfield, hsource, -, target, htarget, hleads, -, hother⟩ :=
    sides_anchored hbuilt (List.mem_filter.1 hf).1 hside
  exact ⟨side, hside, hfield, hsource, target, htarget, hleads, hother⟩

end EntityGraph
