import EntityGraph.Proofs.Pairing

/-!
# The warning about separate relations

Two relation fields that lead to each other's types, neither naming the other, may have been meant
as a pair. The check of a field warns of this if there is exactly one such field besides it. Here is
shown when it does, and what is true of the two relations then.

The field that is checked has a relation of its own: no field names it. About the other field less
is known. The check sees that it names no inverse, but does not look for fields that name it. So it
may already be paired with a third field, which then belongs to the same type as the field that is
checked. In that case the advice of the warning cannot be followed.

## Main definitions

* `Schema.OneSided` — a field with a relation that no other field sees
* `Schema.LeadsBackFreely` — what the check asks of the other field

## Main results

* `Schema.separateFrom_mem_fieldFindings` — which check gives the warning
* `Schema.Lawful.oneSided_iff` — a field that names no inverse has a relation of its own unless it
  is the near field of a pair
* `Schema.Lawful.separateFrom_mem_iff` — what the warning says in a schema without errors
* `separate_relations_warned_iff` — when the warning is given, and when both relations are separate
-/

namespace EntityGraph

/-- The warning that a field and the one with the given name define separate relations. -/
def FieldDef.separateFrom (f : FieldDef) (other : String) : Finding :=
  ⟨.separateRelations other, f.location⟩

namespace Schema

variable {s : Schema} {t owner target : TypeDef} {f g : FieldDef} {other : String}

/-- The field sees a relation that has only one side. -/
def OneSided (s : Schema) (f : FieldDef) : Prop := ∃ r, s.relation? f = some r ∧ r.isOneSided = true

/-- A relation field other than `f` that leads to the owner of `f` and names no inverse. -/
structure LeadsBackFreely (s : Schema) (f g : FieldDef) : Prop where
  ne : g ≠ f
  isRelation : g.isRelation = true
  target : s.targetId? g = some f.owner
  inverseOf : g.inverseOf = none

/-! ### Where the warning comes from -/

theorem separateFrom_mem_findAt {issues : List Issue} :
    f.separateFrom other ∈ findAt f.location issues ↔ .separateRelations other ∈ issues := by
  simp [findAt, FieldDef.separateFrom]

/-- What is wrong with a field whatever its type is not about other relations. -/
theorem separateRelations_notMem_ownIssues : .separateRelations other ∉ s.ownIssues f := by
  have hname : .separateRelations other ∉ nameIssues .field f.name := by grind [nameIssues]
  have hpermissions : ∀ p, .separateRelations other ∉ s.permissionIssues p := by
    grind [permissionIssues]
  have hdefault : .separateRelations other ∉ defaultIssues f := by grind [defaultIssues]
  cases hp : f.permissions with
  | none => simp [ownIssues, hp, hname, hdefault]
  | some p => simp [ownIssues, hp, hname, hpermissions p, hdefault]

theorem separateFrom_mem_typedFindings : f.separateFrom other ∈ s.typedFindings owner f target ↔
    f.isRelation = true ∧ f.separateFrom other ∈ s.relationFindings owner f target := by
  have hembedding : .separateRelations other ∉ embeddingIssues owner f target := by
    grind [embeddingIssues]
  have hreference : .separateRelations other ∉ referenceIssues f target := by
    grind [referenceIssues]
  have hcalc : .separateRelations other ∉ calcIssues f target := by grind [calcIssues]
  simp only [typedFindings, List.mem_append, separateFrom_mem_findAt]
  grind

theorem separateFrom_mem_pairingFindings :
    f.separateFrom other ∈ s.pairingFindings owner f target ↔ s.inverseCandidates f target = [] ∧
      ∃ g, s.unpaired f target = [g] ∧ other = target.qualify g.name := by
  rw [pairingFindings]
  rcases s.inverseCandidates f target with _ | ⟨h, _ | ⟨h', rest⟩⟩
  · rcases s.unpaired f target with _ | ⟨g, _ | ⟨g', rest⟩⟩ <;> simp [FieldDef.separateFrom]
  · simp
  · simp [FieldDef.separateFrom]

/-- The warning is given by the check of a relation field between two root entities, if neither it
nor any field of its type names the other, and if exactly one field leads back freely. -/
theorem separateFrom_mem_fieldFindings : f.separateFrom other ∈ s.fieldFindings owner f ↔
    ∃ target, s.target? f = some target ∧ f.isRelation = true ∧ owner.isRoot = true ∧
      target.isRoot = true ∧ f.inverseOf = none ∧ s.inverseCandidates f target = [] ∧
      ∃ g, s.unpaired f target = [g] ∧ other = target.qualify g.name := by
  rw [fieldFindings, List.mem_append, separateFrom_mem_findAt,
    or_iff_right separateRelations_notMem_ownIssues]
  cases s.target? f with
  | none => simp [separateFrom_mem_findAt, untypedIssues]
  | some target =>
    have hinverse : ∀ name, .separateRelations other ∉ s.inverseIssues owner f target name := by
      grind [inverseIssues]
    simp only [separateFrom_mem_typedFindings, Option.some.injEq, exists_eq_left',
      relationFindings, Bool.and_eq_true]
    refine and_congr_right fun _ => ?_
    split
    · next hroots =>
      cases f.inverseOf with
      | none => simp [hroots, separateFrom_mem_pairingFindings]
      | some name => simp [separateFrom_mem_findAt, hinverse name]
    · next hroots =>
      simp only [separateFrom_mem_findAt]
      grind

/-! ### What it says -/

theorem Numbered.mem_unpaired (h : s.Numbered) (hf : f ∈ s.fields) (htarget : target ∈ s.types) :
    g ∈ s.unpaired f target ↔ g ∈ target.fields ∧ s.LeadsBackFreely f g := by
  have hne : g ∈ target.fields → (g.id ≠ f.id ↔ g ≠ f) := fun hg =>
    not_congr ⟨h.field_eq_of_id (mem_fields htarget hg) hf, fun hsame => by rw [hsame]⟩
  simp only [unpaired, leadsBack, List.mem_filter, Bool.and_eq_true, bne_iff_ne, beq_iff_eq,
    Option.isNone_iff_eq_none]
  constructor
  · rintro ⟨hg, ⟨hid, hrelation, hback⟩, hname⟩
    exact ⟨hg, (hne hg).1 hid, hrelation, hback, hname⟩
  · rintro ⟨hg, hother, hrelation, hback, hname⟩
    exact ⟨hg, ⟨(hne hg).2 hother, hrelation, hback⟩, hname⟩

namespace Lawful

/-- The check finds one field exactly if that field, and no other of the type, leads back freely. -/
theorem unpaired_eq_singleton_iff (h : s.Lawful) (hf : f ∈ s.fields) (htarget : target ∈ s.types)
    (hroot : target.isRoot = true) (hg : g ∈ target.fields) :
    s.unpaired f target = [g] ↔ ∀ k ∈ target.fields, s.LeadsBackFreely f k ↔ k = g := by
  have hmem : ∀ k, k ∈ s.unpaired f target ↔ k ∈ target.fields ∧ s.LeadsBackFreely f k :=
    fun k => h.built.numbered.mem_unpaired hf htarget
  constructor
  · intro hsingle k hk
    rw [← List.mem_singleton, ← hsingle, hmem k]
    exact (and_iff_right hk).symm
  · intro hall
    have hnodup : (s.unpaired f target).Nodup :=
      ((h.nodup_fieldNames htarget (isObject_of_isRoot hroot)).of_map _).filter _
    refine List.perm_singleton.1 ((List.perm_ext_iff_of_nodup hnodup (List.nodup_singleton g)).2
      fun k => ?_)
    rw [hmem k, List.mem_singleton]
    constructor
    · rintro ⟨hk, hfree⟩
      exact (hall k hk).1 hfree
    · rintro rfl
      exact ⟨hg, (hall k hg).2 rfl⟩

/-- A field that names no inverse has a relation of its own unless it is the near field of a
pair. -/
theorem oneSided_iff (h : s.Lawful) (hg : g ∈ s.fields) (hrelation : g.isRelation = true)
    (hname : g.inverseOf = none) : s.OneSided g ↔ ∀ k, ¬s.Paired g k := by
  constructor
  · rintro ⟨r, hr, hone⟩ k hpaired
    rw [hpaired.relation?_near h] at hr
    rw [← Option.some.inj hr] at hone
    cases hone
  · intro hunpaired
    rcases h.relation_cases hg hrelation with ⟨id, hr⟩ | ⟨k, hpaired⟩ | ⟨k, hpaired⟩
    · exact ⟨_, hr, rfl⟩
    · exact absurd hpaired (hunpaired k)
    · rw [hpaired.far_inverseOf] at hname
      cases hname

end Lawful

/-- A field with a relation of its own names no inverse, and no field of its type names it. -/
theorem oneSided_iff_alone : s.OneSided f ↔ f.isRelation = true ∧ f.inverseOf = none ∧
    ∃ target, s.target? f = some target ∧ s.inverseCandidates f target = [] := by
  constructor
  · rintro ⟨r, hr, hone⟩
    obtain ⟨hrelation, target, htarget, hresolves⟩ := relation?_eq_some_iff.1 hr
    cases hresolves with
    | named | claimed => cases hone
    | alone hname hcandidates => exact ⟨hrelation, hname, target, htarget, hcandidates⟩
  · rintro ⟨hrelation, hname, target, htarget, hcandidates⟩
    exact ⟨_, relation?_eq_some_iff.2 ⟨hrelation, target, htarget, .alone hname hcandidates⟩, rfl⟩

namespace Lawful

/-- The check of `f` warns about `g` exactly if `f` has a relation of its own and `g` is the only
field that leads back freely. -/
theorem separateFrom_mem_iff (h : s.Lawful) (ht : t ∈ s.types) (hf : f ∈ t.fields)
    (htarget : s.target? f = some target) (hg : g ∈ target.fields) :
    f.separateFrom (target.qualify g.name) ∈ s.fieldFindings t f ↔
      s.OneSided f ∧ ∀ k ∈ target.fields, s.LeadsBackFreely f k ↔ k = g := by
  have hfields := mem_fields ht hf
  have htypes := mem_types_of_target? htarget
  rw [separateFrom_mem_fieldFindings, oneSided_iff_alone]
  constructor
  · rintro ⟨target', htarget', hrelation, -, hroot, hname, hcandidates, g', hsingle, hsame⟩
    obtain rfl : target = target' := Option.some.inj (htarget.symm.trans htarget')
    have hfound : g' ∈ s.unpaired f target := by simp [hsingle]
    have hg' := ((h.built.numbered.mem_unpaired hfields htypes).1 hfound).1
    -- Field names are different, so the name in the warning means one field.
    obtain rfl : g = g' :=
      List.inj_on_of_nodup_map (h.nodup_fieldNames htypes (isObject_of_isRoot hroot)) hg hg'
        ((String.append_right_inj _).1 hsame)
    exact ⟨⟨hrelation, hname, target, htarget, hcandidates⟩,
      (h.unpaired_eq_singleton_iff hfields htypes hroot hg).1 hsingle⟩
  · rintro ⟨⟨hrelation, hname, target', htarget', hcandidates⟩, hall⟩
    obtain rfl : target = target' := Option.some.inj (htarget.symm.trans htarget')
    obtain ⟨target', htarget', hrules⟩ :=
      h.typedRules ht hf (h.declared_of_isRelation ht hf hrelation)
    obtain rfl : target = target' := Option.some.inj (htarget.symm.trans htarget')
    have hroots := hrules.relation hrelation
    exact ⟨target, htarget, hrelation, hroots.ownerRoot, hroots.targetRoot, hname, hcandidates, g,
      (h.unpaired_eq_singleton_iff hfields htypes hroots.targetRoot hg).2 hall, rfl⟩

/-- A field that leads back freely is paired with fields of the owner of `f` only, and not with `f`
if `f` names no inverse. -/
theorem oneSided_iff_of_leadsBackFreely (h : s.Lawful) (ht : t ∈ s.types) (hf : f ∈ t.fields)
    (hname : f.inverseOf = none) (hg : g ∈ s.fields) (hfree : s.LeadsBackFreely f g) :
    s.OneSided g ↔ ∀ k ∈ t.fields, k ≠ f → ¬s.Paired g k := by
  rw [h.oneSided_iff hg hfree.isRelation hfree.inverseOf]
  constructor
  · exact fun hunpaired k _ _ => hunpaired k
  · intro hunpaired k hpaired
    have howner : t.id = k.owner := by
      rw [← h.built.numbered.owner t ht f hf]
      exact Option.some.inj (hfree.target.symm.trans hpaired.near_target)
    refine hunpaired k (h.built.numbered.mem_fields_of_owner ht hpaired.far_mem howner) ?_ hpaired
    rintro rfl
    rw [hpaired.far_inverseOf] at hname
    cases hname

end Lawful

end Schema

/-- **When relations are called separate.** In an accepted schema, the check of a field `f` warns
that `f` and a field `g` of its type define separate relations exactly if `f` has a relation of its
own and `g` is the only field that leads back freely. Then `g` has a relation of its own as well,
unless a third field, of the same type as `f`, is paired with it. -/
theorem separate_relations_warned_iff {decl : SchemaDecl} {a : AcceptedSchema}
    (h : decl.accept = .ok a) {t target : TypeDef} {f g : FieldDef} (ht : t ∈ a.schema.types)
    (hf : f ∈ t.fields) (htarget : a.schema.target? f = some target) (hg : g ∈ target.fields) :
    (f.separateFrom (target.qualify g.name) ∈ a.schema.fieldFindings t f ↔
      a.schema.OneSided f ∧ ∀ k ∈ target.fields, a.schema.LeadsBackFreely f k ↔ k = g) ∧
    (f.separateFrom (target.qualify g.name) ∈ a.schema.fieldFindings t f →
      (a.schema.OneSided g ↔ ∀ k ∈ t.fields, k ≠ f → ¬a.schema.Paired g k)) := by
  have hs := SchemaDecl.lawful_of_accept h
  have hwarned := hs.separateFrom_mem_iff ht hf htarget hg
  refine ⟨hwarned, fun hwarning => ?_⟩
  obtain ⟨hone, hall⟩ := hwarned.1 hwarning
  have hname := (Schema.oneSided_iff_alone.1 hone).2.1
  have hfields := Schema.mem_fields (Schema.mem_types_of_target? htarget) hg
  exact hs.oneSided_iff_of_leadsBackFreely ht hf hname hfields ((hall g hg).2 rfl)

/-! ### Two relations, and a third field -/

/-- The declaration of films and their actors, who lead to each other by two relations. The films
have further fields. -/
def filmsDecl (further : List FieldDecl) : SchemaDecl where
  profiles := [.named defaultProfileName]
  types :=
    [{ TypeDecl.named "Movie" .rootEntity with
        fields := (FieldDecl.named "actors" "Actor").asList.asRelation :: further },
      (TypeDecl.named "Actor" .rootEntity)
        |>.withField ((FieldDecl.named "movies" "Movie").asList.asRelation)]

/-- Without further fields, the check of the actors warns about the movies, and both relations are
separate. -/
theorem films_separate : ∃ a, (filmsDecl []).accept = .ok a ∧
    ∃ t ∈ a.schema.types, ∃ f ∈ t.fields, f.name = "actors" ∧
      ∃ target, a.schema.target? f = some target ∧ ∃ g ∈ target.fields, g.name = "movies" ∧
        f.separateFrom (target.qualify g.name) ∈ a.schema.fieldFindings t f ∧
        a.schema.OneSided f ∧ a.schema.OneSided g := by
  have hfacts : ∃ a, (filmsDecl []).accept = .ok a ∧
      ∃ t ∈ a.schema.types, ∃ f ∈ t.fields, f.name = "actors" ∧
        ∃ target, a.schema.target? f = some target ∧ ∃ g ∈ target.fields, g.name = "movies" ∧
          f.separateFrom (target.qualify g.name) ∈ a.schema.fieldFindings t f ∧
          ∀ k ∈ t.fields, k.inverseOf = none :=
    ⟨_, rfl, _, List.get_mem _ ⟨7, by decide⟩, _, List.get_mem _ ⟨3, by decide⟩, rfl, _, rfl, _,
      List.get_mem _ ⟨3, by decide⟩, rfl, by decide, by decide⟩
  obtain ⟨a, h, t, ht, f, hf, hfname, target, htarget, g, hg, hgname, hwarning, hnone⟩ := hfacts
  obtain ⟨hwarned, hseparate⟩ := separate_relations_warned_iff h ht hf htarget hg
  refine ⟨a, h, t, ht, f, hf, hfname, target, htarget, g, hg, hgname, hwarning,
    (hwarned.1 hwarning).1, (hseparate hwarning).2 fun k hk _ hpaired => ?_⟩
  have hinverse := hpaired.far_inverseOf
  rw [hnone k hk] at hinverse
  cases hinverse

/-- If the cast of a movie is declared as the inverse of an actor's movies, the check of the actors
still warns about the movies, although these are paired. -/
theorem paired_relation_warned : ∃ a,
    (filmsDecl [(FieldDecl.named "cast" "Actor").asList.asInverseOf "movies"]).accept = .ok a ∧
    ∃ t ∈ a.schema.types, ∃ f ∈ t.fields, f.name = "actors" ∧
      ∃ target, a.schema.target? f = some target ∧ ∃ g ∈ target.fields, g.name = "movies" ∧
        f.separateFrom (target.qualify g.name) ∈ a.schema.fieldFindings t f ∧
        ¬a.schema.OneSided g := by
  refine ⟨_, rfl, _, List.get_mem _ ⟨7, by decide⟩, _, List.get_mem _ ⟨3, by decide⟩, rfl, _, rfl,
    _, List.get_mem _ ⟨3, by decide⟩, rfl, by decide, ?_⟩
  rintro ⟨r, hr, hone⟩
  rw [← Option.some.inj hr] at hone
  cases hone

end EntityGraph
