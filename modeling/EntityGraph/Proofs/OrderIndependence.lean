import EntityGraph.Proofs.Pairing
import EntityGraph.Proofs.Reordering

/-!
# Acceptance does not depend on the order

Names always mean the first type, field or profile that carries them, so the order of declarations
decides what they mean where several do. Where it does, an error is reported whatever the order. In
a schema without errors names are nobody else's, and a name means the same in every order.

It is therefore enough to compare a schema without errors with one that is alike. Every check finds
the same on both sides, since what it reads of numbers can be said with names: a field leads back to
a type if it names it, and two fields are the same if their types and they have the same names. That
the second schema is without errors follows, and the two can change places.

## Main definitions

* `Schema.Counterpart` — a schema without errors, and one that is alike
* `Verdict` — the outcomes of acceptance, without the reasons

## Main results

* `Schema.Counterpart.fieldFindings_eq`, `Schema.Counterpart.typeFindings_eq` — what is found for a
  field or a type does not depend on the order
* `Schema.Counterpart.findings_perm` — nor what is found in all
* `acceptance_order_independent` — acceptance in another order
-/

namespace EntityGraph

namespace TypeDef.Alike

variable {t u : TypeDef}

theorem isRoot (h : t.Alike u) : t.isRoot = u.isRoot := by
  rw [TypeDef.isRoot, TypeDef.isRoot, h.kind]

theorem declaredFields (h : t.Alike u) :
    Rearranged FieldDef.Alike t.declaredFields u.declaredFields :=
  h.fields.filter fun f _ g _ hfg => by rw [hfg.isSystem]

/-- A name that is nobody else's means the same field, up to its number. -/
theorem field? (h : t.Alike u) (hnodup : (t.fields.map (·.name)).Nodup) (name : String) :
    (t.field? name = none ∧ u.field? name = none) ∨
      ∃ f g, t.field? name = some f ∧ u.field? name = some g ∧ f.Alike g :=
  h.fields.find? (fun _ _ hfg => hfg.name) hnodup name

end TypeDef.Alike

/-! ### Numbers by names -/

theorem length_filter_name_le_one {α : Type} {name : α → String} {xs : List α}
    (h : (xs.map name).Nodup) (a : String) : (xs.filter (name · == a)).length ≤ 1 := by
  rw [← count_map_name]
  exact List.nodup_iff_count_le_one.1 h a

namespace Schema

variable {s s' : Schema} {t u owner target owner' target' : TypeDef} {f g f' g' : FieldDef}

/-- A field leads to a type if it names it. -/
theorem Numbered.targetId?_eq_some_iff (h : s.Numbered) (hnodup : (s.types.map (·.name)).Nodup)
    (ht : t ∈ s.types) : s.targetId? g = some t.id ↔ g.typeName = t.name := by
  rw [targetId?_eq_some]
  constructor
  · rintro ⟨target, htarget, hid⟩
    rw [← h.type_eq_of_id (mem_types_of_target? htarget) ht hid]
    exact (name_of_type? htarget).symm
  · intro hname
    refine ⟨t, ?_, rfl⟩
    rw [target?, hname]
    exact find?_name_of_nodup hnodup ht

theorem Numbered.leadsBack_eq (h : s.Numbered) (hnodup : (s.types.map (·.name)).Nodup)
    (ht : t ∈ s.types) (hf : f ∈ t.fields) (g : FieldDef) :
    s.leadsBack f g = (g.isRelation && g.typeName == t.name) := by
  have hback : (s.targetId? g == some f.owner) = (g.typeName == t.name) := by
    rw [Bool.eq_iff_iff, beq_iff_eq, beq_iff_eq, h.owner t ht f hf]
    exact h.targetId?_eq_some_iff hnodup ht
  rw [leadsBack, hback]

/-- Two fields are the same if they have the same name, and their types too. -/
theorem Numbered.id_bne_eq (h : s.Numbered) (hnodup : (s.types.map (·.name)).Nodup)
    (ht : t ∈ s.types) (hfields : (t.fields.map (·.name)).Nodup) (hf : f ∈ t.fields)
    (hu : u ∈ s.types) (hg : g ∈ u.fields) :
    (g.id != f.id) = !(u.name == t.name && g.name == f.name) := by
  rw [bne, Bool.not_inj_iff, Bool.eq_iff_iff, beq_iff_eq, Bool.and_eq_true, beq_iff_eq, beq_iff_eq]
  constructor
  · intro hid
    obtain rfl := h.field_eq_of_id (mem_fields hu hg) (mem_fields ht hf) hid
    have hsame : u.id = t.id := (h.owner u hu g hg).symm.trans (h.owner t ht g hf)
    rw [h.type_eq_of_id hu ht hsame]
    exact ⟨rfl, rfl⟩
  · rintro ⟨htype, hname⟩
    obtain rfl := List.inj_on_of_nodup_map hnodup hu ht htype
    rw [List.inj_on_of_nodup_map hfields hg hf hname]

/-! ### Counterparts -/

/-- A schema without errors, and one that is alike. -/
structure Counterpart (s s' : Schema) : Prop where
  lawful : s.Lawful
  built : s'.Built
  alike : s.Alike s'

namespace Counterpart

theorem keepsRules (h : s.Counterpart s') : s.KeepsRules := h.lawful.keepsRules

theorem nodup_types (h : s.Counterpart s') : (s.types.map (·.name)).Nodup :=
  h.lawful.built.nodup_typeNames_iff.2 ⟨h.keepsRules.typeNames, h.keepsRules.notReserved⟩

theorem nodup_types' (h : s.Counterpart s') : (s'.types.map (·.name)).Nodup :=
  (h.alike.types.map_perm fun _ _ ht => ht.name).nodup_iff.1 h.nodup_types

theorem nodup_fields (h : s.Counterpart s') (ht : t ∈ s.types) (hobject : t.kind.isObject = true) :
    (t.fields.map (·.name)).Nodup := h.lawful.nodup_fieldNames ht hobject

theorem nodup_fields' (h : s.Counterpart s') (ht : t ∈ s.types) (hobject : t.kind.isObject = true)
    (htu : t.Alike u) : (u.fields.map (·.name)).Nodup :=
  (htu.fields.map_perm fun _ _ hfg => hfg.name).nodup_iff.1 (h.nodup_fields ht hobject)

/-- A name means the same type, up to its number. -/
theorem type? (h : s.Counterpart s') (name : String) :
    (s.type? name = none ∧ s'.type? name = none) ∨
      ∃ t t', s.type? name = some t ∧ s'.type? name = some t' ∧ t.Alike t' :=
  h.alike.types.find? (fun _ _ ht => ht.name) h.nodup_types name

theorem target? (h : s.Counterpart s') (hf : f.Alike f') :
    (s.target? f = none ∧ s'.target? f' = none) ∨
      ∃ t t', s.target? f = some t ∧ s'.target? f' = some t' ∧ t.Alike t' := by
  rw [Schema.target?, Schema.target?, ← hf.typeName]
  exact h.type? f.typeName

/-! ### Permissions and keys -/

theorem profile?_isNone_eq (h : s.Counterpart s') (name : String) :
    (s.profile? name).isNone = (s'.profile? name).isNone := by
  rw [Bool.eq_iff_iff, profile?_isNone_iff, profile?_isNone_iff]
  simp only [h.alike.profiles.mem_iff]

theorem permissionIssues_eq (h : s.Counterpart s') : s.permissionIssues = s'.permissionIssues := by
  funext p
  rw [permissionIssues, permissionIssues]
  cases p.profile with
  | none => rfl
  | some name => simp only [h.profile?_isNone_eq name]

theorem typePermissionIssues_eq (h : s.Counterpart s') (ht : t.Alike u) :
    s.typePermissionIssues t = s'.typePermissionIssues u := by
  simp only [typePermissionIssues, h.permissionIssues_eq, h.profile?_isNone_eq, ht.permissions,
    ht.isRoot, ht.name]

theorem ownIssues_eq (h : s.Counterpart s') (hf : f.Alike f') :
    s.ownIssues f = s'.ownIssues f' := by
  simp only [ownIssues, defaultIssues, h.permissionIssues_eq, hf.name, hf.isReference,
    hf.isRelation, hf.inverseOf, hf.permissions, hf.defaultValue]

theorem isKeyable_eq (h : s.Counterpart s') (hf : f.Alike f') :
    s.isKeyable f = s'.isKeyable f' := by
  rw [isKeyable, isKeyable, hf.isList]
  rcases h.target? hf with ⟨hnone, hnone'⟩ | ⟨target, target', htarget, htarget', halike⟩
  · rw [hnone, hnone']
  · rw [htarget, htarget', Option.any_some, Option.any_some, halike.kind]

theorem keyFindings_eq (h : s.Counterpart s') (ht : t ∈ s.types) (htu : t.Alike u) :
    s.keyFindings t = s'.keyFindings u := by
  rw [keyFindings, keyFindings, ← htu.keyName, ← htu.isRoot, ← htu.location, ← htu.name]
  cases t.keyName with
  | none => rfl
  | some key =>
    cases hroot : t.isRoot with
    | false => rfl
    | true =>
      rcases htu.field? (h.nodup_fields ht (isObject_of_isRoot hroot)) key with
        ⟨hnone, hnone'⟩ | ⟨f, g, hf, hg, hfg⟩
      · simp only [hnone, hnone']
      · simp only [hf, hg, h.isKeyable_eq hfg, hfg.location]

/-! ### Relations -/

/-- A field with its owner and its target, on both sides. -/
structure Ends (s s' : Schema) (owner owner' target target' : TypeDef) (f f' : FieldDef) :
    Prop where
  owner_mem : owner ∈ s.types
  owner_mem' : owner' ∈ s'.types
  target_mem : target ∈ s.types
  target_mem' : target' ∈ s'.types
  field_mem : f ∈ owner.fields
  field_mem' : f' ∈ owner'.fields
  owner : owner.Alike owner'
  target : target.Alike target'
  field : f.Alike f'

theorem inverseIssues_eq (h : s.Counterpart s')
    (hends : Ends s s' owner owner' target target' f f') (hroot : target.isRoot = true)
    (name : String) :
    s.inverseIssues owner f target name = s'.inverseIssues owner' f' target' name := by
  have hback : ∀ g g' : FieldDef, g.Alike g' →
      (s.targetId? g ≠ some owner.id ↔ s'.targetId? g' ≠ some owner'.id) := by
    intro g g' hg
    rw [ne_eq, ne_eq, h.lawful.built.numbered.targetId?_eq_some_iff h.nodup_types hends.owner_mem,
      h.built.numbered.targetId?_eq_some_iff h.nodup_types' hends.owner_mem', hg.typeName,
      hends.owner.name]
  have hnodup := h.nodup_fields hends.target_mem (isObject_of_isRoot hroot)
  simp only [inverseIssues, TypeDef.qualify, hends.owner.name, hends.target.name,
    hends.field.name]
  rcases hends.target.field? hnodup name with ⟨hnone, hnone'⟩ | ⟨g, g', hg, hg', hgg'⟩
  · simp only [hnone, hnone']
  · simp only [hg, hg', hgg'.isRelation, hgg'.inverseOf, hgg'.typeName, hback g g' hgg']

theorem inverseCandidates_rearranged (h : s.Counterpart s')
    (hends : Ends s s' owner owner' target target' f f') :
    Rearranged FieldDef.Alike (s.inverseCandidates f target)
      (s'.inverseCandidates f' target') := by
  refine hends.target.fields.filter fun g hg g' hg' hgg' => ?_
  rw [h.lawful.built.numbered.leadsBack_eq h.nodup_types hends.owner_mem hends.field_mem,
    h.built.numbered.leadsBack_eq h.nodup_types' hends.owner_mem' hends.field_mem',
    hgg'.isRelation, hgg'.typeName, hgg'.inverseOf, hends.owner.name, hends.field.name]

theorem unpaired_rearranged (h : s.Counterpart s')
    (hends : Ends s s' owner owner' target target' f f') (hroot : owner.isRoot = true) :
    Rearranged FieldDef.Alike (s.unpaired f target) (s'.unpaired f' target') := by
  have hobject := isObject_of_isRoot hroot
  refine hends.target.fields.filter fun g hg g' hg' hgg' => ?_
  rw [h.lawful.built.numbered.id_bne_eq h.nodup_types hends.owner_mem
      (h.nodup_fields hends.owner_mem hobject) hends.field_mem hends.target_mem hg,
    h.built.numbered.id_bne_eq h.nodup_types' hends.owner_mem'
      (h.nodup_fields' hends.owner_mem hobject hends.owner) hends.field_mem'
      hends.target_mem' hg',
    h.lawful.built.numbered.leadsBack_eq h.nodup_types hends.owner_mem hends.field_mem,
    h.built.numbered.leadsBack_eq h.nodup_types' hends.owner_mem' hends.field_mem',
    hgg'.isRelation, hgg'.typeName, hgg'.inverseOf, hgg'.name, hends.owner.name,
    hends.field.name, hends.target.name]

theorem pairingFindings_eq (h : s.Counterpart s')
    (hends : Ends s s' owner owner' target target' f f') (hroot : owner.isRoot = true)
    (hsingle : (s.inverseCandidates f target).length ≤ 1) :
    s.pairingFindings owner f target = s'.pairingFindings owner' f' target' := by
  have hcandidates := h.inverseCandidates_rearranged hends
  rw [pairingFindings, pairingFindings]
  rcases hleft : s.inverseCandidates f target with _ | ⟨g, _ | ⟨g₂, rest⟩⟩
  · rw [hleft] at hcandidates
    rw [List.length_eq_zero_iff.1 hcandidates.length_eq.symm]
    -- Nobody claims the field, so it is remarked upon if there is one other field it could pair.
    have hunpaired := h.unpaired_rearranged hends hroot
    rcases hothers : s.unpaired f target with _ | ⟨g, _ | ⟨g₂, rest⟩⟩
    · rw [hothers] at hunpaired
      rw [List.length_eq_zero_iff.1 hunpaired.length_eq.symm]
    · rw [hothers] at hunpaired
      obtain ⟨g', hg', hgg'⟩ := hunpaired.eq_singleton
      simp only [hg', TypeDef.qualify, hends.target.name, hgg'.name,
        hends.field.location]
    · rw [hothers] at hunpaired
      have hlength := hunpaired.length_eq
      rcases hothers' : s'.unpaired f' target' with _ | ⟨_, _ | _⟩
      · simp [hothers'] at hlength
      · simp [hothers'] at hlength
      · rfl
  · rw [hleft] at hcandidates
    obtain ⟨g', hg', -⟩ := hcandidates.eq_singleton
    rw [hg']
  · rw [hleft] at hsingle
    simp at hsingle

/-! ### Fields -/

theorem relationFindings_eq (h : s.Counterpart s')
    (hends : Ends s s' owner owner' target target' f f') (hrules : s.RelationRules owner f target) :
    s.relationFindings owner f target = s'.relationFindings owner' f' target' := by
  rw [relationFindings, relationFindings, ← hends.owner.isRoot, ← hends.target.isRoot,
    hrules.ownerRoot, hrules.targetRoot, ← hends.field.inverseOf, ← hends.field.location,
    Bool.and_self, if_pos rfl, if_pos rfl]
  cases hinverse : f.inverseOf with
  | some name => simp only [h.inverseIssues_eq hends hrules.targetRoot name]
  | none => exact h.pairingFindings_eq hends hrules.ownerRoot (hrules.pairing hinverse)

theorem referenceIssues_eq (h : s.Counterpart s')
    (hends : Ends s s' owner owner' target target' f f') :
    referenceIssues f target = referenceIssues f' target' := by
  rw [referenceIssues, referenceIssues, ← hends.target.isRoot, ← hends.target.name,
    ← hends.field.isList]
  cases hroot : target.isRoot with
  | false => rfl
  | true =>
    have hnodup := h.nodup_fields hends.target_mem (isObject_of_isRoot hroot)
    have hkey : target.keyField?.isNone = target'.keyField?.isNone := by
      rw [TypeDef.keyField?, TypeDef.keyField?, ← hends.target.keyName]
      cases target.keyName with
      | none => rfl
      | some name =>
        rcases hends.target.field? hnodup name with ⟨hnone, hnone'⟩ | ⟨g, g', hg, hg', -⟩
        · simp only [Option.bind_some, hnone, hnone']
        · simp only [Option.bind_some, hg, hg', Option.isNone_some]
    rw [hkey]

theorem typedFindings_eq (h : s.Counterpart s')
    (hends : Ends s s' owner owner' target target' f f') (hrules : s.TypedRules owner f target) :
    s.typedFindings owner f target = s'.typedFindings owner' f' target' := by
  have hembedding : embeddingIssues owner f target = embeddingIssues owner' f' target' := by
    simp only [embeddingIssues, hends.owner.kind, hends.owner.name, hends.field.name,
      hends.field.isList, hends.target.kind, hends.target.name]
  have hcalc : calcIssues f target = calcIssues f' target' := by
    simp only [calcIssues, hends.field.operators, hends.field.isList, hends.target.name]
  have hrelation : (if f.isRelation then s.relationFindings owner f target else []) =
      if f'.isRelation then s'.relationFindings owner' f' target' else [] := by
    rw [← hends.field.isRelation]
    by_cases hrel : f.isRelation = true
    · rw [if_pos hrel, if_pos hrel]
      exact h.relationFindings_eq hends (hrules.relation hrel)
    · rw [if_neg hrel, if_neg hrel]
  rw [typedFindings, typedFindings, hrelation, hembedding, hcalc, h.referenceIssues_eq hends,
    hends.field.isReference, hends.field.isRelation, hends.field.location]

/-- What is found for a field does not depend on the order. -/
theorem fieldFindings_eq (h : s.Counterpart s') (ht : t ∈ s.declaredTypes) (hu : u ∈ s'.types)
    (htu : t.Alike u) (hf : f ∈ t.declaredFields) (hf' : f' ∈ u.fields) (hff' : f.Alike f') :
    s.fieldFindings t f = s'.fieldFindings u f' := by
  obtain ⟨target, htarget, hrules⟩ := (h.keepsRules.fields t ht f hf).typed
  rcases h.target? hff' with ⟨hnone, -⟩ | ⟨target₂, target', htarget₂, htarget', halike⟩
  · rw [hnone] at htarget
    cases htarget
  · obtain rfl : target = target₂ := Option.some.inj (htarget.symm.trans htarget₂)
    have hends : Ends s s' t u target target' f f' := ⟨(List.mem_filter.1 ht).1, hu,
      mem_types_of_target? htarget, mem_types_of_target? htarget', (List.mem_filter.1 hf).1, hf',
      htu, halike, hff'⟩
    rw [fieldFindings, fieldFindings, htarget, htarget', h.ownIssues_eq hff', hff'.location]
    exact congrArg _ (h.typedFindings_eq hends hrules)

/-! ### Types -/

theorem duplicateFields_eq_nil (h : (t.fields.map (·.name)).Nodup) : t.duplicateFields = [] := by
  refine List.filter_eq_nil_iff.2 fun f _ => ?_
  have hle := length_filter_name_le_one h f.name
  simpa using hle

theorem emptinessIssues_eq (htu : t.Alike u) : t.emptinessIssues = u.emptinessIssues := by
  have hempty : t.declaredFields.isEmpty = u.declaredFields.isEmpty := by
    rw [Bool.eq_iff_iff, List.isEmpty_iff, List.isEmpty_iff, ← List.length_eq_zero_iff,
      ← List.length_eq_zero_iff, htu.declaredFields.length_eq]
  rw [TypeDef.emptinessIssues, TypeDef.emptinessIssues, hempty, htu.name]

theorem contentFindings_eq (h : s.Counterpart s') (ht : t ∈ s.types) (htu : t.Alike u) :
    t.contentFindings = u.contentFindings := by
  have hobject : t.kind.isObject = true → findAt t.location t.emptinessIssues ++
        t.duplicateFields.map (fun f => ⟨.duplicateField f.name, f.location⟩) =
      findAt u.location u.emptinessIssues ++
        u.duplicateFields.map (fun f => ⟨.duplicateField f.name, f.location⟩) := by
    intro hobject
    rw [duplicateFields_eq_nil (h.nodup_fields ht hobject),
      duplicateFields_eq_nil (h.nodup_fields' ht hobject htu), emptinessIssues_eq htu,
      htu.location]
  rw [TypeDef.contentFindings, TypeDef.contentFindings, ← htu.kind]
  cases hkind : t.kind with
  | scalar => rfl
  | enum => simp only [TypeDef.enumIssues, htu.location, htu.values, htu.name]
  | valueObject | entityExtension | childEntity | rootEntity =>
    exact hobject (by rw [hkind]; rfl)

/-- What is found for a type as a whole does not depend on the order. -/
theorem typeFindings_eq (h : s.Counterpart s') (ht : t ∈ s.types) (htu : t.Alike u) :
    s.typeFindings t = s'.typeFindings u := by
  rw [typeFindings, typeFindings, h.contentFindings_eq ht htu, h.keyFindings_eq ht htu,
    h.typePermissionIssues_eq htu, htu.location, htu.name]

theorem declarationFindings_perm (h : s.Counterpart s') (ht : t ∈ s.declaredTypes)
    (hu : u ∈ s'.types) (htu : t.Alike u) :
    (s.declarationFindings t).Perm (s'.declarationFindings u) := by
  rw [declarationFindings, declarationFindings,
    h.typeFindings_eq (List.mem_filter.1 ht).1 htu]
  refine .append_left _ (htu.declaredFields.flatMap_perm fun f hf f' hf' hff' => ?_)
  rw [h.fieldFindings_eq ht hu htu hf (List.mem_filter.1 hf').1 hff']

/-! ### Whole schemas -/

theorem typeNameFindings_eq_nil (h : (s.types.map (·.name)).Nodup) : s.typeNameFindings = [] := by
  refine List.filterMap_eq_nil_iff.2 fun t _ => if_pos ?_
  have hle := length_filter_name_le_one h t.name
  omega

theorem profileFindings_eq_nil (h : (s.profiles.map (·.name)).Nodup) : s.profileFindings = [] := by
  rw [profileFindings, List.map_eq_nil_iff, List.filter_eq_nil_iff]
  intro p _
  have hle := length_filter_name_le_one h p.name
  simpa using hle

/-- What is found in all is the same up to the order. -/
theorem findings_perm (h : s.Counterpart s') : s.findings.Perm s'.findings := by
  have hprofiles := h.keepsRules.profileNames
  have hprofiles' := (h.alike.profiles.map (·.name)).nodup_iff.1 hprofiles
  rw [findings, findings, typeNameFindings_eq_nil h.nodup_types,
    typeNameFindings_eq_nil h.nodup_types', profileFindings_eq_nil hprofiles,
    profileFindings_eq_nil hprofiles']
  have hdeclared : Rearranged TypeDef.Alike s.declaredTypes s'.declaredTypes :=
    h.alike.types.filter fun t _ u _ htu => by rw [htu.isBuiltin]
  refine hdeclared.flatMap_perm fun t ht u hu htu => ?_
  exact h.declarationFindings_perm ht (List.mem_filter.1 hu).1 htu

end Counterpart

end Schema

/-! ### Acceptance -/

/-- The outcomes of acceptance, without the reasons. -/
inductive Verdict where
  | accepted
  | unreadable
  | unbuildable
  | rejected
  deriving DecidableEq

/-- The outcome of an attempt to accept a schema. -/
def verdict : Except Refusal AcceptedSchema → Verdict
  | .ok _ => .accepted
  | .error .unreadable => .unreadable
  | .error (.unbuildable _) => .unbuildable
  | .error (.rejected _) => .rejected

theorem Schema.verdict_accept (s : Schema) :
    verdict s.accept = if s.check.hasErrors then .rejected else .accepted := by
  rw [Schema.accept]
  by_cases herrors : s.check.hasErrors = false
  · rw [dif_pos herrors, herrors]
    rfl
  · rw [dif_neg herrors, if_pos (by simpa using herrors)]
    rfl

namespace SchemaDecl.Reordered

variable {d d' : SchemaDecl} {s s' : Schema}

theorem counterpart (h : d.Reordered d') (hs : Schema.ofDecl d = .ok s)
    (hs' : Schema.ofDecl d' = .ok s') (hclean : Clean s.findings) : s.Counterpart s' := by
  obtain ⟨s'', hs'', halike⟩ := h.exists_alike hs
  obtain rfl : s' = s'' := Except.ok.inj (hs'.symm.trans hs'')
  exact ⟨⟨Schema.built_of_ofDecl hs, hclean⟩, Schema.built_of_ofDecl hs', halike⟩

theorem clean_of_clean (h : d.Reordered d') (hs : Schema.ofDecl d = .ok s)
    (hs' : Schema.ofDecl d' = .ok s') (hclean : Clean s.findings) : Clean s'.findings := by
  have hperm := (h.counterpart hs hs' hclean).findings_perm
  exact fun x hx => hclean x (hperm.mem_iff.2 hx)

theorem hasErrors_eq (h : d.Reordered d') (hs : Schema.ofDecl d = .ok s)
    (hs' : Schema.ofDecl d' = .ok s') : s.check.hasErrors = s'.check.hasErrors := by
  rw [← Bool.not_inj_iff, Bool.eq_iff_iff, Bool.not_eq_true', Bool.not_eq_true',
    hasErrors_check_eq_false_iff, hasErrors_check_eq_false_iff]
  exact ⟨h.clean_of_clean hs hs', h.symm.clean_of_clean hs' hs⟩

end SchemaDecl.Reordered

/-- **Acceptance does not depend on the order.** If types, profiles and the fields of types are
declared in another order, the declaration is accepted, rejected or cannot be built as before, and
the reports of accepted schemas differ only in their order. -/
theorem acceptance_order_independent {d d' : SchemaDecl} (h : d.Reordered d') :
    verdict d.accept = verdict d'.accept ∧ ∀ a a', d.accept = .ok a → d'.accept = .ok a' →
      a.report.Perm a'.report := by
  constructor
  · cases hs : Schema.ofDecl d with
    | ok s =>
      obtain ⟨s', hs', -⟩ := h.exists_alike hs
      rw [SchemaDecl.accept, SchemaDecl.accept, hs, hs']
      simp only [Schema.verdict_accept, h.hasErrors_eq hs hs']
    | error e =>
      cases hs' : Schema.ofDecl d' with
      | ok s' =>
        obtain ⟨s, hs₂, -⟩ := h.symm.exists_alike hs'
        rw [hs] at hs₂
        cases hs₂
      | error e' =>
        rw [SchemaDecl.accept, SchemaDecl.accept, hs, hs']
        rfl
  · intro a a' ha ha'
    have hclean := hasErrors_check_eq_false_iff.1 a.sound
    have hcounterpart := h.counterpart (SchemaDecl.ofDecl_of_accept ha)
      (SchemaDecl.ofDecl_of_accept ha') hclean
    exact hcounterpart.findings_perm.map _

/-- The declaration with everything in the opposite order. -/
def SchemaDecl.reverse (d : SchemaDecl) : SchemaDecl :=
  ⟨(d.types.map fun t => { t with fields := t.fields.reverse }).reverse, d.profiles.reverse⟩

theorem SchemaDecl.reordered_reverse (d : SchemaDecl) : d.Reordered d.reverse := by
  refine ⟨⟨_, List.forall₂_map_right_iff.2 (List.forall₂_same.2 fun t _ => ?_),
    (List.reverse_perm _).symm⟩, (List.reverse_perm _).symm⟩
  exact ⟨t.fields.reverse, (List.reverse_perm _).symm, rfl⟩

/-- The shop is accepted in the opposite order too, with the same remarks. -/
theorem shop_accepted_in_reverse : shopDecl.Reordered shopDecl.reverse ∧ shop.report ≠ [] ∧
    ∃ a, shopDecl.reverse.accept = .ok a ∧ shop.report.Perm a.report := by
  have hreordered := shopDecl.reordered_reverse
  obtain ⟨hverdict, hreport⟩ := acceptance_order_independent hreordered
  rw [accept_shopDecl] at hverdict hreport
  refine ⟨hreordered, by decide, ?_⟩
  cases ha : shopDecl.reverse.accept with
  | ok a => exact ⟨a, rfl, hreport shop a rfl ha⟩
  | error e =>
    rw [ha] at hverdict
    cases e <;> cases hverdict

end EntityGraph
