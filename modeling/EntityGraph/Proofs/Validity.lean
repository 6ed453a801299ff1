import EntityGraph.Proofs.Rules
import Mathlib.Data.List.Nodup

/-!
# The rules of schemas

What a schema has to be like, said without the checks, and that the checks find an error exactly
where a rule is broken. A check may stop early or be left out: the fields of a type that is not
found are not followed, and a relation that does not join root entities is not paired. Each time
another error is certain, so nothing that breaks a rule slips through.

The rules of a field that depend on its type are those of `Schema.TypedRules`. Here the remaining
rules are added, and all of them are put together.

The name of a built-in scalar or of a system field is not checked by itself. That such names differ
from each other is a fact about schemas that can be built, and the equivalence is about those.

## Main definitions

* `IsName` — names of types and fields
* `Schema.PermissionRules`, `Schema.TypeRules`, `Schema.FieldRules` — the rules by what they concern
* `Schema.KeepsRules` — all rules together

## Main results

* `nodup_map_iff_of_checked` — when looking for repeated names among some members suffices
* `Schema.Built.clean_findings_iff` — the checks find an error exactly if a rule is broken
* `Schema.Lawful.field?_name` — the name of a field of an object type means that field
* `report_without_errors_iff_rules` — the same for the report of a declaration
-/

namespace EntityGraph

/-! ### Names -/

/-- A letter, followed by letters, digits and underscores. -/
def IsName (name : String) : Prop :=
  ∃ c cs, name.toList = c :: cs ∧ c.isAlpha = true ∧ ∀ d ∈ cs, d.isAlphanum = true ∨ d = '_'

theorem harmless_nameIssues_iff {what : Named} {name : String} :
    Harmless (nameIssues what name) ↔ IsName name := by
  rw [nameIssues, IsName]
  cases name.toList with
  | nil => simp [Issue.severity]
  | cons c cs =>
    have hpart : (∀ d ∈ cs, isIdentifierPart d = true) ↔
        ∀ d ∈ cs, d.isAlphanum = true ∨ d = '_' := by
      simp [isIdentifierPart]
    by_cases hunderscore : c = '_'
    · subst hunderscore
      simp [Issue.severity]
    · have hstart : isIdentifierStart c = true ↔ c.isAlpha = true := by
        simp [isIdentifierStart, hunderscore]
      have hstyle : Harmless ((if '_' ∈ cs then [.innerUnderscore what] else []) ++
          (if what.isUsualStart c then [] else [.unusualCase what])) := by
        simp [Issue.severity]
      simp only [hunderscore, if_false, harmless_ite, hstyle, isIdentifier_cons, hstart, hpart,
        List.cons.injEq]
      constructor
      · rintro ⟨h, -⟩
        by_contra hno
        refine absurd (h fun hname => hno ⟨c, cs, ⟨rfl, rfl⟩, hname⟩) ?_
        simp [Issue.severity]
      · rintro ⟨_, _, ⟨rfl, rfl⟩, hname⟩
        exact ⟨fun h => absurd hname h, fun _ => trivial⟩

/-! ### Repeated names -/

theorem repetitions_eq_nil_iff {seen vs : List String} :
    repetitions seen vs = [] ↔ vs.Nodup ∧ ∀ v ∈ vs, v ∉ seen := by
  induction vs generalizing seen with
  | nil => simp [repetitions]
  | cons v vs ih =>
    rw [repetitions]
    by_cases hv : v ∈ seen
    · simp [hv]
    · rw [if_neg hv, ih, List.nodup_cons]
      constructor
      · rintro ⟨hnodup, hfresh⟩
        refine ⟨⟨fun hmem => hfresh v hmem List.mem_cons_self, hnodup⟩, ?_⟩
        rw [List.forall_mem_cons]
        exact ⟨hv, fun w hw hseen => hfresh w hw (List.mem_cons_of_mem v hseen)⟩
      · rintro ⟨⟨hnew, hnodup⟩, hfresh⟩
        refine ⟨hnodup, fun w hw hseen => ?_⟩
        rcases List.mem_cons.1 hseen with rfl | hseen
        · exact hnew hw
        · exact hfresh w (List.mem_cons_of_mem v hw) hseen

section Names

variable {α : Type} {name : α → String} {xs : List α}

theorem count_map_name (a : String) (xs : List α) :
    (xs.map name).count a = (xs.filter fun x => name x == a).length := by
  rw [List.count, List.countP_map, List.countP_eq_length_filter]
  rfl

/-- If the members that are not checked have different names among themselves, all names are
different as soon as no checked member shares its name. -/
theorem nodup_map_iff_of_checked (checked : α → Bool)
    (hrest : ((xs.filter (!checked ·)).map name).Nodup) :
    (xs.map name).Nodup ↔
      ∀ x ∈ xs, checked x = true → (xs.filter fun y => name y == name x).length ≤ 1 := by
  rw [List.nodup_iff_count_le_one]
  constructor
  · intro h x _ _
    rw [← count_map_name]
    exact h (name x)
  · intro h a
    by_cases hshared : ∃ x ∈ xs, checked x = true ∧ name x = a
    · obtain ⟨x, hx, hchecked, rfl⟩ := hshared
      rw [count_map_name]
      exact h x hx hchecked
    · -- Only unchecked members have this name, so they alone are counted.
      have hunchecked : (xs.filter fun x => name x == a) =
          (xs.filter (!checked ·)).filter fun x => name x == a := by
        rw [List.filter_filter]
        refine List.filter_congr fun x hx => ?_
        by_cases hname : name x = a
        · have hno : checked x = false := by
            by_contra hyes
            exact hshared ⟨x, hx, by simpa using hyes, hname⟩
          simp [hname, hno]
        · simp [hname]
      rw [count_map_name, hunchecked, ← count_map_name]
      exact List.nodup_iff_count_le_one.1 hrest a

/-- If names are different, a name finds the member that carries it. -/
theorem find?_name_of_nodup (h : (xs.map name).Nodup) {x : α} (hx : x ∈ xs) :
    xs.find? (name · == name x) = some x := by
  cases hfound : xs.find? (name · == name x) with
  | none => exact absurd (beq_self_eq_true (name x)) (List.find?_eq_none.1 hfound x hx)
  | some y =>
    have hy : name y = name x := by simpa using List.find?_some hfound
    rw [List.inj_on_of_nodup_map h (List.mem_of_find?_eq_some hfound) hx hy]

end Names

namespace Schema

variable {s : Schema} {t : TypeDef} {f : FieldDef}

/-! ### Permissions -/

/-- The rules of permissions: a profile or roles, and not both, and the profile exists. -/
structure PermissionRules (s : Schema) (p : Permissions) : Prop where
  exclusive : p.profile = none ∨ p.roles = none
  profile : ∀ name, p.profile = some name → ∃ q ∈ s.profiles, q.name = name

theorem profile?_isNone_iff {name : String} :
    (s.profile? name).isNone = true ↔ ¬∃ q ∈ s.profiles, q.name = name := by
  simp [profile?]

theorem harmless_permissionIssues_iff {p : Permissions} :
    Harmless (s.permissionIssues p) ↔ s.PermissionRules p := by
  have hexclusive : Harmless (if p.profile.isSome && p.roles.isSome then
      [.profileAndRoles] else []) ↔ p.profile = none ∨ p.roles = none := by
    cases p.profile <;> cases p.roles <;> simp [Issue.severity]
  rw [permissionIssues, harmless_append]
  refine (and_congr hexclusive
    (d := ∀ name, p.profile = some name → ∃ q ∈ s.profiles, q.name = name) ?_).trans
      ⟨fun h => ⟨h.1, h.2⟩, fun h => ⟨h.exclusive, h.profile⟩⟩
  cases p.profile with
  | none => simp
  | some name =>
    simp only [harmless_ite, profile?_isNone_iff, harmless_cons, harmless_nil, Issue.severity,
      ne_eq, not_true, and_true, imp_false, not_not, Option.some.injEq, forall_eq']
    exact and_iff_left fun _ => trivial

/-- The rules of the permissions of a type: only a root entity has some, and it has its own or there
is the default profile. -/
structure TypePermissionRules (s : Schema) (t : TypeDef) : Prop where
  own : ∀ p, t.permissions = some p → t.isRoot = true ∧ s.PermissionRules p
  default : t.isRoot = true → t.permissions = none →
    ∃ q ∈ s.profiles, q.name = defaultProfileName

theorem harmless_typePermissionIssues_iff :
    Harmless (s.typePermissionIssues t) ↔ s.TypePermissionRules t := by
  rw [typePermissionIssues]
  cases hp : t.permissions with
  | some p =>
    have hrules : s.TypePermissionRules t ↔ t.isRoot = true ∧ s.PermissionRules p := by
      constructor
      · exact fun h => h.own p hp
      · intro h
        refine ⟨fun q hq => ?_, fun _ hnone => ?_⟩
        · rwa [← Option.some.inj (hp.symm.trans hq)]
        · rw [hp] at hnone
          cases hnone
    rw [hrules]
    cases t.isRoot <;> simp [Issue.severity, harmless_permissionIssues_iff]
  | none =>
    have hrules : s.TypePermissionRules t ↔
        (t.isRoot = true → ∃ q ∈ s.profiles, q.name = defaultProfileName) := by
      constructor
      · exact fun h hroot => h.default hroot hp
      · refine fun h => ⟨fun q hq => ?_, fun hroot _ => h hroot⟩
        rw [hp] at hq
        cases hq
    rw [hrules]
    simp only [harmless_ite, Bool.and_eq_true, profile?_isNone_iff, harmless_cons, Issue.severity,
      harmless_nil, ne_eq, not_true, false_and, imp_false, not_and, not_not]
    exact and_iff_left fun _ => trivial

/-! ### Types -/

/-- The rules of a type as a whole. -/
structure TypeRules (s : Schema) (t : TypeDef) : Prop where
  name : IsName t.name
  enum : t.kind = .enum → t.values ≠ [] ∧ t.values.Nodup
  object : t.kind.isObject = true → t.declaredFields ≠ [] ∧ (t.fields.map (·.name)).Nodup
  key : ∀ key, t.keyName = some key → t.isRoot = true ∧
    ∃ f, t.field? key = some f ∧ f.isList = false ∧
      ∃ target, s.target? f = some target ∧ target.kind.isPlain = true
  permissions : s.TypePermissionRules t

theorem harmless_enumIssues_iff : Harmless t.enumIssues ↔ t.values ≠ [] ∧ t.values.Nodup := by
  rw [TypeDef.enumIssues]
  have hrepeated : Harmless ((repetitions [] t.values).map (.duplicateEnumValue · t.name)) ↔
      t.values.Nodup := by
    have hnil : repetitions [] t.values = [] ↔ t.values.Nodup := by
      rw [repetitions_eq_nil_iff]
      simp
    rw [← hnil, harmless_map, List.eq_nil_iff_forall_not_mem]
    simp [Issue.severity]
  by_cases hempty : t.values = []
  · simp [hempty, Issue.severity]
  · simp [hempty, hrepeated]

/-- The fields that the schema does not declare have different names. -/
theorem Built.nodup_system (h : s.Built) (ht : t ∈ s.types) :
    ((t.fields.filter fun f => !(!f.isSystem)).map (·.name)).Nodup := by
  obtain ⟨system, declared, hfields, hnames, hsystem, hdeclared⟩ := h.fields_eq ht
  have hfront : (t.fields.filter fun f => !(!f.isSystem)) = system := by
    rw [hfields, List.filter_append, List.filter_eq_self.2, List.filter_eq_nil_iff.2,
      List.append_nil]
    · exact fun f hf => by simp [hdeclared f hf]
    · exact fun f hf => by simp [hsystem f hf]
  rw [hfront, hnames]
  split
  · decide
  · exact List.nodup_nil

theorem Built.clean_duplicateFields_iff (h : s.Built) (ht : t ∈ s.types) :
    Clean (t.duplicateFields.map fun f => ⟨.duplicateField f.name, f.location⟩) ↔
      (t.fields.map (·.name)).Nodup := by
  rw [nodup_map_iff_of_checked (!·.isSystem) (h.nodup_system ht)]
  simp only [Clean, List.forall_mem_map, Issue.severity, ne_eq, not_true, imp_false,
    TypeDef.duplicateFields, TypeDef.declaredFields, List.mem_filter, decide_eq_true_eq, not_and,
    Nat.not_lt, and_imp]

theorem Built.clean_contentFindings_iff (h : s.Built) (ht : t ∈ s.types) :
    Clean t.contentFindings ↔ (t.kind = .enum → t.values ≠ [] ∧ t.values.Nodup) ∧
      (t.kind.isObject = true → t.declaredFields ≠ [] ∧ (t.fields.map (·.name)).Nodup) := by
  have hfields : Clean (findAt t.location t.emptinessIssues ++
      t.duplicateFields.map fun f => ⟨.duplicateField f.name, f.location⟩) ↔
        t.declaredFields ≠ [] ∧ (t.fields.map (·.name)).Nodup := by
    rw [clean_append, clean_findAt, h.clean_duplicateFields_iff ht, TypeDef.emptinessIssues]
    refine and_congr_left fun _ => ?_
    simp [Issue.severity]
  rw [TypeDef.contentFindings]
  cases t.kind with
  | scalar => simp [TypeKind.isPlain]
  | enum => simp [TypeKind.isPlain, harmless_enumIssues_iff]
  | valueObject | entityExtension | childEntity | rootEntity =>
    simpa [TypeKind.isPlain] using hfields

theorem isKeyable_iff : s.isKeyable f = true ↔
    f.isList = false ∧ ∃ target, s.target? f = some target ∧ target.kind.isPlain = true := by
  simp [isKeyable, Option.any_eq_true]

/-- The checks of a type as a whole find an error exactly if one of its rules is broken. -/
theorem Built.clean_typeFindings_iff (h : s.Built) (ht : t ∈ s.types) :
    Clean (s.typeFindings t) ↔ s.TypeRules t := by
  have hkey : s.KeyRules t ↔ ∀ key, t.keyName = some key → t.isRoot = true ∧
      ∃ f, t.field? key = some f ∧ f.isList = false ∧
        ∃ target, s.target? f = some target ∧ target.kind.isPlain = true := by
    simp only [KeyRules, isKeyable_iff]
  rw [typeFindings, clean_append, clean_append, clean_append, clean_findAt, clean_findAt,
    harmless_nameIssues_iff, h.clean_contentFindings_iff ht, clean_keyFindings_iff, hkey,
    harmless_typePermissionIssues_iff]
  constructor
  · rintro ⟨⟨⟨hname, henum, hobject⟩, hkey⟩, hpermissions⟩
    exact ⟨hname, henum, hobject, hkey, hpermissions⟩
  · rintro ⟨hname, henum, hobject, hkey, hpermissions⟩
    exact ⟨⟨⟨hname, henum, hobject⟩, hkey⟩, hpermissions⟩

/-! ### Fields -/

/-- The rules of a declared field of the given type. -/
structure FieldRules (s : Schema) (owner : TypeDef) (f : FieldDef) : Prop where
  name : IsName f.name
  exclusive : ¬(f.isReference = true ∧ f.isRelation = true)
  inverse : f.inverseOf ≠ none → f.isRelation = true
  permissions : ∀ p, f.permissions = some p → s.PermissionRules p
  default : f.isRelation = true → f.defaultValue = none
  typed : ∃ target, s.target? f = some target ∧ s.TypedRules owner f target

theorem harmless_defaultIssues_iff :
    Harmless (defaultIssues f) ↔ (f.isRelation = true → f.defaultValue = none) := by
  rw [defaultIssues]
  cases f.defaultValue <;> cases f.isRelation <;> simp [Issue.severity]

theorem harmless_ownIssues_iff : Harmless (s.ownIssues f) ↔
    IsName f.name ∧ ¬(f.isReference = true ∧ f.isRelation = true) ∧
      (f.inverseOf ≠ none → f.isRelation = true) ∧
      (∀ p, f.permissions = some p → s.PermissionRules p) ∧
      (f.isRelation = true → f.defaultValue = none) := by
  have hexclusive : Harmless (if f.isReference && f.isRelation then
      [.referenceAndRelation] else []) ↔ ¬(f.isReference = true ∧ f.isRelation = true) := by
    cases f.isReference <;> cases f.isRelation <;> simp [Issue.severity]
  have hinverse : Harmless (if f.inverseOf.isSome && !f.isRelation then
      [.inverseOnNonRelation] else []) ↔ (f.inverseOf ≠ none → f.isRelation = true) := by
    cases f.inverseOf <;> cases f.isRelation <;> simp [Issue.severity]
  have hpermissions : Harmless ((f.permissions.map s.permissionIssues).getD []) ↔
      ∀ p, f.permissions = some p → s.PermissionRules p := by
    cases f.permissions <;> simp [harmless_permissionIssues_iff]
  rw [ownIssues, harmless_append, harmless_append, harmless_append, harmless_append,
    harmless_nameIssues_iff, hexclusive, hinverse, hpermissions, harmless_defaultIssues_iff]
  simp only [and_assoc]

/-- The checks of a field find an error exactly if one of its rules is broken. -/
theorem clean_fieldFindings_iff {owner : TypeDef} :
    Clean (s.fieldFindings owner f) ↔ s.FieldRules owner f := by
  rw [fieldFindings, clean_append, clean_findAt, harmless_ownIssues_iff]
  refine (and_congr_right'
    (c := ∃ target, s.target? f = some target ∧ s.TypedRules owner f target) ?_).trans ?_
  · cases s.target? f with
    | none => simp [untypedIssues, Issue.severity]
    | some target => simp [clean_typedFindings_iff]
  constructor
  · rintro ⟨⟨hname, hexclusive, hinverse, hpermissions, hdefault⟩, htyped⟩
    exact ⟨hname, hexclusive, hinverse, hpermissions, hdefault, htyped⟩
  · rintro ⟨hname, hexclusive, hinverse, hpermissions, hdefault, htyped⟩
    exact ⟨⟨hname, hexclusive, hinverse, hpermissions, hdefault⟩, htyped⟩

/-! ### Whole schemas -/

/-- All rules of a schema. -/
structure KeepsRules (s : Schema) : Prop where
  typeNames : (s.declaredTypes.map (·.name)).Nodup
  notReserved : ∀ t ∈ s.declaredTypes, t.name ∉ builtinScalars
  profileNames : (s.profiles.map (·.name)).Nodup
  types : ∀ t ∈ s.declaredTypes, s.TypeRules t
  fields : ∀ t ∈ s.declaredTypes, ∀ f ∈ t.declaredFields, s.FieldRules t f

/-- The types of a schema are the built-in scalars and the declared types. -/
theorem Built.types_eq_declaredTypes (h : s.Built) :
    s.types = Schema.initial.types ++ s.declaredTypes := by
  induction h with
  | initial => rfl
  | addProfile _ _ ih => exact ih
  | addType _ hadd ih =>
    obtain ⟨drafts, -, rfl⟩ := addType_eq_ok.1 hadd
    rw [declaredTypes, List.filter_append, ← List.append_assoc]
    exact congrArg (· ++ [_]) ih

/-- Sharing the name of another type is an error, whichever of the two it is reported as. -/
theorem clean_typeNameFindings_iff : Clean s.typeNameFindings ↔ ∀ t ∈ s.types,
    (!t.isBuiltin) = true → (s.types.filter (·.name == t.name)).length ≤ 1 := by
  rw [typeNameFindings, Clean]
  simp only [List.mem_filterMap, forall_exists_index, and_imp, declaredTypes, List.mem_filter]
  constructor
  · intro hclean t ht hdeclared
    by_contra hmany
    have hshared : ¬(s.types.filter (·.name == t.name)).length < 2 := by omega
    have hfound := fun x => hclean x t ht hdeclared
    rw [if_neg hshared] at hfound
    split at hfound
    · exact hfound _ rfl rfl
    · exact hfound _ rfl rfl
  · intro hsingle x t ht hdeclared hx
    have hlt : (s.types.filter (·.name == t.name)).length < 2 :=
      Nat.lt_succ_of_le (hsingle t ht hdeclared)
    rw [if_pos hlt] at hx
    cases hx

theorem Built.filter_isBuiltin (h : s.Built) :
    (s.types.filter fun t => !(!t.isBuiltin)) = Schema.initial.types := by
  have hdeclared : (s.declaredTypes.filter fun t => !(!t.isBuiltin)) = [] := by
    simp [declaredTypes, List.filter_filter]
  rw [h.types_eq_declaredTypes, List.filter_append, hdeclared, List.append_nil]
  rfl

theorem map_name_initial : Schema.initial.types.map (·.name) = builtinScalars := rfl

/-- The names of all types differ exactly if the declared ones differ and none is reserved. -/
theorem Built.nodup_typeNames_iff (h : s.Built) : (s.types.map (·.name)).Nodup ↔
    (s.declaredTypes.map (·.name)).Nodup ∧ ∀ t ∈ s.declaredTypes, t.name ∉ builtinScalars := by
  rw [h.types_eq_declaredTypes, List.map_append, map_name_initial, List.nodup_append']
  constructor
  · rintro ⟨-, hnodup, hdisjoint⟩
    exact ⟨hnodup, fun t ht hmem => hdisjoint hmem (List.mem_map_of_mem ht)⟩
  · rintro ⟨hnodup, hreserved⟩
    refine ⟨by decide, hnodup, fun name hname hmem => ?_⟩
    obtain ⟨t, ht, rfl⟩ := List.mem_map.1 hmem
    exact hreserved t ht hname

theorem Built.clean_typeNameFindings_iff_nodup (h : s.Built) :
    Clean s.typeNameFindings ↔ (s.types.map (·.name)).Nodup := by
  have hbuiltin : ((s.types.filter fun t => !(!t.isBuiltin)).map (·.name)).Nodup := by
    rw [h.filter_isBuiltin, map_name_initial]
    decide
  rw [clean_typeNameFindings_iff, nodup_map_iff_of_checked (!·.isBuiltin) hbuiltin]

theorem clean_profileFindings_iff :
    Clean s.profileFindings ↔ (s.profiles.map (·.name)).Nodup := by
  rw [nodup_map_iff_of_checked (fun _ => true) (by simp)]
  simp only [profileFindings, Clean, List.forall_mem_map, Issue.severity, ne_eq, not_true,
    imp_false, List.mem_filter, decide_eq_true_eq, not_and, Nat.not_lt, forall_const]

/-- The checks find an error exactly if a rule is broken. -/
theorem Built.clean_findings_iff (h : s.Built) : Clean s.findings ↔ s.KeepsRules := by
  have hdeclaration : ∀ t ∈ s.declaredTypes, Clean (s.declarationFindings t) ↔
      s.TypeRules t ∧ ∀ f ∈ t.declaredFields, s.FieldRules t f := by
    intro t ht
    rw [declarationFindings, clean_append, clean_flatMap,
      h.clean_typeFindings_iff (List.mem_filter.1 ht).1]
    simp only [clean_fieldFindings_iff]
  rw [findings, clean_append, clean_append, clean_flatMap, h.clean_typeNameFindings_iff_nodup,
    h.nodup_typeNames_iff, clean_profileFindings_iff]
  constructor
  · rintro ⟨⟨⟨hnames, hreserved⟩, hprofiles⟩, hdeclarations⟩
    refine ⟨hnames, hreserved, hprofiles, fun t ht => ?_, fun t ht => ?_⟩
    · exact ((hdeclaration t ht).1 (hdeclarations t ht)).1
    · exact ((hdeclaration t ht).1 (hdeclarations t ht)).2
  · rintro ⟨hnames, hreserved, hprofiles, htypes, hfields⟩
    exact ⟨⟨⟨hnames, hreserved⟩, hprofiles⟩,
      fun t ht => (hdeclaration t ht).2 ⟨htypes t ht, hfields t ht⟩⟩

namespace Lawful

theorem keepsRules (h : s.Lawful) : s.KeepsRules := h.built.clean_findings_iff.1 h.clean

/-- The fields of an object type have different names. -/
theorem nodup_fieldNames (h : s.Lawful) (ht : t ∈ s.types) (hobject : t.kind.isObject = true) :
    (t.fields.map (·.name)).Nodup := by
  cases hfields : t.fields with
  | nil => exact List.nodup_nil
  | cons f rest =>
    have hbuiltin := h.built.not_isBuiltin ht (hfields ▸ List.mem_cons_self)
    have hrules := h.keepsRules.types t (List.mem_filter.2 ⟨ht, by simp [hbuiltin]⟩)
    rw [← hfields]
    exact (hrules.object hobject).2

/-- The name of a field of an object type means that field. -/
theorem field?_name (h : s.Lawful) (ht : t ∈ s.types) (hobject : t.kind.isObject = true)
    (hf : f ∈ t.fields) : t.field? f.name = some f :=
  find?_name_of_nodup (h.nodup_fieldNames ht hobject) hf

end Lawful

end Schema

/-- **Checks are sound and complete.** The report on a schema that is built from a declaration has
no errors exactly if the schema keeps all rules. -/
theorem report_without_errors_iff_rules {decl : SchemaDecl} {s : Schema}
    (h : Schema.ofDecl decl = .ok s) : s.check.hasErrors = false ↔ s.KeepsRules := by
  rw [hasErrors_check_eq_false_iff]
  exact (Schema.built_of_ofDecl h).clean_findings_iff

/-- The shop keeps all rules. Without its default profile it breaks one, as its root entities have
no permissions of their own. -/
theorem shop_keeps_rules :
    (Schema.ofDecl shopDecl = .ok shop.schema ∧ shop.schema.KeepsRules) ∧
      ∃ s, Schema.ofDecl { shopDecl with profiles := [] } = .ok s ∧ ¬s.KeepsRules := by
  have hshop : Schema.ofDecl shopDecl = .ok shop.schema := rfl
  obtain ⟨s, hs, herrors⟩ : ∃ s, Schema.ofDecl { shopDecl with profiles := [] } = .ok s ∧
      s.check.hasErrors = true := ⟨_, rfl, by decide⟩
  refine ⟨⟨hshop, (report_without_errors_iff_rules hshop).1 shop.sound⟩, s, hs, fun hrules => ?_⟩
  have hclean := (report_without_errors_iff_rules hs).2 hrules
  rw [herrors] at hclean
  cases hclean

end EntityGraph
