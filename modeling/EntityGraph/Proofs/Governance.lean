import EntityGraph.Proofs.Validity

/-!
# Who governs a root entity

What may be done with the entities of a type is said in one of three places: by the profile that
the type names, by the roles that it gives, or by the default profile if it says nothing at all.
`Schema.GovernedBy` has one constructor for each of them and does not mention any look-up.

In an accepted schema a root entity is governed by exactly one of the three. There is a single
exception. Permissions that are given, but name neither a profile nor roles, pass all checks: they
do not combine anything, and there is no profile to look for. Since they are given, the default
profile does not apply either, and nothing governs the type.

## Main definitions

* `Governance`, `Schema.GovernedBy` — the rule for a type, and where it comes from
* `Permissions.blank` — permissions that say nothing

## Main results

* `Schema.Lawful.typeProfile?_eq_some_iff` — the profile of a type is the one that governs it
* `Schema.Lawful.governedBy_unique`, `Schema.Lawful.exists_governedBy` — there is one rule
* `roots_governed_iff` — root entities are governed exactly if their permissions are not blank
-/

namespace EntityGraph

/-- What says who may read and write the entities of a type. -/
inductive Governance where
  | profile (q : Profile)
  | roles (roles : Roles)

/-- Permissions that name neither a profile nor roles. -/
def Permissions.blank : Permissions := ⟨none, none⟩

namespace Schema

variable {s : Schema} {t : TypeDef} {q : Profile} {g g' : Governance}

/-- The type is governed by the profile that it names, by its own roles, or by the default
profile. -/
inductive GovernedBy (s : Schema) (t : TypeDef) : Governance → Prop
  | named {p : Permissions} {q : Profile} (hp : t.permissions = some p)
      (hname : p.profile = some q.name) (hq : q ∈ s.profiles) : GovernedBy s t (.profile q)
  | roles {p : Permissions} {roles : Roles} (hp : t.permissions = some p)
      (hroles : p.roles = some roles) : GovernedBy s t (.roles roles)
  | default {q : Profile} (hroot : t.isRoot = true) (hp : t.permissions = none)
      (hname : q.name = defaultProfileName) (hq : q ∈ s.profiles) : GovernedBy s t (.profile q)

theorem governedBy_roles_iff {roles : Roles} :
    s.GovernedBy t (.roles roles) ↔ ∃ p, t.permissions = some p ∧ p.roles = some roles := by
  constructor
  · intro h
    cases h with
    | roles hp hroles => exact ⟨_, hp, hroles⟩
  · rintro ⟨p, hp, hroles⟩
    exact .roles hp hroles

/-- Blank permissions leave a type without a rule, whatever profiles there are. -/
theorem not_governedBy_blank (hp : t.permissions = some .blank) : ¬s.GovernedBy t g := by
  intro h
  cases h with
  | named hp' hname =>
    rw [← Option.some.inj (hp.symm.trans hp')] at hname
    cases hname
  | roles hp' hroles =>
    rw [← Option.some.inj (hp.symm.trans hp')] at hroles
    cases hroles
  | default _ hp' =>
    rw [hp] at hp'
    cases hp'

theorem Built.not_isBuiltin_of_isRoot (h : s.Built) (ht : t ∈ s.types) (hroot : t.isRoot = true) :
    t.isBuiltin = false := by
  rcases h.origin ht with hinitial | ⟨decl, drafts, first, -, hdef⟩
  · obtain ⟨index, name, rfl⟩ := Built.eq_builtin_of_mem_initial hinitial
    cases hroot
  · rw [hdef]
    rfl

namespace Lawful

/-- A name means the profile that carries it. -/
theorem profile?_eq_some_iff (h : s.Lawful) {name : String} :
    s.profile? name = some q ↔ q ∈ s.profiles ∧ q.name = name := by
  constructor
  · intro hfound
    exact ⟨List.mem_of_find?_eq_some hfound, by simpa using List.find?_some hfound⟩
  · rintro ⟨hq, rfl⟩
    exact find?_name_of_nodup h.keepsRules.profileNames hq

/-- The profile of a type is the one that governs it. -/
theorem typeProfile?_eq_some_iff (h : s.Lawful) :
    s.typeProfile? t = some q ↔ s.GovernedBy t (.profile q) := by
  rw [typeProfile?]
  cases hp : t.permissions with
  | some p =>
    simp only [Option.bind_eq_some_iff, h.profile?_eq_some_iff]
    constructor
    · rintro ⟨name, hname, hq, rfl⟩
      exact .named hp hname hq
    · intro hgoverned
      cases hgoverned with
      | named hp' hname hq =>
        obtain rfl := Option.some.inj (hp.symm.trans hp')
        exact ⟨q.name, hname, hq, rfl⟩
      | default _ hp' =>
        rw [hp] at hp'
        cases hp'
  | none =>
    simp only [Option.ite_none_right_eq_some, h.profile?_eq_some_iff]
    constructor
    · rintro ⟨hroot, hq, hname⟩
      exact .default hroot hp hname hq
    · intro hgoverned
      cases hgoverned with
      | named hp' =>
        rw [hp] at hp'
        cases hp'
      | default hroot _ hname hq => exact ⟨hroot, hq, hname⟩

theorem typePermissionRules (h : s.Lawful) (ht : t ∈ s.types) (hroot : t.isRoot = true) :
    s.TypePermissionRules t := by
  have hdeclared := h.built.not_isBuiltin_of_isRoot ht hroot
  exact (h.keepsRules.types t (List.mem_filter.2 ⟨ht, by simp [hdeclared]⟩)).permissions

/-- No root entity is governed by two rules. -/
theorem governedBy_unique (h : s.Lawful) (ht : t ∈ s.types) (hroot : t.isRoot = true)
    (hg : s.GovernedBy t g) (hg' : s.GovernedBy t g') : g = g' := by
  -- A profile and roles are never given together, and without permissions there are no roles.
  have hapart : ∀ {q roles}, s.GovernedBy t (.profile q) → ¬s.GovernedBy t (.roles roles) := by
    intro q roles hprofile hroles
    obtain ⟨p, hp, hroles⟩ := governedBy_roles_iff.1 hroles
    cases hprofile with
    | named hp' hname =>
      obtain rfl := Option.some.inj (hp.symm.trans hp')
      rcases ((h.typePermissionRules ht hroot).own p hp).2.exclusive with hnone | hnone
      · rw [hname] at hnone
        cases hnone
      · rw [hroles] at hnone
        cases hnone
    | default _ hp' =>
      rw [hp] at hp'
      cases hp'
  cases g with
  | profile q =>
    cases g' with
    | profile q' =>
      rw [← h.typeProfile?_eq_some_iff] at hg hg'
      rw [Option.some.inj (hg.symm.trans hg')]
    | roles roles => exact absurd hg' (hapart hg)
  | roles roles =>
    cases g' with
    | profile q' => exact absurd hg (hapart hg')
    | roles roles' =>
      obtain ⟨p, hp, hroles⟩ := governedBy_roles_iff.1 hg
      obtain ⟨p', hp', hroles'⟩ := governedBy_roles_iff.1 hg'
      obtain rfl := Option.some.inj (hp.symm.trans hp')
      rw [Option.some.inj (hroles.symm.trans hroles')]

/-- A root entity is governed unless its permissions are blank. -/
theorem exists_governedBy (h : s.Lawful) (ht : t ∈ s.types) (hroot : t.isRoot = true)
    (hblank : t.permissions ≠ some .blank) : ∃ g, s.GovernedBy t g := by
  have hrules := h.typePermissionRules ht hroot
  cases hp : t.permissions with
  | none =>
    obtain ⟨q, hq, hname⟩ := hrules.default hroot hp
    exact ⟨_, .default hroot hp hname hq⟩
  | some p =>
    obtain ⟨profile, roles⟩ := p
    cases profile with
    | some name =>
      obtain ⟨q, hq, rfl⟩ := (hrules.own _ hp).2.profile name rfl
      exact ⟨_, .named hp rfl hq⟩
    | none =>
      cases roles with
      | some roles => exact ⟨_, .roles hp rfl⟩
      | none => exact absurd hp hblank

/-- A type is governed exactly if it has a profile or gives roles. -/
theorem exists_governedBy_iff (h : s.Lawful) : (∃ g, s.GovernedBy t g) ↔
    (s.typeProfile? t).isSome = true ∨
      ∃ p roles, t.permissions = some p ∧ p.roles = some roles := by
  constructor
  · rintro ⟨g, hg⟩
    cases g with
    | profile q => exact .inl (Option.isSome_iff_exists.2 ⟨q, h.typeProfile?_eq_some_iff.2 hg⟩)
    | roles roles =>
      obtain ⟨p, hp, hroles⟩ := governedBy_roles_iff.1 hg
      exact .inr ⟨p, roles, hp, hroles⟩
  · rintro (hprofile | ⟨p, roles, hp, hroles⟩)
    · obtain ⟨q, hq⟩ := Option.isSome_iff_exists.1 hprofile
      exact ⟨_, h.typeProfile?_eq_some_iff.1 hq⟩
    · exact ⟨_, .roles hp hroles⟩

end Lawful

end Schema

/-- **Root entities are governed unless their permissions are blank.** A root entity of an accepted
schema has a profile or gives roles exactly if its permissions are not blank, and then exactly one
rule governs it. -/
theorem roots_governed_iff {decl : SchemaDecl} {a : AcceptedSchema} (h : decl.accept = .ok a)
    {t : TypeDef} (ht : t ∈ a.schema.roots) :
    (((a.schema.typeProfile? t).isSome = true ∨
        ∃ p roles, t.permissions = some p ∧ p.roles = some roles) ↔
      t.permissions ≠ some .blank) ∧
    (t.permissions ≠ some .blank → ∃! g, a.schema.GovernedBy t g) := by
  have hs := SchemaDecl.lawful_of_accept h
  obtain ⟨htypes, hroot⟩ := List.mem_filter.1 ht
  refine ⟨?_, fun hblank => ?_⟩
  · rw [← hs.exists_governedBy_iff]
    constructor
    · rintro ⟨g, hg⟩ hblank
      exact Schema.not_governedBy_blank hblank hg
    · exact hs.exists_governedBy htypes hroot
  · obtain ⟨g, hg⟩ := hs.exists_governedBy htypes hroot hblank
    exact ⟨g, hg, fun g' hg' => hs.governedBy_unique htypes hroot hg' hg⟩

/-! ### Offices -/

/-- The declaration of an office with a rule of each kind. -/
def officeDecl : SchemaDecl where
  profiles := [.named defaultProfileName, (Profile.named "staff").withGrant "clerk" .readWrite]
  types :=
    [(TypeDecl.named "Invoice" .rootEntity).withField (.named "total" "Int")
        |>.withPermissions (.ofProfile "staff"),
      (TypeDecl.named "Salary" .rootEntity).withField (.named "amount" "Int")
        |>.withPermissions (.ofRoles (Roles.empty.withRole .read "manager")),
      (TypeDecl.named "Notice" .rootEntity).withField (.named "text" "String")]

/-- In the office, exactly one rule governs each of the three root entities. -/
theorem office_governed : ∃ a, officeDecl.accept = .ok a ∧
    a.schema.roots.map (·.name) = ["Invoice", "Salary", "Notice"] ∧
    ∀ t ∈ a.schema.roots, t.permissions ≠ some .blank ∧
      ((a.schema.typeProfile? t).isSome = true ∨
        ∃ p roles, t.permissions = some p ∧ p.roles = some roles) ∧
      ∃! g, a.schema.GovernedBy t g := by
  have hfacts : ∃ a, officeDecl.accept = .ok a ∧
      a.schema.roots.map (·.name) = ["Invoice", "Salary", "Notice"] ∧
      ∀ t ∈ a.schema.roots, t.permissions ≠ some .blank := ⟨_, rfl, rfl, by decide⟩
  obtain ⟨a, h, hnames, hblank⟩ := hfacts
  refine ⟨a, h, hnames, fun t ht => ?_⟩
  obtain ⟨hgoverned, hunique⟩ := roots_governed_iff h ht
  exact ⟨hblank t ht, hgoverned.2 (hblank t ht), hunique (hblank t ht)⟩

/-- A root entity with blank permissions is accepted, even if there are no profiles. It has no
profile and gives no roles. -/
theorem blank_permissions_accepted : ∃ a,
    SchemaDecl.accept
      ⟨[(TypeDecl.named "Order" .rootEntity).withField (.named "total" "Int")
        |>.withPermissions .blank], []⟩ = .ok a ∧
    ∃ t ∈ a.schema.roots, t.name = "Order" ∧
      ¬((a.schema.typeProfile? t).isSome = true ∨
        ∃ p roles, t.permissions = some p ∧ p.roles = some roles) := by
  refine ⟨_, rfl, _, List.get_mem _ ⟨0, by decide⟩, rfl, ?_⟩
  rintro (hprofile | ⟨p, roles, hp, hroles⟩)
  · cases hprofile
  · rw [← Option.some.inj hp] at hroles
    cases hroles

end EntityGraph
