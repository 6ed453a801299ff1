import EntityGraph.Check.Schema
import EntityGraph.Proofs.Numbering

/-!
# What acceptance says

An accepted schema has no finding that is an error. This module turns that around: it reads the
checks as rules, one structure for each group of checks, and gives the rules that hold of every
declared field and every key of an accepted schema.

Nothing here depends on the wording or the place of a finding. The rest of the development cites the
rules and does not open the checks again.

## Main definitions

* `Harmless`, `Clean` — issues and findings without an error
* `EmbeddingRules`, `RelationRules`, `ReferenceRules`, `CalcRules` — the rules of a field by what it
  is, and `TypedRules` for all of them
* `Schema.Lawful` — schemas that can be built and that no check objects to
* `shop` — an accepted schema with every kind of type and field

## Main results

* `SchemaDecl.lawful_of_accept` — accepted schemas are lawful
* `Schema.Lawful.typedRules`, `Schema.Lawful.keyRules` — the rules of fields and keys
-/

namespace EntityGraph

/-! ### Issues and findings without an error -/

/-- None of the issues is an error. -/
def Harmless (issues : List Issue) : Prop := ∀ i ∈ issues, i.severity ≠ .error

/-- None of the findings is an error. -/
def Clean (findings : List Finding) : Prop := ∀ x ∈ findings, x.issue.severity ≠ .error

@[simp] theorem harmless_nil : Harmless [] := by simp [Harmless]

@[simp] theorem harmless_cons {i : Issue} {issues : List Issue} :
    Harmless (i :: issues) ↔ i.severity ≠ .error ∧ Harmless issues := by
  simp [Harmless]

@[simp] theorem harmless_append {xs ys : List Issue} :
    Harmless (xs ++ ys) ↔ Harmless xs ∧ Harmless ys := List.forall_mem_append

@[simp] theorem harmless_map {α : Type} {xs : List α} {f : α → Issue} :
    Harmless (xs.map f) ↔ ∀ x ∈ xs, (f x).severity ≠ .error := List.forall_mem_map

@[simp] theorem harmless_ite {p : Prop} [Decidable p] {xs ys : List Issue} :
    Harmless (if p then xs else ys) ↔ (p → Harmless xs) ∧ (¬p → Harmless ys) := by
  split <;> simp_all

@[simp] theorem clean_nil : Clean [] := by simp [Clean]

@[simp] theorem clean_cons {x : Finding} {findings : List Finding} :
    Clean (x :: findings) ↔ x.issue.severity ≠ .error ∧ Clean findings := by
  simp [Clean]

@[simp] theorem clean_append {xs ys : List Finding} :
    Clean (xs ++ ys) ↔ Clean xs ∧ Clean ys := List.forall_mem_append

@[simp] theorem clean_findAt {location : Location} {issues : List Issue} :
    Clean (findAt location issues) ↔ Harmless issues := by
  simp [Clean, Harmless, findAt]

@[simp] theorem clean_flatMap {α : Type} {xs : List α} {f : α → List Finding} :
    Clean (xs.flatMap f) ↔ ∀ x ∈ xs, Clean (f x) := by
  simp only [Clean, List.mem_flatMap]
  constructor
  · exact fun h x hx y hy => h y ⟨x, hx, hy⟩
  · rintro h y ⟨x, hx, hy⟩
    exact h x hx y hy

theorem hasErrors_check_eq_false_iff {s : Schema} :
    s.check.hasErrors = false ↔ Clean s.findings := by
  simp [Schema.check, Report.hasErrors, Clean]

/-! ### Fields -/

/-- The rules of a field that holds values of `target` itself. -/
structure EmbeddingRules (owner : TypeDef) (f : FieldDef) (target : TypeDef) : Prop where
  notRoot : target.kind ≠ .rootEntity
  extension : target.kind = .entityExtension → owner.kind ≠ .valueObject ∧ f.isList = false
  child : target.kind = .childEntity → owner.kind ≠ .valueObject ∧ f.isList = true

theorem harmless_embeddingIssues_iff {owner target : TypeDef} {f : FieldDef} :
    Harmless (embeddingIssues owner f target) ↔ EmbeddingRules owner f target := by
  constructor
  · intro h
    rw [embeddingIssues] at h
    constructor <;> intro hk <;> rw [hk] at h <;> simp_all [Issue.severity]
  · rintro ⟨hroot, hextension, hchild⟩
    rw [embeddingIssues]
    split <;> simp_all

/-- The rules of a field that holds the key of an entity of `target`. -/
structure ReferenceRules (f : FieldDef) (target : TypeDef) : Prop where
  root : target.isRoot = true
  key : target.keyField? ≠ none
  single : f.isList = false

theorem harmless_referenceIssues_iff {f : FieldDef} {target : TypeDef} :
    Harmless (referenceIssues f target) ↔ ReferenceRules f target := by
  rw [referenceIssues]
  constructor
  · intro h
    constructor <;> simp_all [Issue.severity]
  · rintro ⟨hroot, hkey, hsingle⟩
    simp_all

/-- The rules of the calc operators of a field. -/
structure CalcRules (f : FieldDef) (target : TypeDef) : Prop where
  single : f.operators ≠ [] → f.isList = false
  supported : ∀ op ∈ f.operators, op.supports target.name = true

theorem harmless_calcIssues_iff {f : FieldDef} {target : TypeDef} :
    Harmless (calcIssues f target) ↔ CalcRules f target := by
  have hunsupported : Harmless ((f.operators.filter (!·.supports target.name)).map
        (.calcUnsupported · target.name)) ↔ ∀ op ∈ f.operators, op.supports target.name = true := by
    simp [Issue.severity]
  rw [calcIssues, harmless_ite, harmless_ite, hunsupported, List.isEmpty_iff]
  constructor
  · rintro ⟨-, h⟩
    refine ⟨fun hne => ?_, fun op hop => ?_⟩
    · by_contra hlist
      simpa [Issue.severity] using (h hne).1 (by simpa using hlist)
    · have hne : f.operators ≠ [] := List.ne_nil_of_mem hop
      by_cases hlist : f.isList = true
      · simpa [Issue.severity] using (h hne).1 hlist
      · exact (h hne).2 hlist op hop
  · rintro ⟨hsingle, hsupported⟩
    refine ⟨fun _ => harmless_nil, fun hne => ⟨fun hlist => ?_, fun _ => hsupported⟩⟩
    rw [hsingle hne] at hlist
    cases hlist

namespace Schema

/-- The rules of a relation field: it joins two root entities, and its pairing is settled. A field
that names its inverse names a relation field that leads back and names none itself; any other field
is named by at most one. -/
structure RelationRules (s : Schema) (owner : TypeDef) (f : FieldDef) (target : TypeDef) :
    Prop where
  ownerRoot : owner.isRoot = true
  targetRoot : target.isRoot = true
  inverse : ∀ name, f.inverseOf = some name → ∃ g, target.field? name = some g ∧
    g.isRelation = true ∧ s.targetId? g = some owner.id ∧ g.inverseOf = none
  pairing : f.inverseOf = none → (s.inverseCandidates f target).length ≤ 1

theorem harmless_inverseIssues_iff {s : Schema} {owner target : TypeDef} {f : FieldDef}
    {name : String} :
    Harmless (s.inverseIssues owner f target name) ↔ ∃ g, target.field? name = some g ∧
      g.isRelation = true ∧ s.targetId? g = some owner.id ∧ g.inverseOf = none := by
  rw [inverseIssues]
  cases target.field? name with
  | none => simp [Issue.severity]
  | some g =>
    simp only [Option.some.injEq, exists_eq_left', harmless_ite, harmless_cons, harmless_nil,
      Issue.severity, ne_eq, not_true, imp_false, not_not, and_true]
    constructor
    · rintro ⟨hrelation, h⟩
      obtain ⟨htarget, h⟩ := h (by simpa using hrelation)
      exact ⟨hrelation, htarget, by simpa using h (by simpa using htarget)⟩
    · rintro ⟨hrelation, htarget, hinverse⟩
      simp [hrelation, htarget, hinverse]

theorem clean_pairingFindings_iff {s : Schema} {owner target : TypeDef} {f : FieldDef} :
    Clean (s.pairingFindings owner f target) ↔ (s.inverseCandidates f target).length ≤ 1 := by
  rw [pairingFindings]
  rcases s.inverseCandidates f target with _ | ⟨g, _ | ⟨h, rest⟩⟩
  · rcases s.unpaired f target with _ | ⟨g, _ | _⟩ <;> simp [Issue.severity]
  · simp
  · simp [Issue.severity]

theorem clean_relationFindings_iff {s : Schema} {owner target : TypeDef} {f : FieldDef} :
    Clean (s.relationFindings owner f target) ↔ s.RelationRules owner f target := by
  rw [relationFindings]
  constructor
  · intro h
    by_cases hroots : (owner.isRoot && target.isRoot) = true
    · obtain ⟨howner, htarget⟩ := Bool.and_eq_true_iff.1 hroots
      rw [if_pos hroots] at h
      refine ⟨howner, htarget, fun name hname => ?_, fun hname => ?_⟩
      · rw [hname] at h
        exact harmless_inverseIssues_iff.1 (clean_findAt.1 h)
      · rw [hname] at h
        exact clean_pairingFindings_iff.1 h
    · rw [if_neg hroots, clean_findAt, harmless_append] at h
      cases howner : owner.isRoot <;> cases htarget : target.isRoot <;>
        simp_all [Issue.severity]
  · rintro ⟨howner, htarget, hinverse, hpairing⟩
    rw [howner, htarget, Bool.and_self, if_pos rfl]
    cases hname : f.inverseOf with
    | some name => exact clean_findAt.2 (harmless_inverseIssues_iff.2 (hinverse name hname))
    | none => exact clean_pairingFindings_iff.2 (hpairing hname)

/-- The rules of a field that depend on its type. -/
structure TypedRules (s : Schema) (owner : TypeDef) (f : FieldDef) (target : TypeDef) : Prop where
  embedding : f.isReference = false → f.isRelation = false → EmbeddingRules owner f target
  relation : f.isRelation = true → s.RelationRules owner f target
  reference : f.isReference = true → ReferenceRules f target
  operators : CalcRules f target

theorem clean_typedFindings_iff {s : Schema} {owner target : TypeDef} {f : FieldDef} :
    Clean (s.typedFindings owner f target) ↔ s.TypedRules owner f target := by
  have hrelation : Clean (if f.isRelation then s.relationFindings owner f target else []) ↔
      (f.isRelation = true → s.RelationRules owner f target) := by
    split <;> simp_all [clean_relationFindings_iff]
  rw [typedFindings, clean_append, clean_append, clean_append, hrelation, clean_findAt,
    clean_findAt, clean_findAt, harmless_ite, harmless_ite, harmless_embeddingIssues_iff,
    harmless_referenceIssues_iff, harmless_calcIssues_iff]
  constructor
  · rintro ⟨⟨⟨⟨-, hembedding⟩, hrelation⟩, hreference, -⟩, hcalc⟩
    exact ⟨fun href hrel => hembedding (by simp [href, hrel]), hrelation, hreference, hcalc⟩
  · rintro ⟨hembedding, hrelation, hreference, hcalc⟩
    refine ⟨⟨⟨⟨fun _ => harmless_nil, fun h => ?_⟩, hrelation⟩, hreference, fun _ => harmless_nil⟩,
      hcalc⟩
    simp only [Bool.or_eq_true, not_or, Bool.not_eq_true] at h
    exact hembedding h.1 h.2

/-! ### Keys -/

/-- The rules of the key of a type. -/
def KeyRules (s : Schema) (t : TypeDef) : Prop :=
  ∀ key, t.keyName = some key → t.isRoot = true ∧
    ∃ f, t.field? key = some f ∧ s.isKeyable f = true

theorem clean_keyFindings_iff {s : Schema} {t : TypeDef} :
    Clean (s.keyFindings t) ↔ s.KeyRules t := by
  rw [keyFindings, KeyRules]
  cases t.keyName with
  | none => simp
  | some key =>
    simp only [Option.some.injEq, forall_eq']
    cases t.isRoot with
    | false => simp [Issue.severity]
    | true =>
      cases t.field? key with
      | none => simp [Issue.severity]
      | some f => cases hf : s.isKeyable f <;> simp [Issue.severity, hf]

/-! ### Lawful schemas -/

/-- A schema that can be built and that no check objects to. -/
structure Lawful (s : Schema) : Prop where
  built : s.Built
  clean : Clean s.findings

namespace Lawful

variable {s : Schema} {t : TypeDef} {f g : FieldDef}

theorem clean_declarationFindings (h : s.Lawful) (ht : t ∈ s.types)
    (hbuiltin : t.isBuiltin = false) : Clean (s.declarationFindings t) := by
  have hclean := (clean_append.1 h.clean).2
  rw [clean_flatMap] at hclean
  exact hclean t (List.mem_filter.2 ⟨ht, by simp [hbuiltin]⟩)

/-- A declared field has a type, and keeps the rules that depend on it. -/
theorem typedRules (h : s.Lawful) (ht : t ∈ s.types) (hf : f ∈ t.fields)
    (hdeclared : f.isSystem = false) :
    ∃ target, s.target? f = some target ∧ s.TypedRules t f target := by
  have hclean := (clean_append.1 (h.clean_declarationFindings ht (h.built.not_isBuiltin ht hf))).2
  rw [clean_flatMap] at hclean
  have hfield := (clean_append.1 (hclean f (List.mem_filter.2 ⟨hf, by simp [hdeclared]⟩))).2
  cases htarget : s.target? f with
  | none => simp [htarget, untypedIssues, Issue.severity] at hfield
  | some target =>
    rw [htarget] at hfield
    exact ⟨target, rfl, clean_typedFindings_iff.1 hfield⟩

theorem clean_typeFindings (h : s.Lawful) (ht : t ∈ s.types) (hbuiltin : t.isBuiltin = false) :
    Clean (s.typeFindings t) := (clean_append.1 (h.clean_declarationFindings ht hbuiltin)).1

theorem keyRules (h : s.Lawful) (ht : t ∈ s.types) : s.KeyRules t := by
  rcases h.built.origin ht with hinitial | ⟨decl, drafts, first, -, hdef⟩
  · obtain ⟨index, name, rfl⟩ := Built.eq_builtin_of_mem_initial hinitial
    exact fun key hkey => nomatch hkey
  · have hclean := h.clean_typeFindings ht (by rw [hdef]; rfl)
    exact clean_keyFindings_iff.1 (clean_append.1 (clean_append.1 hclean).1).2

end Lawful

end Schema

/-- An accepted schema is the one that its declaration builds. -/
theorem SchemaDecl.ofDecl_of_accept {decl : SchemaDecl} {a : AcceptedSchema}
    (h : decl.accept = .ok a) : Schema.ofDecl decl = .ok a.schema := by
  rw [SchemaDecl.accept] at h
  cases hs : Schema.ofDecl decl with
  | error e => simp [hs] at h
  | ok s =>
    rw [hs] at h
    simp only [Schema.accept] at h
    split at h
    · rw [← Except.ok.inj h]
    · cases h

/-- Accepted schemas are lawful. -/
theorem SchemaDecl.lawful_of_accept {decl : SchemaDecl} {a : AcceptedSchema}
    (h : decl.accept = .ok a) : a.schema.Lawful :=
  ⟨Schema.built_of_ofDecl (ofDecl_of_accept h), hasErrors_check_eq_false_iff.1 a.sound⟩

/-! ### A schema that keeps the rules

Orders of customers, with every kind of type and field: a pair of relations between two types, a
pair within one type, a reference, children, an extension, and a value object with a default. -/

/-- The declaration of the shop. -/
def shopDecl : SchemaDecl where
  profiles := [.named defaultProfileName]
  types :=
    [(TypeDecl.named "Customer" .rootEntity).withKey "email"
        |>.withField (.named "email" "String")
        |>.withField ((FieldDecl.named "orders" "Order").asList.asInverseOf "customer")
        |>.withField ((FieldDecl.named "friends" "Customer").asList.asRelation)
        |>.withField ((FieldDecl.named "friendOf" "Customer").asList.asInverseOf "friends"),
      (TypeDecl.named "Order" .rootEntity)
        |>.withField ((FieldDecl.named "total" "Int").withCalc "ADD")
        |>.withField ((FieldDecl.named "customer" "Customer").asRelation)
        |>.withField ((FieldDecl.named "payer" "Customer").asReference)
        |>.withField ((FieldDecl.named "items" "Item").asList)
        |>.withField (.named "shipping" "Shipping"),
      (TypeDecl.named "Item" .childEntity).withField (.named "sku" "String"),
      (TypeDecl.named "Shipping" .entityExtension).withField (.named "address" "Address"),
      (TypeDecl.named "Address" .valueObject)
        |>.withField ((FieldDecl.named "city" "String").withDefault (.string "Rome"))]

/-- The shop. -/
def shop : AcceptedSchema := ⟨(Schema.ofDecl shopDecl).toOption.getD .initial, by decide⟩

theorem accept_shopDecl : shopDecl.accept = .ok shop := rfl

end EntityGraph
