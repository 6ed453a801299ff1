import EntityGraph.Proofs.Binding
import EntityGraph.Proofs.Settled
import EntityGraph.Proofs.Typing
import Mathlib.Data.List.Perm.Subperm

/-!
# Writers of fields

The changes of an object are applied together. So two of them must not store a value in the same
field, or set the one edge of the same relation. The exception are lists of children, which three
inputs revise: one adds to the list, one updates members and one removes them. Each of the three
reads the stored list and stores the revised one.

The argument looks at two inputs of a shape. If both write a field as a whole, the input object does
not give both, because it is settled. If one of them revises children, then so does the other, and
their names say that they do it in different ways.

The same case analysis shows where a step reads the object that it changes: it reads only the field
that it stores a value in.

## Main definitions

* `Plan.stored?`, `Plan.linked?` — the field that a step stores a value in or sets the edge of
* `Revision`, `Plan.revision?` — how a step revises children
* `Schema.Orderly` — the changes of a step keep out of each other's way
* `Plan.SingleWriters` — how many changes of a step write one field

## Main results

* `Input.takes_of_makes` — what the steps of one input write and read
* `Schema.Lawful.hereditary_tidy` — changes of input objects keep out of each other's way
* `fields_written_once` — and so do those of mutations
-/

namespace EntityGraph

/-! ### What a step writes -/

/-- The ways to revise the children of an object. -/
inductive Revision where
  | add
  | update
  | remove
  deriving DecidableEq

/-- The wording of the inputs that revise children so. -/
def Revision.wording : Revision → Wording
  | add => .add
  | update => .update
  | remove => .remove

namespace Plan

/-- The field that the step stores a value in. -/
def stored? : Plan → Option FieldId
  | .setField x _ _ => some x
  | _ => none

/-- The field whose one edge the step sets. -/
def linked? : Plan → Option FieldId
  | .setEdge side _ _ => side.sourceField
  | _ => none

/-- How the step revises the children in the field that it stores: more of them, some of them
changed, or some of them left out. -/
def revision? : Plan → Option Revision
  | .setField _ _ (.binary .concat _ _) => some .add
  | .setField _ _ (.transformList _ _ none none (some _)) => some .update
  | .setField _ _ (.transformList _ _ (some _) none none) => some .remove
  | _ => none

def isUpdate : Plan → Bool
  | .updateObject .. => true
  | _ => false

/-- The number of the variable and the field, if the plan reads a field of a variable. -/
def variableField? : Plan → Option (Nat × FieldId)
  | .field (.var v) x _ => some (v.id, x)
  | _ => none

/-- Two steps do not write the same field, unless they revise its children in different ways. -/
def Separate (c d : Plan) : Prop :=
  (∀ x, c.linked? = some x → d.linked? ≠ some x) ∧
    ∀ x, c.stored? = some x → d.stored? = some x →
      ∃ r r', c.revision? = some r ∧ d.revision? = some r' ∧ r ≠ r'

theorem stored?_of_revision? {c : Plan} {r : Revision} (h : c.revision? = some r) :
    ∃ x, c.stored? = some x := by
  cases c with
  | setField x => exact ⟨x, rfl⟩
  | _ => cases h

end Plan

/-- How the input revises the children in its field. -/
def InputKind.revision? : InputKind → Option Revision
  | addChildren _ => some .add
  | updateChildren _ => some .update
  | removeChildren _ => some .remove
  | _ => none

theorem InputKind.revision?_of_replaces {k : InputKind} (h : k.replaces = true) :
    k.revision? = none := by
  cases k <;> first | rfl | cases h

theorem InputKind.revision?_of_side? {k : InputKind} {side : RelationSide}
    (h : k.side? = some side) : k.revision? = none := by
  cases k <;> first | rfl | cases h

theorem Input.isFilter_of_writes {i : Input}
    (h : i.kind.replaces = true ∨ i.kind.revision?.isSome = true) : i.isFilter = false := by
  obtain ⟨name, f, kind⟩ := i
  cases kind with
  | filter => simp [InputKind.replaces, InputKind.revision?] at h
  | _ => rfl

namespace Schema

variable {s : Schema} {role : Role} {f : FieldDef} {i j : Input}

/-- Whether the field holds a list of child entities. -/
def holdsChildren (s : Schema) (x : FieldId) : Bool :=
  (s.fieldAt? x).any fun f => f.isList && (s.target? f).any (·.kind = .childEntity)

/-- Children are revised by the inputs of their field outside of create shapes, and by no others. -/
theorem Offers.isSome_revision?_iff (h : s.Offers role f i)
    (hwrites : i.kind.replaces = true ∨ i.kind.revision?.isSome = true) :
    i.kind.revision?.isSome = true ↔
      role ≠ .create ∧ (f.isList && (s.target? f).any (·.kind = .childEntity)) = true := by
  have hplain : ∀ {k : TypeKind}, k.isPlain = true → k ≠ .childEntity := by
    rintro k hk rfl
    cases hk
  cases h with
  | filter => simp [InputKind.replaces, InputKind.revision?] at hwrites
  | reference h =>
    obtain ⟨target, htarget, hkey⟩ := h.key
    have hroot : target.kind = .rootEntity := by
      rw [keyType?, referenceKey?] at hkey
      by_contra hne
      simp [TypeDef.isRoot, hne] at hkey
    simp [InputKind.revision?, htarget, hroot]
  | scalar h hkind | combine h hkind =>
    simp [InputKind.revision?, h.target?, hplain hkind]
  | valueObject h hkind | createExtension h hkind | updateExtension h hkind =>
    simp [InputKind.revision?, h.target?, hkind]
  | createChildren h hkind => simp [InputKind.revision?]
  | addChildren h hkind hrole hlist | updateChildren h hkind hrole hlist
  | removeChildren h hkind hrole hlist =>
    simp [InputKind.revision?, h.target?, hkind, hrole, hlist]
  | initialEdges | addEdges | removeEdges | createAndAddEdges =>
    simp [InputKind.replaces, InputKind.revision?] at hwrites
  | setEdge _ hlist | createAndSetEdge _ hlist => simp [InputKind.revision?, hlist]

theorem Offers.wording_of_revision? (h : s.Offers role f i) {r : Revision}
    (hr : i.kind.revision? = some r) : i.wording role = r.wording := by
  cases h <;> cases hr <;> rfl

/-- Inputs with different names revise the children of a field in different ways. -/
theorem Offers.revision?_ne (hi : s.Offers role f i) (hj : s.Offers role f j)
    (hne : i.name ≠ j.name) {r r' : Revision} (hr : i.kind.revision? = some r)
    (hr' : j.kind.revision? = some r') : r ≠ r' := by
  rintro rfl
  refine hne ?_
  rw [hi.name_eq, hj.name_eq, hi.wording_of_revision? hr, hj.wording_of_revision? hr', hi.field_eq,
    hj.field_eq]

/-! ### Orderly steps -/

/-- The changes of the outermost step of a plan are separate. They revise children exactly if they
store a list of children in an object that is updated, and they read a field of the object only to
store a value in it. -/
structure Orderly (s : Schema) (q : Plan) : Prop where
  separate : q.changes.Pairwise Plan.Separate
  revises : ∀ c ∈ q.changes, c.revision?.isSome = true ↔
    q.isUpdate = true ∧ ∃ x, c.stored? = some x ∧ s.holdsChildren x = true
  reads : ∀ b, q.binder? = some b → ∀ c ∈ q.changes, ∀ v x name, v.id = b.id →
    .field (.var v) x name ∈ c.nodes → c.stored? = some x

theorem orderly_of_changes_eq_nil {q : Plan} (h : q.changes = []) : s.Orderly q where
  separate := by simp [h]
  revises := by simp [h]
  reads := by simp [h]

/-- Everything in the plan is orderly. The fields of variables that it reads are those of variables
from number `n` on, and the field `own` of the object that `b` is bound to. -/
def Tame (s : Schema) (b : Variable) (own : Option FieldId) (n : Nat) (p : Plan) : Prop :=
  ∀ q ∈ p.nodes, s.Orderly q ∧
    ∀ v x name, q = .field (.var v) x name → (v.id = b.id ∧ own = some x) ∨ n ≤ v.id

variable {b : Variable} {own : Option FieldId} {n k m : Nat} {p : Plan}

namespace Tame

theorem of_parts (hchanges : p.changes = []) (hread : p.variableField? = none)
    (hparts : ∀ q ∈ p.parts, s.Tame b own n q) : s.Tame b own n p := by
  refine Plan.forall_nodes_iff.2 ⟨⟨orderly_of_changes_eq_nil hchanges, ?_⟩, hparts⟩
  intro v x name hp
  rw [hp] at hread
  cases hread

theorem mono (h : s.Tame b own k p) (hle : n ≤ k) : s.Tame b own n p := by
  intro q hq
  refine ⟨(h q hq).1, fun v x name hread => ?_⟩
  rcases (h q hq).2 v x name hread with hown | hafter
  · exact .inl hown
  · exact .inr (by omega)

/-- A plan for the object of a variable from number `n` on is tame for any other object. -/
theorem forget (h : s.Tame b own k p) (hb : n ≤ b.id) (hle : n ≤ k) {b' : Variable}
    {own' : Option FieldId} : s.Tame b' own' n p := by
  intro q hq
  refine ⟨(h q hq).1, fun v x name hread => .inr ?_⟩
  rcases (h q hq).2 v x name hread with ⟨hv, -⟩ | hafter
  · omega
  · omega

theorem literal (w : Value) : s.Tame b own n (.literal w) :=
  of_parts rfl rfl (by simp [Plan.parts])

theorem var (v : Variable) : s.Tame b own n (.var v) :=
  of_parts rfl rfl (by simp [Plan.parts])

theorem ofEntityId (v : Variable) : s.Tame b own n (.entityId (.var v)) := by
  refine of_parts rfl rfl ?_
  simpa [Plan.parts] using var v

theorem ownField (x : FieldId) (name : String) : s.Tame b (some x) n (.field (.var b) x name) := by
  refine Plan.forall_nodes_iff.2 ⟨⟨orderly_of_changes_eq_nil rfl, ?_⟩, ?_⟩
  · intro v y name' hread
    cases hread
    exact .inl ⟨rfl, rfl⟩
  · intro q hq
    rw [List.mem_singleton.1 hq]
    exact var b

theorem binary {op : BinaryOperator} {lhs rhs : Plan} (hl : s.Tame b own n lhs)
    (hr : s.Tame b own n rhs) : s.Tame b own n (.binary op lhs rhs) := by
  refine of_parts rfl rfl ?_
  simpa [Plan.parts] using ⟨hl, hr⟩

theorem list {ps : List Plan} (h : ∀ p ∈ ps, s.Tame b own n p) : s.Tame b own n (.list ps) :=
  of_parts rfl rfl h

theorem ensure {value fallback : Plan} {shape : ValueShape} (hvalue : s.Tame b own n value)
    (hfallback : s.Tame b own n fallback) : s.Tame b own n (value.ensure shape fallback) := by
  have htest : s.Tame b own n (.typeCheck value shape) := by
    refine of_parts rfl rfl ?_
    simpa [Plan.parts] using hvalue
  refine of_parts rfl rfl ?_
  simpa [Plan.ensure, Plan.parts] using ⟨htest, hvalue, hfallback⟩

/-- The stored extension or children are read from the field of the input. -/
theorem storedParts (i : Input) : s.Tame b (some i.field.id) n (i.storedParts (.var b)) := by
  rw [Input.storedParts]
  have hstored : s.Tame b (some i.field.id) n (.field (.var b) i.field.id i.field.name) :=
    ownField _ _
  split
  · exact hstored.ensure (list (by simp))
  · exact hstored.ensure (of_parts rfl rfl (by simp [Plan.parts]))

/-- Storing a value adds the field to those that may be read, and reads nothing else. -/
theorem set {i : Input} {value : Plan} (h : s.Tame b (some i.field.id) n value) :
    s.Tame b (i.set value).stored? n (i.set value) := by
  show s.Tame b (some i.field.id) n (.setField i.field.id i.field.name value)
  refine of_parts rfl rfl ?_
  simpa [Plan.parts] using h

/-- Changing edges reads nothing but the ends. -/
theorem edges {targets : List Plan} {c : Plan} (htargets : ∀ p ∈ targets, s.Tame b own n p)
    (hparts : c.parts = .var b :: targets) (hchanges : c.changes = [])
    (hread : c.variableField? = none) : s.Tame b own n c := by
  refine of_parts hchanges hread ?_
  rw [hparts]
  exact List.forall_mem_cons.2 ⟨var b, htargets⟩

end Tame

/-- What is known of the changes of an input object. -/
structure Tidy (s : Schema) (shape : Shape) (b : Variable) (n : Nat) (steps : List Plan) (m : Nat) :
    Prop where
  le : n ≤ m
  separate : steps.Pairwise Plan.Separate
  revises : ∀ c ∈ steps, c.revision?.isSome = true ↔
    shape.role ≠ .create ∧ ∃ x, c.stored? = some x ∧ s.holdsChildren x = true
  declared : ∀ c ∈ steps, ∀ x, c.stored? = some x →
    ∃ f ∈ shape.type.fields, f.isSystem = false ∧ f.id = x
  tame : ∀ c ∈ steps, s.Tame b c.stored? n c

/-- The changes of a settled input object are tidy. -/
def TidyIfSettled (s : Schema) : StepLaw :=
  fun shape u b n steps m => s.Settled shape u → s.Tidy shape b n steps m

/-! ### Objects -/

variable {shape : Shape} {u : Value}

/-- Tidy changes for the variable with number `n`, made from the next number on, read the object
only in the field that they store a value in. -/
theorem Tidy.reads {label : String} {steps : List Plan}
    (h : s.Tidy shape ⟨n, label⟩ (n + 1) steps m) {c : Plan} (hc : c ∈ steps) {v : Variable}
    {x : FieldId} {name : String} (hv : v.id = n) (hread : .field (.var v) x name ∈ c.nodes) :
    c.stored? = some x := by
  rcases (h.tame c hc _ hread).2 v x name rfl with ⟨-, hown⟩ | hafter
  · exact hown
  · omega

/-- The identity of a new child is stored in a system field. -/
theorem Built.mem_identitySteps (hs : s.Built) {t : TypeDef} (ht : t ∈ s.types) {c : Plan}
    (hc : c ∈ Shape.identitySteps t) :
    ∃ f ∈ t.fields, f.isSystem = true ∧ c = .setField f.id identityName .generateId := by
  rw [Shape.identitySteps] at hc
  by_cases hkind : t.kind = .childEntity
  · obtain ⟨f, hf, hidentity⟩ := hs.identity_of_child ht hkind
    simp only [hkind, if_true, hf, List.mem_singleton] at hc
    exact ⟨f, TypeDef.mem_of_field? hf, (Bool.and_eq_true_iff.1 hidentity).1, hc⟩
  · simp [hkind] at hc

theorem pairwise_identitySteps (t : TypeDef) : (Shape.identitySteps t).Pairwise Plan.Separate := by
  rw [Shape.identitySteps]
  split
  · split <;> simp
  · simp

/-- An object is created with orderly changes, the identity of a child among them. -/
theorem Built.orderly_create (hs : s.Built) (hshape : s.HasShape shape)
    (hrole : shape.role = .create) {steps : List Plan}
    (h : s.Tidy shape ⟨n, "new"⟩ (n + 1) steps m) : s.Orderly
      (.createObject shape.type.id ⟨n, "new"⟩ (Shape.identitySteps shape.type ++ steps)) where
  separate := by
    refine List.pairwise_append.2 ⟨pairwise_identitySteps _, h.separate, fun c hc d hd => ?_⟩
    obtain ⟨f, hf, hsystem, rfl⟩ := hs.mem_identitySteps hshape.mem hc
    refine ⟨nofun, fun x hx hd' => ?_⟩
    obtain rfl : f.id = x := Option.some.inj hx
    obtain ⟨g, hg, hdeclared, hid⟩ := h.declared d hd f.id hd'
    have hsame := hs.numbered.field_eq_of_id (mem_fields hshape.mem hg) (mem_fields hshape.mem hf)
      hid
    rw [hsame, hsystem] at hdeclared
    cases hdeclared
  revises := by
    intro c hc
    rcases List.mem_append.1 hc with hc | hc
    · obtain ⟨f, -, -, rfl⟩ := hs.mem_identitySteps hshape.mem hc
      simp [Plan.revision?, Plan.isUpdate]
    · simp [h.revises c hc, hrole, Plan.isUpdate]
  reads := by
    rintro b hb c hc v x name hv hread
    obtain rfl : ⟨n, "new"⟩ = b := Option.some.inj hb
    rcases List.mem_append.1 hc with hc | hc
    · obtain ⟨f, -, -, rfl⟩ := hs.mem_identitySteps hshape.mem hc
      simp [Plan.nodes_eq, Plan.parts] at hread
    · exact h.reads hc hv hread

theorem orderly_update {target : Plan} {steps : List Plan} (hrole : shape.role ≠ .create)
    (h : s.Tidy shape ⟨n, "target"⟩ (n + 1) steps m) :
    s.Orderly (.updateObject target ⟨n, "target"⟩ steps) where
  separate := h.separate
  revises := by
    intro c hc
    simp [h.revises c hc, hrole, Plan.isUpdate]
  reads := by
    rintro b hb c hc v x name hv hread
    obtain rfl : ⟨n, "target"⟩ = b := Option.some.inj hb
    exact h.reads hc hv hread

theorem Built.tame_of_creates (hs : s.Built) (hshape : s.HasShape shape)
    (hrole : shape.role = .create) (hu : s.Settled shape u)
    (h : shape.Creates s.TidyIfSettled u n p m) : n ≤ m ∧ s.Tame b own n p := by
  obtain ⟨steps, rfl, hsteps⟩ := h
  have htidy := hsteps hu
  have hle := htidy.le
  refine ⟨by omega, Plan.forall_nodes_iff.2 ⟨⟨hs.orderly_create hshape hrole htidy, nofun⟩, ?_⟩⟩
  intro c hc
  rcases List.mem_append.1 hc with hc | hc
  · obtain ⟨f, -, -, rfl⟩ := hs.mem_identitySteps hshape.mem hc
    refine Tame.of_parts rfl rfl fun q hq => ?_
    rw [List.mem_singleton.1 hq]
    exact Tame.of_parts rfl rfl (by simp [Plan.parts])
  · exact (htidy.tame c hc).forget (Nat.le_refl n) (by omega)

theorem tame_of_updates {target : Plan} (hrole : shape.role ≠ .create)
    (htarget : s.Tame b own n target) (hle : n ≤ k) (hu : s.Settled shape u)
    (h : shape.Updates s.TidyIfSettled target u k p m) : k ≤ m ∧ s.Tame b own n p := by
  obtain ⟨steps, rfl, hsteps⟩ := h
  have htidy := hsteps hu
  have hdrawn := htidy.le
  refine ⟨by omega, Plan.forall_nodes_iff.2 ⟨⟨orderly_update hrole htidy, nofun⟩, ?_⟩⟩
  intro c hc
  rcases List.mem_cons.1 hc with rfl | hc
  · exact htarget
  · exact (htidy.tame c hc).forget hle (by omega)

theorem Built.tame_of_chain (hs : s.Built) (hshape : s.HasShape shape)
    (hrole : shape.role = .create) {us : List Value} {ps : List Plan}
    (hus : ∀ u ∈ us, s.Settled shape u) (h : Chain (shape.Creates s.TidyIfSettled) us n ps m) :
    n ≤ m ∧ ∀ p ∈ ps, s.Tame b own n p := by
  refine h.fold (S := fun n ps m => n ≤ m ∧ ∀ p ∈ ps, s.Tame b own n p)
    (fun n => ⟨Nat.le_refl n, by simp⟩) ?_
  rintro u hu n p k ps m hp ⟨hle, hps⟩
  obtain ⟨hdrawn, hp⟩ := hs.tame_of_creates hshape hrole (hus u hu) hp
  refine ⟨by omega, List.forall_mem_cons.2 ⟨hp, fun q hq => ?_⟩⟩
  exact (hps q hq).mono hdrawn

theorem tame_updateChain {child : Variable} (hrole : shape.role ≠ .create) {us : List Value}
    {updates : List (Value × Plan)} (hus : ∀ u ∈ us, s.Settled shape u)
    (h : Chain (fun u k update l => update.1 = (u.get? identityName).getD .null ∧
      shape.Updates s.TidyIfSettled (.var child) u k update.2 l) us n updates m) :
    n ≤ m ∧ s.Tame b own n (updateChain child updates) := by
  refine h.fold (S := fun n updates m => n ≤ m ∧ s.Tame b own n (updateChain child updates))
    (fun n => ⟨Nat.le_refl n, .var child⟩) ?_
  rintro u hu n ⟨id, step⟩ k rest m ⟨-, hstep⟩ ⟨hle, hrest⟩
  obtain ⟨hdrawn, hstep⟩ := tame_of_updates hrole (.var child) (Nat.le_refl n) (hus u hu) hstep
  have hid : s.Tame b own n (.entityId (.var child)) := .ofEntityId child
  have htest : s.Tame b own n (.eq (.entityId (.var child)) (.literal id)) :=
    hid.binary (.literal id)
  refine ⟨by omega, Tame.of_parts rfl rfl ?_⟩
  simpa [updateChain, Plan.parts] using ⟨htest, hstep, hrest.mono hdrawn⟩

end Schema

/-! ### Steps of one input -/

/-- What a step of an input writes and reads. -/
structure Input.Takes (s : Schema) (i : Input) (b : Variable) (n : Nat) (c : Plan) : Prop where
  stored : ∀ x, c.stored? = some x →
    x = i.field.id ∧ (i.kind.replaces = true ∨ i.kind.revision?.isSome = true)
  linked : ∀ x, c.linked? = some x → x = i.field.id ∧ i.kind.replaces = true
  revision : c.revision? = i.kind.revision?
  tame : s.Tame b c.stored? n c

namespace Input

open Schema (Tame)

variable {s : Schema} {i j : Input} {b : Variable} {n k m : Nat} {c d : Plan} {u w : Value}
  {steps : List Plan}

theorem Takes.mono (h : i.Takes s b k c) (hle : n ≤ k) : i.Takes s b n c :=
  ⟨h.stored, h.linked, h.revision, h.tame.mono hle⟩

theorem takes_set {value : Plan}
    (hwrites : i.kind.replaces = true ∨ i.kind.revision?.isSome = true)
    (hrevision : (i.set value).revision? = i.kind.revision?)
    (hvalue : s.Tame b (some i.field.id) n value) : i.Takes s b n (i.set value) where
  stored := by
    intro x hx
    exact ⟨(Option.some.inj hx).symm, hwrites⟩
  linked := nofun
  revision := hrevision
  tame := .set hvalue

/-- A whole value is stored. -/
theorem takes_replacing {value : Plan} (hreplaces : i.kind.replaces = true)
    (hrevision : (i.set value).revision? = none) (hvalue : s.Tame b (some i.field.id) n value) :
    i.Takes s b n (i.set value) :=
  takes_set (.inl hreplaces) (hrevision.trans (InputKind.revision?_of_replaces hreplaces).symm)
    hvalue

/-- Storing an object that is created or updated revises nothing. -/
theorem revision?_set_of_isWrite {value : Plan} (h : value.isWrite = true) :
    (i.set value).revision? = none := by
  cases value <;> first | rfl | cases h

/-- Edges are added or removed. -/
theorem takes_edges {side : RelationSide} {targets : Plan} (hside : i.kind.side? = some side)
    (htargets : s.Tame b none n targets) : i.Takes s b n (.addEdges side (.var b) targets) ∧
      i.Takes s b n (.removeEdges side (.var b) targets) := by
  have hnone := (InputKind.revision?_of_side? hside).symm
  have hmem : ∀ p ∈ [targets], s.Tame b none n p := by simpa using htargets
  exact ⟨⟨nofun, nofun, hnone, .edges hmem rfl rfl rfl⟩,
    ⟨nofun, nofun, hnone, .edges hmem rfl rfl rfl⟩⟩

/-- The one edge of the field is set. -/
theorem takes_setEdge (hi : s.HasInput i) {side : RelationSide} {target : Option Plan}
    (hside : i.kind.side? = some side) (hreplaces : i.kind.replaces = true)
    (htarget : ∀ p ∈ target.toList, s.Tame b none n p) :
    i.Takes s b n (.setEdge side (.var b) target) where
  stored := nofun
  linked := by
    intro x hx
    have hfield := hi.sourceField hside
    exact ⟨Option.some.inj (hx.symm.trans hfield), hreplaces⟩
  revision := (InputKind.revision?_of_side? hside).symm
  tame := .edges htarget rfl rfl rfl

/-- The steps of an input are at most one, which keeps to the field of the input. -/
theorem takes_of_makes (hs : s.Built) (hi : s.HasInput i)
    (hinside : ∀ nested, i.nestedShape? s = some nested → ∀ v ∈ i.objects w, s.Settled nested v)
    {form : Form} (h : i.Makes s s.TidyIfSettled w (.var b) form n steps m) :
    n ≤ m ∧ (steps = [] ∨ ∃ c, steps = [c] ∧ i.Takes s b n c) := by
  have hnested : ∀ {role : Role} {type : TypeDef} {shape : Shape},
      i.kind.nested? = some (role, type) → s.shape role type = .ok shape →
      s.HasShape shape ∧ shape.role = role ∧ ∀ v ∈ i.objects w, s.Settled shape v := by
    intro role type shape hn hshape
    refine ⟨(hi.hasShape hn hshape).1, Schema.role_of_shape hshape, ?_⟩
    exact hinside shape (nestedShape?_eq_some.2 ⟨role, type, hn, hshape⟩)
  have hstored : s.Tame b (some i.field.id) n (i.storedParts (.var b)) := .storedParts i
  cases h with
  | nothing => exact ⟨Nat.le_refl n, .inl rfl⟩
  | literal _ _ _ hreplaces =>
    exact ⟨Nat.le_refl n, .inr ⟨_, rfl, takes_replacing hreplaces rfl (.literal w)⟩⟩
  | @combine _ type op hkind =>
    have hreplaces : i.kind.replaces = true := by rw [hkind]; rfl
    refine ⟨Nat.le_refl n, .inr ⟨_, rfl, takes_replacing hreplaces ?_ ?_⟩⟩
    · cases op <;> rfl
    · exact Tame.binary (.ownField _ _) (.literal w)
  | newObject hn hshape hp hobjects _ hreplaces =>
    obtain ⟨hhas, hrole, hsettled⟩ := hnested hn hshape
    have hw : w ∈ i.objects w := by simp [hobjects]
    obtain ⟨hle, hvalue⟩ := hs.tame_of_creates hhas hrole (hsettled w hw) hp
    refine ⟨hle, .inr ⟨_, rfl, takes_replacing hreplaces ?_ hvalue⟩⟩
    exact revision?_set_of_isWrite hp.isWrite
  | newObjects hn hshape hps hobjects _ hreplaces =>
    obtain ⟨hhas, hrole, hsettled⟩ := hnested hn hshape
    rw [hobjects] at hsettled
    obtain ⟨hle, hvalues⟩ := hs.tame_of_chain hhas hrole hsettled hps
    exact ⟨hle, .inr ⟨_, rfl, takes_replacing hreplaces rfl (.list hvalues)⟩⟩
  | addChildren hn hshape hps hobjects hkind =>
    obtain ⟨hhas, hrole, hsettled⟩ := hnested hn hshape
    rw [hobjects] at hsettled
    obtain ⟨hle, hvalues⟩ := hs.tame_of_chain hhas hrole hsettled hps
    refine ⟨hle, .inr ⟨_, rfl, takes_set (.inr ?_) ?_ (hstored.binary (.list hvalues))⟩⟩
    · rw [hkind]; rfl
    · rw [hkind]; rfl
  | updateExtension hn hshape hp hobjects hkind =>
    obtain ⟨hhas, hrole, hsettled⟩ := hnested hn hshape
    have hw : w ∈ i.objects w := by simp [hobjects]
    have hupdate := hrole ▸ (by decide : Role.update ≠ Role.create)
    obtain ⟨hle, hvalue⟩ :=
      Schema.tame_of_updates hupdate hstored (Nat.le_refl n) (hsettled w hw) hp
    have hreplaces : i.kind.replaces = true := by rw [hkind]; rfl
    refine ⟨hle, .inr ⟨_, rfl, takes_replacing hreplaces ?_ hvalue⟩⟩
    exact revision?_set_of_isWrite hp.isWrite
  | updateChildren hn hshape hupdates hobjects hkind =>
    obtain ⟨hhas, hrole, hsettled⟩ := hnested hn hshape
    rw [hobjects] at hsettled
    have hupdate := hrole ▸ (by decide : Role.update ≠ Role.create)
    obtain ⟨hle, hchain⟩ := Schema.tame_updateChain hupdate hsettled hupdates
    refine ⟨by omega, .inr ⟨_, rfl, takes_set (.inr ?_) ?_ ?_⟩⟩
    · rw [hkind]; rfl
    · rw [hkind]; rfl
    · refine Tame.of_parts rfl rfl ?_
      simpa [Plan.parts] using ⟨hstored, hchain.mono (Nat.le_succ n)⟩
  | removeChildren hkind =>
    refine ⟨Nat.le_succ n, .inr ⟨_, rfl, takes_set (.inr ?_) ?_ ?_⟩⟩
    · rw [hkind]; rfl
    · rw [hkind]; rfl
    · have hid : s.Tame b (some i.field.id) n (.entityId (.var ⟨n, "child"⟩)) := .ofEntityId _
      have hkept : s.Tame b (some i.field.id) n
          (.not (.binary .isIn (.entityId (.var ⟨n, "child"⟩)) (.literal w))) := by
        refine Tame.of_parts rfl rfl ?_
        simpa [Plan.not, Plan.parts] using hid.binary (.literal w)
      refine Tame.of_parts rfl rfl ?_
      simpa [Plan.parts] using ⟨hstored, hkept⟩
  | addEdges hside => exact ⟨Nat.le_refl n, .inr ⟨_, rfl, (takes_edges hside (.literal w)).1⟩⟩
  | removeEdges hside => exact ⟨Nat.le_refl n, .inr ⟨_, rfl, (takes_edges hside (.literal w)).2⟩⟩
  | setEdge hside _ hreplaces =>
    refine ⟨Nat.le_refl n, .inr ⟨_, rfl, takes_setEdge hi hside hreplaces ?_⟩⟩
    split
    · simp
    · simpa using Tame.literal w
  | createAndAddEdges hside hn hshape hps hobjects =>
    obtain ⟨hhas, hrole, hsettled⟩ := hnested hn hshape
    rw [hobjects] at hsettled
    obtain ⟨hle, hvalues⟩ := hs.tame_of_chain hhas hrole hsettled hps
    exact ⟨hle, .inr ⟨_, rfl, (takes_edges hside (.list hvalues)).1⟩⟩
  | createAndSetEdge hside hn hshape hp hobjects hreplaces =>
    obtain ⟨hhas, hrole, hsettled⟩ := hnested hn hshape
    have hw : w ∈ i.objects w := by simp [hobjects]
    obtain ⟨hle, hvalue⟩ := hs.tame_of_creates hhas hrole (hsettled w hw) hp
    exact ⟨hle, .inr ⟨_, rfl, takes_setEdge hi hside hreplaces (by simpa using hvalue)⟩⟩

/-- Steps of inputs that the input object gives together are separate. -/
theorem Takes.separate {shape : Shape} (hs : s.Numbered) (hshape : s.HasShape shape)
    (hi : i ∈ shape.inputs) (hj : j ∈ shape.inputs) (hapart : Apart u i j)
    (hgiven : u.get? i.name ≠ none ∧ u.get? j.name ≠ none) (hc : i.Takes s b n c)
    (hd : j.Takes s b k d) : c.Separate d := by
  have hreplaced : i.field.id = j.field.id → i.kind.replaces = true → j.kind.replaces = false := by
    intro hfield hri
    by_contra hrj
    rcases hapart.2 hfield hri (by simpa using hrj) with hnone | hnone
    · exact hgiven.1 hnone
    · exact hgiven.2 hnone
  constructor
  · intro x hx hx'
    obtain ⟨rfl, hri⟩ := hc.linked x hx
    obtain ⟨hfield, hrj⟩ := hd.linked _ hx'
    simp [hreplaced hfield hri] at hrj
  · intro x hx hx'
    obtain ⟨rfl, hwi⟩ := hc.stored x hx
    obtain ⟨hfield, hwj⟩ := hd.stored _ hx'
    have hsame := hshape.field_eq hs hi hj hfield
    have hoi := (hshape.offers hi).2
    have hoj := (hshape.offers hj).2
    rw [← hsame] at hoj
    -- Either both inputs revise the children of the field, or neither of them does.
    have hboth := (hoi.isSome_revision?_iff hwi).trans (hoj.isSome_revision?_iff hwj).symm
    have hrevises : i.kind.revision?.isSome = true := by
      by_contra hnone
      have hri := hwi.resolve_right hnone
      have hrj := hwj.resolve_right (mt hboth.2 hnone)
      simp [hreplaced hfield hri] at hrj
    obtain ⟨r, hr⟩ := Option.isSome_iff_exists.1 hrevises
    obtain ⟨r', hr'⟩ := Option.isSome_iff_exists.1 (hboth.1 hrevises)
    exact ⟨r, r', hc.revision.trans hr, hd.revision.trans hr',
      hoi.revision?_ne hoj hapart.1 hr hr'⟩

end Input

/-! ### Changes of input objects -/

namespace Schema

variable {s : Schema} {shape : Shape} {u : Value} {b : Variable} {n m : Nat} {i : Input} {c : Plan}

/-- An input adds at most one step, and only if it is given. -/
def Adds (s : Schema) (u : Value) (b : Variable) (i : Input) (n : Nat) (steps : List Plan)
    (m : Nat) : Prop :=
  n ≤ m ∧ (steps = [] ∨ ∃ c, steps = [c] ∧ u.get? i.name ≠ none ∧ i.Takes s b n c)

theorem Settled.adds (hs : s.Built) (hshape : s.HasShape shape) (hsettled : s.Settled shape u)
    (hi : i ∈ shape.inputs) {steps : List Plan}
    (h : s.Contributes s.TidyIfSettled u b i n steps m) : s.Adds u b i n steps m := by
  obtain ⟨-, hinside⟩ := hsettled
  rcases h with ⟨-, rfl, rfl⟩ | ⟨w, hw, hmakes⟩
  · exact ⟨Nat.le_refl _, .inl rfl⟩
  · obtain ⟨hle, hsteps⟩ :=
      Input.takes_of_makes hs (hshape.hasInputs i hi) (hinside i hi w hw) hmakes
    refine ⟨hle, hsteps.imp_right ?_⟩
    rintro ⟨c, rfl, htakes⟩
    exact ⟨c, rfl, by simp [hw], htakes⟩

/-- A step of an input revises children exactly if it stores some outside of a create shape. -/
theorem Numbered.revises_of_takes (hs : s.Numbered) (hshape : s.HasShape shape)
    (hi : i ∈ shape.inputs) (hc : i.Takes s b n c) : c.revision?.isSome = true ↔
      shape.role ≠ .create ∧ ∃ x, c.stored? = some x ∧ s.holdsChildren x = true := by
  have hoffers := (hshape.offers hi).2
  have hchildren : s.holdsChildren i.field.id =
      (i.field.isList && (s.target? i.field).any (·.kind = .childEntity)) := by
    rw [holdsChildren, hs.fieldAt?_id (hshape.hasInputs i hi).field_mem]
    rfl
  constructor
  · intro hsome
    obtain ⟨r, hr⟩ := Option.isSome_iff_exists.1 hsome
    obtain ⟨x, hx⟩ := Plan.stored?_of_revision? hr
    obtain ⟨rfl, hwrites⟩ := hc.stored x hx
    rw [hc.revision] at hsome
    obtain ⟨hrole, hholds⟩ := (hoffers.isSome_revision?_iff hwrites).1 hsome
    exact ⟨hrole, _, hx, hchildren.trans hholds⟩
  · rintro ⟨hrole, x, hx, hholds⟩
    obtain ⟨rfl, hwrites⟩ := hc.stored x hx
    rw [hc.revision]
    exact (hoffers.isSome_revision?_iff hwrites).2 ⟨hrole, hchildren.symm.trans hholds⟩

/-- Changes of settled input objects are tidy. -/
theorem Lawful.hereditary_tidy (h : s.Lawful) : s.Hereditary s.TidyIfSettled := by
  refine ⟨fun {shape u b n m stepss} hshape hchain hsettled => ?_⟩
  have hs := h.built.numbered
  have hadds : Chain (s.Adds u b) shape.inputs n stepss m :=
    hchain.imp fun i hi _ _ _ hi' => hsettled.adds h.built hshape hi hi'
  obtain ⟨hapart, -⟩ := hsettled
  -- Every step is that of an input, and was made from the first number on.
  have hall : n ≤ m ∧ ∀ c ∈ stepss.flatten, ∃ i ∈ shape.inputs, i.Takes s b n c := by
    refine hadds.fold (S := fun n stepss m => n ≤ m ∧ ∀ c ∈ stepss.flatten,
      ∃ i ∈ shape.inputs, i.Takes s b n c) (fun n => ⟨Nat.le_refl n, by simp⟩) ?_
    rintro i hi n steps k stepss m ⟨hdrawn, hsteps⟩ ⟨hle, hrest⟩
    refine ⟨by omega, fun c hc => ?_⟩
    rw [List.flatten_cons, List.mem_append] at hc
    rcases hc with hc | hc
    · rcases hsteps with rfl | ⟨c', rfl, -, htakes⟩
      · simp at hc
      · rw [List.mem_singleton.1 hc]
        exact ⟨i, hi, htakes⟩
    · obtain ⟨j, hj, htakes⟩ := hrest c hc
      exact ⟨j, hj, htakes.mono hdrawn⟩
  refine ⟨hall.1, ?_, fun c hc => ?_, fun c hc x hx => ?_, fun c hc => ?_⟩
  · refine List.pairwise_flatten.2 ⟨fun steps hsteps => ?_, ?_⟩
    · obtain ⟨i, -, k, l, -, rfl | ⟨c, rfl, -⟩⟩ := hadds.exists_of_mem hsteps
      · exact .nil
      · exact List.pairwise_singleton _ c
    · refine hadds.pairwise hapart fun i j hi hj hij _ xs _ ⟨_, hxs⟩ _ ys _ ⟨_, hys⟩ => ?_
      intro c hc d hd
      rcases hxs with rfl | ⟨c', rfl, hgi, hci⟩
      · simp at hc
      · rcases hys with rfl | ⟨d', rfl, hgj, hdj⟩
        · simp at hd
        · rw [List.mem_singleton.1 hc, List.mem_singleton.1 hd]
          exact hci.separate hs hshape hi hj hij ⟨hgi, hgj⟩ hdj
  · obtain ⟨i, hi, htakes⟩ := hall.2 c hc
    exact hs.revises_of_takes hshape hi htakes
  · obtain ⟨i, hi, htakes⟩ := hall.2 c hc
    obtain ⟨rfl, hwrites⟩ := htakes.stored x hx
    obtain ⟨hf, hoffers⟩ := hshape.offers hi
    exact ⟨i.field, hf, hoffers.declared (Input.isFilter_of_writes hwrites), rfl⟩
  · obtain ⟨i, hi, htakes⟩ := hall.2 c hc
    exact htakes.tame

/-! ### Mutations -/

section Mutations

variable {t : TypeDef} {input : Value} {result : Mutation}

theorem Lawful.settled_of_prepare (h : s.Lawful) (hnames : s.NamesDistinct)
    (hshape : s.HasShape shape) {role : Role} {value : Value}
    (hp : s.prepare role t input = .ok (shape, value)) : s.Settled shape value :=
  h.settled_of_coerceObject hnames input shape value hshape (prepare_eq_ok hp).2

/-- Every step of a plan that creates an object is orderly. -/
theorem Lawful.orderly_planCreate (h : s.Lawful) (hnames : s.NamesDistinct) (ht : t ∈ s.types)
    (hp : (s.planCreate t input).outcome ⟨n⟩ = (.ok result, ⟨m⟩)) :
    ∀ q ∈ result.plan.nodes, s.Orderly q := by
  obtain ⟨shape, value, hprepare, -, hshape, -, hcreates⟩ :=
    (h.hereditary_tidy.planCreate ht).result hp
  have hsettled := h.settled_of_prepare hnames hshape hprepare
  have hrole := role_of_shape (prepare_eq_ok hprepare).1
  have htame : s.Tame ⟨0, ""⟩ none n result.plan :=
    (h.built.tame_of_creates hshape hrole hsettled hcreates).2
  exact fun q hq => (htame q hq).1

theorem tame_entityById (type : TypeId) (id : Value) :
    s.Tame b none n (.lookup type ⟨n, "candidate"⟩
      (.eq (.entityId (.var ⟨n, "candidate"⟩)) (.literal id))) := by
  have hid : s.Tame b none n (.entityId (.var ⟨n, "candidate"⟩)) := .ofEntityId _
  have htest : s.Tame b none n (.eq (.entityId (.var ⟨n, "candidate"⟩)) (.literal id)) :=
    hid.binary (.literal id)
  have hentities : s.Tame b none n (.entities type) :=
    .of_parts rfl rfl (by simp [Plan.parts])
  have hfound : s.Tame b none n (.transformList (.entities type) ⟨n, "candidate"⟩
      (some (.eq (.entityId (.var ⟨n, "candidate"⟩)) (.literal id))) (some 1) none) := by
    refine .of_parts rfl rfl ?_
    simpa [Plan.parts] using ⟨hentities, htest⟩
  refine .of_parts rfl rfl ?_
  simpa [Plan.lookup, Plan.parts] using hfound

/-- Every step of a plan that updates an object is orderly. -/
theorem Lawful.orderly_planUpdate (h : s.Lawful) (hnames : s.NamesDistinct) (ht : t ∈ s.types)
    (hp : (s.planUpdate t input).outcome ⟨n⟩ = (.ok result, ⟨m⟩)) :
    ∀ q ∈ result.plan.nodes, s.Orderly q := by
  obtain ⟨shape, value, id, hprepare, -, hshape, -, hupdates⟩ :=
    (h.hereditary_tidy.planUpdate ht).result hp
  have hsettled := h.settled_of_prepare hnames hshape hprepare
  have hrole := role_of_shape (prepare_eq_ok hprepare).1
  have htarget : s.Tame ⟨0, ""⟩ none n _ := tame_entityById t.id id
  have htame := (tame_of_updates (by simp [hrole]) htarget (Nat.le_succ n) hsettled hupdates).2
  exact fun q hq => (htame q hq).1

/-- Every step of a plan that updates many objects is orderly, apart from those that find them. -/
theorem Lawful.orderly_planUpdateAll (h : s.Lawful) (hnames : s.NamesDistinct) (ht : t ∈ s.types)
    {targets : Plan}
    (hp : (s.planUpdateAll t input targets).outcome ⟨n⟩ = (.ok result, ⟨m⟩)) :
    ∃ item update, result.plan = .transformList targets item none none (some update) ∧
      ∀ q ∈ update.nodes, s.Orderly q := by
  obtain ⟨shape, value, update, hprepare, -, hshape, -, hplan, hupdates⟩ :=
    (h.hereditary_tidy.planUpdateAll ht targets).result hp
  have hsettled := h.settled_of_prepare hnames hshape hprepare
  have hrole := role_of_shape (prepare_eq_ok hprepare).1
  have htarget : s.Tame ⟨0, ""⟩ none (n + 1) (.var ⟨n, "item"⟩) := .var _
  have htame :=
    (tame_of_updates (by simp [hrole]) htarget (Nat.le_refl _) hsettled hupdates).2
  exact ⟨_, update, hplan, fun q hq => (htame q hq).1⟩

end Mutations

end Schema

/-! ### Counting -/

theorem countP_le_one {α : Type} {p : α → Bool} {xs : List α}
    (h : xs.Pairwise fun x y => p x = true → ¬p y = true) : xs.countP p ≤ 1 := by
  induction xs with
  | nil => simp
  | cons x xs ih =>
    obtain ⟨hfirst, hrest⟩ := List.pairwise_cons.1 h
    rw [List.countP_cons]
    by_cases hx : p x = true
    · have hnone : xs.countP p = 0 := List.countP_eq_zero.2 fun y hy => hfirst y hy hx
      have hone : (if p x = true then 1 else 0) = 1 := if_pos hx
      omega
    · rw [if_neg hx]
      exact ih hrest

/-- How many of the changes of a step write one field. Only lists of children are stored more than
once, and only in an object that is updated: once with more children, once with some of them updated
and once with some of them removed. -/
structure Plan.SingleWriters (s : Schema) (q : Plan) : Prop where
  edges : ∀ x, (q.changes.countP fun c => c.linked? = some x) ≤ 1
  values : ∀ x, s.holdsChildren x = false → (q.changes.countP fun c => c.stored? = some x) ≤ 1
  created : q.isUpdate = false → ∀ x, (q.changes.countP fun c => c.stored? = some x) ≤ 1
  revised : ∀ x, s.holdsChildren x = true → q.isUpdate = true →
    (q.changes.countP fun c => c.stored? = some x) ≤ 3 ∧
    (∀ c ∈ q.changes, c.stored? = some x → c.revision?.isSome = true) ∧
    ∀ r, (q.changes.countP fun c => c.stored? = some x ∧ c.revision? = some r) ≤ 1

theorem Schema.Orderly.singleWriters {s : Schema} {q : Plan} (h : s.Orderly q) :
    q.SingleWriters s := by
  -- Without children to revise, two changes cannot store a value in the same field.
  have hsingle : ∀ x, (q.isUpdate = false ∨ s.holdsChildren x = false) →
      (q.changes.countP fun c => c.stored? = some x) ≤ 1 := by
    intro x hx
    refine countP_le_one (h.separate.imp_of_mem fun {c d} hc _ hseparate hcx hdx => ?_)
    simp only [decide_eq_true_eq] at hcx hdx
    obtain ⟨r, -, hr, -⟩ := hseparate.2 x hcx hdx
    obtain ⟨hupdate, y, hy, hchildren⟩ := (h.revises c hc).1 (by simp [hr])
    obtain rfl : x = y := Option.some.inj (hcx.symm.trans hy)
    rcases hx with hx | hx
    · simp [hupdate] at hx
    · simp [hchildren] at hx
  refine ⟨fun x => ?_, fun x hx => hsingle x (.inr hx), fun hq x => hsingle x (.inl hq), ?_⟩
  · refine countP_le_one (h.separate.imp fun {c d} hseparate hcx hdx => ?_)
    simp only [decide_eq_true_eq] at hcx hdx
    exact hseparate.1 x hcx hdx
  · intro x hchildren hupdate
    have hrevises : ∀ c ∈ q.changes, c.stored? = some x → c.revision?.isSome = true :=
      fun c hc hcx => (h.revises c hc).2 ⟨hupdate, x, hcx, hchildren⟩
    refine ⟨?_, hrevises, fun r => ?_⟩
    · -- The revisions of the changes that store the field are all different.
      have hnodup : ((q.changes.filter fun c => c.stored? = some x).map (·.revision?)).Nodup := by
        refine List.pairwise_map.2 ?_
        refine (h.separate.filter _).imp_of_mem fun {c d} hc hd hseparate => ?_
        simp only [List.mem_filter, decide_eq_true_eq] at hc hd
        obtain ⟨r, r', hr, hr', hne⟩ := hseparate.2 x hc.2 hd.2
        rw [hr, hr']
        exact fun hsame => hne (Option.some.inj hsame)
      have hsubset : (q.changes.filter fun c => c.stored? = some x).map (·.revision?) ⊆
          [some .add, some .update, some .remove] := by
        intro o ho
        obtain ⟨c, hc, rfl⟩ := List.mem_map.1 ho
        simp only [List.mem_filter, decide_eq_true_eq] at hc
        obtain ⟨r, hr⟩ := Option.isSome_iff_exists.1 (hrevises c hc.1 hc.2)
        rw [hr]
        cases r <;> simp
      have hlength := (hnodup.subperm hsubset).length_le
      rw [List.length_map, ← List.countP_eq_length_filter] at hlength
      exact hlength
    · refine countP_le_one (h.separate.imp fun {c d} hseparate hcx hdx => ?_)
      simp only [decide_eq_true_eq] at hcx hdx
      obtain ⟨r₁, r₂, hr₁, hr₂, hne⟩ := hseparate.2 x hcx.1 hdx.1
      exact hne (Option.some.inj (hr₁.symm.trans (hcx.2.trans (hdx.2.symm.trans hr₂))))

/-! ### Accepted schemas -/

/-- **Fields are written once.** In an accepted schema with distinct names of inputs, no two changes
of an object set the edge of one field or store a value in it, except for lists of children, which
an update stores at most once for each way to revise them. This holds everywhere in a mutation, with
the declared defaults of new objects. For many objects this is about the update of one object, so
the plan of the targets is left out. -/
theorem fields_written_once {decl : SchemaDecl} {a : AcceptedSchema} (h : decl.accept = .ok a)
    (hnames : a.schema.NamesDistinct) {t : TypeDef} (ht : t ∈ a.schema.types) (n m : Nat)
    (input : Value) (result : Mutation) :
    ((a.schema.planCreate t input).outcome ⟨n⟩ = (.ok result, ⟨m⟩) →
      ∀ q ∈ result.plan.nodes, q.SingleWriters a.schema) ∧
    ((a.schema.planUpdate t input).outcome ⟨n⟩ = (.ok result, ⟨m⟩) →
      ∀ q ∈ result.plan.nodes, q.SingleWriters a.schema) ∧
    ∀ targets, (a.schema.planUpdateAll t input targets).outcome ⟨n⟩ = (.ok result, ⟨m⟩) →
      ∃ item update, result.plan = .transformList targets item none none (some update) ∧
        ∀ q ∈ update.nodes, q.SingleWriters a.schema := by
  have hs := SchemaDecl.lawful_of_accept h
  refine ⟨fun hp q hq => ?_, fun hp q hq => ?_, fun targets hp => ?_⟩
  · exact (hs.orderly_planCreate hnames ht hp q hq).singleWriters
  · exact (hs.orderly_planUpdate hnames ht hp q hq).singleWriters
  · obtain ⟨item, update, hplan, horderly⟩ := hs.orderly_planUpdateAll hnames ht hp
    exact ⟨item, update, hplan, fun q hq => (horderly q hq).singleWriters⟩

theorem namesDistinct_shop : shop.schema.NamesDistinct := by decide

/-- In the shop, an order is created with a shipping address whose city is the declared default. An
order gets, changes and loses items in one update, which stores the items three times, and so do
many orders. -/
theorem shop_order_written_once : ∃ order ∈ shop.schema.types, order.name = "Order" ∧
    (∃ (input : Value) (result : Mutation) (m : Nat),
      (shop.schema.planCreate order input).outcome ⟨0⟩ = (.ok result, ⟨m⟩) ∧
      ∀ q ∈ result.plan.nodes, q.SingleWriters shop.schema) ∧
    (∃ (input : Value) (result : Mutation) (m : Nat),
      (shop.schema.planUpdate order input).outcome ⟨0⟩ = (.ok result, ⟨m⟩) ∧
      (∃ q ∈ result.plan.nodes, ∃ x, (q.changes.countP fun c => c.stored? = some x) = 3) ∧
      ∀ q ∈ result.plan.nodes, q.SingleWriters shop.schema) ∧
    ∃ (input : Value) (result : Mutation) (m : Nat),
      (shop.schema.planUpdateAll order input (.entities order.id)).outcome ⟨0⟩ =
        (.ok result, ⟨m⟩) ∧
      ∃ item update, result.plan =
          .transformList (.entities order.id) item none none (some update) ∧
        ∀ q ∈ update.nodes, q.SingleWriters shop.schema := by
  have ht : shop.schema.types.get ⟨8, by decide⟩ ∈ shop.schema.types := List.get_mem _ _
  have honce := fun m => fields_written_once accept_shopDecl namesDistinct_shop ht 0 m
  let shipped : Value := .object
    [("items", .list [.object [("sku", .string "a")]]),
      ("shipping", .object [("address", .object [])])]
  let revised : Entries :=
    [("addItems", .list [.object [("sku", .string "c")]]),
      ("removeItems", .list [.string "i2"]),
      ("updateItems", .list [.object [("id", .string "i1"), ("sku", .string "b")]])]
  have hcreate : ∃ result m, (shop.schema.planCreate (shop.schema.types.get ⟨8, by decide⟩)
      shipped).outcome ⟨0⟩ = (.ok result, ⟨m⟩) ∧ true = true :=
    Planner.exists_result (by decide +kernel)
  have hupdate : ∃ result m, (shop.schema.planUpdate (shop.schema.types.get ⟨8, by decide⟩)
      (.object (revised.insert "id" (.string "o1")))).outcome ⟨0⟩ = (.ok result, ⟨m⟩) ∧
        (result.plan.nodes.any fun q =>
          (q.changes.countP fun c => c.stored? = some ⟨13⟩) == 3) = true :=
    Planner.exists_result (by decide +kernel)
  have hupdateAll : ∃ result m, (shop.schema.planUpdateAll (shop.schema.types.get ⟨8, by decide⟩)
      (.object revised) (.entities (shop.schema.types.get ⟨8, by decide⟩).id)).outcome ⟨0⟩ =
        (.ok result, ⟨m⟩) ∧ true = true := Planner.exists_result (by decide +kernel)
  obtain ⟨created, m₁, hcreate, -⟩ := hcreate
  obtain ⟨updated, m₂, hupdate, hthrice⟩ := hupdate
  obtain ⟨allUpdated, m₃, hupdateAll, -⟩ := hupdateAll
  obtain ⟨q, hq, hcount⟩ := List.any_eq_true.1 hthrice
  exact ⟨_, ht, rfl, ⟨_, created, m₁, hcreate, (honce m₁ _ created).1 hcreate⟩,
    ⟨_, updated, m₂, hupdate, ⟨q, hq, _, by simpa using hcount⟩, (honce m₂ _ updated).2.1 hupdate⟩,
    ⟨_, allUpdated, m₃, hupdateAll, (honce m₃ _ allUpdated).2.2 _ hupdateAll⟩⟩

end EntityGraph
