import EntityGraph.Proofs.Nodes
import EntityGraph.Proofs.Numbering

/-!
# Variables and the steps that bind them

Three kinds of steps bind a variable: a transformed list binds its item in the filter and in what
replaces the items, and an object that is created or updated is bound in its changes. The source of
the list and the object to update lie outside.

`Plan.Scoped` walks through plans with the variables that are in scope, demands that every variable
is, and lists what is bound on the way. The list follows the order in which variables are drawn:
what a step needs before it binds, its own variable, and then what happens in its scope. A plan that
somebody else supplied can be taken as a leaf and is then not looked into, wherever it occurs.

`Plan.Fresh` adds where the variables come from: those that are bound are the ones drawn from the
supply between two numbers, each bound once. It composes like the computation that draws them, and
the lemmas below are one for each way to put plans together.

## Main definitions

* `Plan.binder?`, `Plan.unbound`, `Plan.bound` — the variable of a step, and its parts
* `Plan.Scoped` — variables are in scope, and what is bound
* `Drawn` — the variables that a supply hands out between two numbers
* `Plan.Fresh` — the variables that are bound are those that were drawn

## Main results

* `Plan.Fresh.plain`, `Plan.Fresh.bind` — steps that bind nothing, and steps that bind a variable
* `Drawn.inRange`, `Drawn.nodup` — drawn variables are told apart by their numbers
-/

namespace EntityGraph

namespace Plan

/-! ### Scopes -/

/-- Whether the plan is a variable. -/
def isVar : Plan → Bool
  | .var _ => true
  | _ => false

/-- The variable that the outermost step of a plan binds. -/
def binder? : Plan → Option Variable
  | .transformList _ item _ _ _ => some item
  | .createObject _ binding _ | .updateObject _ binding _ => some binding
  | _ => none

/-- The parts of a plan outside the scope of the variable that its outermost step binds. -/
def unbound : Plan → List Plan
  | .transformList source _ _ _ _ => [source]
  | .createObject _ _ _ => []
  | .updateObject target _ _ => [target]
  | p => p.parts

/-- The parts of a plan in the scope of the variable that its outermost step binds. -/
def bound : Plan → List Plan
  | .transformList _ _ filter _ inner => filter.toList ++ inner.toList
  | .createObject _ _ changes | .updateObject _ _ changes => changes
  | _ => []

/-- Every variable in the plans is in scope there, with the leaf not looked into. The last list is
what the plans bind. -/
inductive Scoped (leaf : Option Plan) : List Variable → List Plan → List Variable → Prop
  | nil {scope : List Variable} : Scoped leaf scope [] []
  | leaf {scope bs : List Variable} {p : Plan} {ps : List Plan} (hp : p ∈ leaf)
      (hps : Scoped leaf scope ps bs) : Scoped leaf scope (p :: ps) bs
  | var {scope bs : List Variable} {v : Variable} {ps : List Plan} (hv : v ∈ scope)
      (hps : Scoped leaf scope ps bs) : Scoped leaf scope (.var v :: ps) bs
  | step {scope before within bs : List Variable} {p : Plan} {ps : List Plan}
      (hvar : p.isVar = false) (hunbound : Scoped leaf scope p.unbound before)
      (hbound : Scoped leaf (p.binder?.toList ++ scope) p.bound within)
      (hps : Scoped leaf scope ps bs) :
    Scoped leaf scope (p :: ps) (before ++ p.binder?.toList ++ within ++ bs)

namespace Scoped

variable {leaf : Option Plan} {scope scope' bs cs : List Variable} {ps qs : List Plan}

theorem mono (h : Scoped leaf scope ps bs) (hsub : scope ⊆ scope') : Scoped leaf scope' ps bs := by
  induction h generalizing scope' with
  | nil => exact .nil
  | leaf hp _ ih => exact .leaf hp (ih hsub)
  | var hv _ ih => exact .var (hsub hv) (ih hsub)
  | step hvar _ _ _ ihunbound ihbound ih =>
    refine .step hvar (ihunbound hsub) (ihbound fun v hv => ?_) (ih hsub)
    exact List.mem_append.2 ((List.mem_append.1 hv).imp_right (hsub ·))

/-- Plans without a leaf have their variables in scope whatever else is taken as one. -/
theorem withLeaf (h : Scoped none scope ps bs) : Scoped leaf scope ps bs := by
  induction h with
  | nil => exact .nil
  | leaf hp => cases hp
  | var hv _ ih => exact .var hv ih
  | step hvar _ _ _ ihunbound ihbound ih => exact .step hvar ihunbound ihbound ih

theorem append (h : Scoped leaf scope ps bs) (hqs : Scoped leaf scope qs cs) :
    Scoped leaf scope (ps ++ qs) (bs ++ cs) := by
  induction h with
  | nil => exact hqs
  | leaf hp _ ih => exact .leaf hp (ih hqs)
  | var hv _ ih => exact .var hv (ih hqs)
  | step hvar hunbound hbound _ _ _ ih =>
    rw [List.append_assoc]
    exact .step hvar hunbound hbound (ih hqs)

end Scoped

theorem unbound_eq_parts {p : Plan} (h : p.binder? = none) : p.unbound = p.parts := by
  cases p with
  | transformList | createObject | updateObject => cases h
  | _ => rfl

theorem bound_eq_nil {p : Plan} (h : p.binder? = none) : p.bound = [] := by
  cases p with
  | transformList | createObject | updateObject => cases h
  | _ => rfl

theorem isVar_eq_false {p : Plan} {b : Variable} (h : p.binder? = some b) : p.isVar = false := by
  cases p with
  | var => cases h
  | _ => rfl

end Plan

/-! ### Drawn variables -/

/-- The variables that a supply hands out while it goes from `n` to `m`, in order. -/
structure Drawn (n m : Nat) (vs : List Variable) : Prop where
  numbered : NumberedFrom Variable.id n vs
  count : m = n + vs.length

namespace Drawn

variable {n k m : Nat} {vs ws : List Variable}

theorem nil : Drawn n n [] := ⟨rfl, rfl⟩

theorem singleton (v : Variable) : Drawn v.id (v.id + 1) [v] := ⟨.singleton v rfl, rfl⟩

theorem append (h : Drawn n k vs) (hws : Drawn k m ws) : Drawn n m (vs ++ ws) where
  numbered := h.numbered.append (h.count ▸ hws.numbered)
  count := by
    rw [List.length_append, hws.count, h.count]
    omega

theorem eq_nil (h : Drawn n n vs) : vs = [] := by
  have hcount := h.count
  exact List.length_eq_zero_iff.1 (by omega)

theorem inRange (h : Drawn n m vs) {v : Variable} (hv : v ∈ vs) : n ≤ v.id ∧ v.id < m := by
  have hmem : v.id ∈ vs.map Variable.id := List.mem_map_of_mem hv
  rw [h.numbered, List.mem_range'_1] at hmem
  rwa [h.count]

theorem nodup (h : Drawn n m vs) : (vs.map Variable.id).Nodup := by
  rw [h.numbered]
  exact List.nodup_range'

end Drawn

/-! ### Plans with drawn variables -/

namespace Plan

/-- What the plans bind is what was drawn between the two numbers, and every other variable in them
is in scope. -/
def Fresh (leaf : Option Plan) (scope : List Variable) (n : Nat) (ps : List Plan) (m : Nat) :
    Prop :=
  ∃ bs, Scoped leaf scope ps bs ∧ Drawn n m bs

namespace Fresh

variable {leaf : Option Plan} {scope scope' : List Variable} {n k m : Nat} {p : Plan}
  {ps qs : List Plan}

theorem nil : Fresh leaf scope n [] n := ⟨[], .nil, .nil⟩

theorem ofLeaf (h : p ∈ leaf) : Fresh leaf scope n [p] n := ⟨[], .leaf h .nil, .nil⟩

theorem var {v : Variable} (h : v ∈ scope) : Fresh leaf scope n [.var v] n :=
  ⟨[], .var h .nil, .nil⟩

theorem append (h : Fresh leaf scope n ps k) (hqs : Fresh leaf scope k qs m) :
    Fresh leaf scope n (ps ++ qs) m := by
  obtain ⟨bs, hscoped, hdrawn⟩ := h
  obtain ⟨cs, hscoped', hdrawn'⟩ := hqs
  exact ⟨bs ++ cs, hscoped.append hscoped', hdrawn.append hdrawn'⟩

theorem cons (h : Fresh leaf scope n [p] k) (hps : Fresh leaf scope k ps m) :
    Fresh leaf scope n (p :: ps) m := h.append hps

theorem mono (h : Fresh leaf scope n ps m) (hsub : scope ⊆ scope') :
    Fresh leaf scope' n ps m := by
  obtain ⟨bs, hscoped, hdrawn⟩ := h
  exact ⟨bs, hscoped.mono hsub, hdrawn⟩

theorem withLeaf (h : Fresh none scope n ps m) : Fresh leaf scope n ps m := by
  obtain ⟨bs, hscoped, hdrawn⟩ := h
  exact ⟨bs, hscoped.withLeaf, hdrawn⟩

/-- Plans that bind nothing can stand anywhere. -/
theorem shift (h : Fresh leaf scope n ps n) (k : Nat) : Fresh leaf scope k ps k := by
  obtain ⟨bs, hscoped, hdrawn⟩ := h
  rw [hdrawn.eq_nil] at hscoped
  exact ⟨[], hscoped, .nil⟩

/-- A step that binds nothing, from its parts. -/
theorem plain (hvar : p.isVar = false) (hbinder : p.binder? = none)
    (h : Fresh leaf scope n p.parts m) : Fresh leaf scope n [p] m := by
  obtain ⟨bs, hscoped, hdrawn⟩ := h
  rw [← unbound_eq_parts hbinder] at hscoped
  have hbound : Scoped leaf (p.binder?.toList ++ scope) p.bound [] := by
    rw [bound_eq_nil hbinder]
    exact .nil
  have hstep := Scoped.step hvar hscoped hbound .nil
  simp only [hbinder, Option.toList_none, List.append_nil] at hstep
  exact ⟨bs, hstep, hdrawn⟩

/-- A step that binds the next variable after its unbound parts. -/
theorem bind {b : Variable} (hbinder : p.binder? = some b)
    (hunbound : Fresh leaf scope n p.unbound b.id)
    (hbound : Fresh leaf (b :: scope) (b.id + 1) p.bound m) : Fresh leaf scope n [p] m := by
  obtain ⟨before, hbefore, hdrawn⟩ := hunbound
  obtain ⟨within, hwithin, hdrawn'⟩ := hbound
  have hscope : Scoped leaf (p.binder?.toList ++ scope) p.bound within := by
    rw [hbinder]
    exact hwithin
  have hstep := Scoped.step (isVar_eq_false hbinder) hbefore hscope .nil
  rw [hbinder, Option.toList_some, List.append_nil] at hstep
  exact ⟨_, hstep, (hdrawn.append (.singleton b)).append hdrawn'⟩

end Fresh

end Plan

end EntityGraph
