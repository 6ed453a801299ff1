import EntityGraph.Proofs.Outcome

/-!
# Results and the numbers drawn for them

`Planner.Ensures` forgets the supply. Here it is kept: `Planner.Yields` relates a result to the
number that the supply stood at before and the one it stands at afterwards, so that a statement
about a plan can say which variables were drawn for which part of it.

In a list of computations each starts where the one before stopped. `Chain` is that relation between
two lists, from the first number to the last.

Only results are spoken of. A computation that fails yields whatever is asked.

## Main definitions

* `Chain` — two lists related member by member, with numbers handed on
* `Planner.Yields` — what is known of a result and of the supply left by it

## Main results

* `Chain.pairwise` — what holds between members of one list passes to those of the other
* `Planner.Yields.bind`, `Planner.Yields.mapM` — judgements of sequences and of lists
* `Planner.exists_result` — a result found by running the computation
-/

namespace EntityGraph

variable {ε α β γ : Type}

/-! ### Chains -/

/-- The members of two lists are related one by one, each pair from the number at which the pair
before stopped. -/
inductive Chain (R : α → Nat → β → Nat → Prop) : List α → Nat → List β → Nat → Prop
  | nil {n : Nat} : Chain R [] n [] n
  | cons {x : α} {xs : List α} {y : β} {ys : List β} {n k m : Nat} (head : R x n y k)
      (tail : Chain R xs k ys m) : Chain R (x :: xs) n (y :: ys) m

namespace Chain

variable {R : α → Nat → β → Nat → Prop} {xs : List α} {ys : List β} {n m : Nat}

theorem exists_of_mem (h : Chain R xs n ys m) {y : β} (hy : y ∈ ys) :
    ∃ x ∈ xs, ∃ k l, R x k y l := by
  induction h with
  | nil => simp at hy
  | @cons x xs y' ys n k m head _ ih =>
    rcases List.mem_cons.1 hy with rfl | hy
    · exact ⟨x, List.mem_cons_self, n, k, head⟩
    · obtain ⟨x', hx', hrelated⟩ := ih hy
      exact ⟨x', List.mem_cons_of_mem x hx', hrelated⟩

theorem imp {R' : α → Nat → β → Nat → Prop} (h : Chain R xs n ys m)
    (himp : ∀ x ∈ xs, ∀ n y m, R x n y m → R' x n y m) : Chain R' xs n ys m := by
  induction h with
  | nil => exact .nil
  | @cons x xs y ys n k m head _ ih =>
    refine .cons (himp x List.mem_cons_self n y k head) (ih fun x' hx' => ?_)
    exact himp x' (List.mem_cons_of_mem x hx')

/-- What holds between any two members of one list passes to the members of the other. -/
theorem pairwise {S : α → α → Prop} {T : β → β → Prop} (h : Chain R xs n ys m) (hxs : xs.Pairwise S)
    (hT : ∀ x x', x ∈ xs → x' ∈ xs → S x x' → ∀ n y m, R x n y m → ∀ n y' m, R x' n y' m → T y y') :
    ys.Pairwise T := by
  induction h with
  | nil => exact .nil
  | @cons x xs y ys n k m head tail ih =>
    obtain ⟨hfirst, hrest⟩ := List.pairwise_cons.1 hxs
    refine List.pairwise_cons.2 ⟨fun y' hy' => ?_, ih hrest fun x' x'' hx' hx'' => ?_⟩
    · obtain ⟨x', hx', k', l, hrelated⟩ := tail.exists_of_mem hy'
      exact hT x x' List.mem_cons_self (List.mem_cons_of_mem x hx') (hfirst x' hx') n y k head k' y'
        l hrelated
    · exact hT x' x'' (List.mem_cons_of_mem x hx') (List.mem_cons_of_mem x hx'')

/-- What is known of each pair holds of the two lists, with the numbers forgotten. -/
theorem forall₂ {S : α → β → Prop} (h : Chain R xs n ys m)
    (hS : ∀ x ∈ xs, ∀ n y m, R x n y m → S x y) : List.Forall₂ S xs ys := by
  induction h with
  | nil => exact .nil
  | @cons x xs y ys n k m head _ ih =>
    refine .cons (hS x List.mem_cons_self n y k head) (ih fun x' hx' => ?_)
    exact hS x' (List.mem_cons_of_mem x hx')

/-- Two chains over one list relate what they have made of each of its members. -/
theorem both {R' : α → Nat → γ → Nat → Prop} {S : β → γ → Prop} {zs : List γ} {n' m' : Nat}
    (h : Chain R xs n ys m) (h' : Chain R' xs n' zs m')
    (hS : ∀ x ∈ xs, ∀ n y m n' z m', R x n y m → R' x n' z m' → S y z) : List.Forall₂ S ys zs := by
  induction h generalizing zs n' with
  | nil =>
    cases h'
    exact .nil
  | @cons x xs y ys n k m head _ ih =>
    cases h' with
    | cons head' tail' =>
      refine .cons (hS x List.mem_cons_self _ _ _ _ _ _ head head') (ih tail' fun x' hx' => ?_)
      exact hS x' (List.mem_cons_of_mem x hx')

theorem of_map {f : γ → α} {zs : List γ} (h : Chain R (zs.map f) n ys m) :
    Chain (fun z => R (f z)) zs n ys m := by
  induction zs generalizing n ys with
  | nil =>
    cases h
    exact .nil
  | cons z zs ih =>
    cases h with
    | cons head tail => exact .cons head (ih tail)

/-- A chain of single results folds into one statement about all of them. -/
theorem fold {S : Nat → List β → Nat → Prop} (hnil : ∀ n, S n [] n)
    (hcons : ∀ x ∈ xs, ∀ n y k ys m, R x n y k → S k ys m → S n (y :: ys) m)
    (h : Chain R xs n ys m) : S n ys m := by
  induction h with
  | nil => exact hnil _
  | @cons x xs y ys n k m head _ ih =>
    refine hcons x List.mem_cons_self n y k ys m head (ih fun x' hx' => ?_)
    exact hcons x' (List.mem_cons_of_mem x hx')

end Chain

/-! ### Judgements -/

namespace Planner

/-- If the computation has a result from the supply at `n`, then `Q` holds of the result and of the
number that the supply is left at. -/
def Yields (p : Planner ε α) (n : Nat) (Q : α → Nat → Prop) : Prop :=
  ∀ a rest, p.outcome ⟨n⟩ = (.ok a, rest) → Q a rest.next

namespace Yields

variable {p : Planner ε α} {n : Nat} {Q : α → Nat → Prop}

theorem result (h : p.Yields n Q) {a : α} {m : Nat} (hp : p.outcome ⟨n⟩ = (.ok a, ⟨m⟩)) : Q a m :=
  h a ⟨m⟩ hp

theorem pure {a : α} (h : Q a n) : (Pure.pure a : Planner ε α).Yields n Q := by
  intro b rest hb
  obtain ⟨rfl, rfl⟩ : a = b ∧ ⟨n⟩ = rest := by simpa using hb
  exact h

theorem throw {e : ε} : (MonadExcept.throw e : Planner ε α).Yields n Q := by
  intro a rest ha
  simp at ha

theorem imp {Q' : α → Nat → Prop} (h : p.Yields n Q) (hQ : ∀ a m, Q a m → Q' a m) :
    p.Yields n Q' :=
  fun a rest ha => hQ a rest.next (h a rest ha)

theorem bind {f : α → Planner ε β} {Q' : β → Nat → Prop} (h : p.Yields n Q)
    (hf : ∀ a m, Q a m → (f a).Yields m Q') : (p >>= f).Yields n Q' := by
  intro b rest hb
  rw [outcome_bind] at hb
  rcases hp : p.outcome ⟨n⟩ with ⟨e | a, mid⟩
  · simp [hp] at hb
  · rw [hp] at hb
    exact hf a mid.next (h a mid hp) b rest hb

/-- What comes after drawing a variable starts from the next number. -/
theorem bindFresh {label : String} {f : Variable → Planner ε β} {Q : β → Nat → Prop}
    (h : (f ⟨n, label⟩).Yields (n + 1) Q) : (EntityGraph.fresh label >>= f).Yields n Q := by
  intro b rest hb
  rw [outcome_bind, outcome_fresh] at hb
  exact h b rest hb

/-- A result that needs no variables leaves the supply as it is. -/
theorem bindExcept {r : Except ε α} {f : α → Planner ε β} {Q : β → Nat → Prop}
    (h : ∀ a, r = .ok a → (f a).Yields n Q) : (Planner.ofExcept r >>= f).Yields n Q := by
  intro b rest hb
  rw [outcome_bind, outcome_ofExcept] at hb
  cases r with
  | ok a => exact h a rfl b rest hb
  | error e => simp at hb

/-- Judgements of the members of a list give a chain of their results. -/
theorem mapM {f : α → Planner ε β} {R : α → Nat → β → Nat → Prop} {xs : List α}
    (h : ∀ x ∈ xs, ∀ n, (f x).Yields n (R x n)) : (xs.mapM f).Yields n (Chain R xs n) := by
  induction xs generalizing n with
  | nil => exact pure .nil
  | cons x xs ih =>
    rw [List.mapM_cons]
    refine (h x List.mem_cons_self n).bind fun y k hy => ?_
    refine (ih fun x' hx' => h x' (List.mem_cons_of_mem x hx')).bind fun ys m hys => ?_
    exact pure (.cons hy hys)

end Yields

/-- A result that passes a check, found by running the computation. -/
theorem exists_result {p : Planner ε α} {n : Nat} {check : α → Bool}
    (h : (p.outcome ⟨n⟩).1.toOption.any check = true) :
    ∃ a m, p.outcome ⟨n⟩ = (.ok a, ⟨m⟩) ∧ check a = true := by
  rcases hp : p.outcome ⟨n⟩ with ⟨e | a, ⟨m⟩⟩
  · simp [hp, Except.toOption] at h
  · exact ⟨a, m, rfl, by simpa [hp, Except.toOption] using h⟩

end Planner

end EntityGraph
