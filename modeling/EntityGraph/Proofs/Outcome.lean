import EntityGraph.Plan.Variable
import Mathlib.Data.List.Forall2

/-!
# Outcomes of computations that may fail

Two ways to speak about a computation without opening its monad. An *inversion* takes the outcome of
a sequence apart into the outcomes of its parts. A *judgement* bounds what can come out: `Ensures`
for planners, whatever the supply they start from, and `FailsWith` for computations without a
supply.

A judgement has two places, one for results and one for errors. With `False` in the place for errors
it says that the computation succeeds; with `True` there it speaks about results only.

## Main definitions

* `Planner.Ensures` — every result satisfies one predicate, and every error another
* `FailsWith` — every error satisfies a predicate

## Main results

* `bind_eq_ok`, `bind_eq_error` — how a sequence succeeds or fails
* `Planner.Ensures.bind`, `Planner.Ensures.mapM` — judgements of sequences and of lists
* `forall₂_of_mapM_eq_ok`, `exists_mapM_eq_ok` — lists of computations without a supply
-/

namespace EntityGraph

variable {ε ε' α β : Type}

/-- What stands on the right of a relation between lists stands there with something on the left. -/
theorem exists_of_forall₂_of_mem {R : α → β → Prop} {xs : List α} {ys : List β}
    (h : List.Forall₂ R xs ys) {y : β} (hy : y ∈ ys) : ∃ x ∈ xs, R x y := by
  induction h with
  | nil => simp at hy
  | @cons x y' xs ys hxy _ ih =>
    rcases List.mem_cons.1 hy with rfl | hy
    · exact ⟨x, List.mem_cons_self, hxy⟩
    · obtain ⟨x', hx', hxy'⟩ := ih hy
      exact ⟨x', List.mem_cons_of_mem x hx', hxy'⟩

/-! ### Computations without a supply -/

theorem bind_eq_ok {r : Except ε α} {f : α → Except ε β} {b : β} :
    r >>= f = .ok b ↔ ∃ a, r = .ok a ∧ f a = .ok b := by
  cases r with
  | ok a => simp [bind, Except.bind]
  | error e => simp [bind, Except.bind]

theorem bind_eq_error {r : Except ε α} {f : α → Except ε β} {e : ε} :
    r >>= f = .error e ↔ r = .error e ∨ ∃ a, r = .ok a ∧ f a = .error e := by
  cases r with
  | ok a => simp [bind, Except.bind]
  | error e' => simp [bind, Except.bind]

/-- The results of a list of computations that all succeed, one for each. -/
theorem forall₂_of_mapM_eq_ok {f : α → Except ε β} {xs : List α} {ys : List β}
    (h : xs.mapM f = .ok ys) : List.Forall₂ (fun x y => f x = .ok y) xs ys := by
  induction xs generalizing ys with
  | nil =>
    obtain rfl : [] = ys := by simpa [pure, Except.pure] using h
    exact .nil
  | cons x xs ih =>
    rw [List.mapM_cons] at h
    obtain ⟨y, hy, h⟩ := bind_eq_ok.1 h
    obtain ⟨rest, hrest, h⟩ := bind_eq_ok.1 h
    obtain rfl : y :: rest = ys := by simpa [pure, Except.pure] using h
    exact .cons hy (ih hrest)

theorem exists_of_mem_mapM {f : α → Except ε β} {xs : List α} {ys : List β}
    (h : xs.mapM f = .ok ys) {y : β} (hy : y ∈ ys) : ∃ x ∈ xs, f x = .ok y :=
  exists_of_forall₂_of_mem (forall₂_of_mapM_eq_ok h) hy

/-- A list of computations succeeds if each of them does. -/
theorem exists_mapM_eq_ok {f : α → Except ε β} {xs : List α} (h : ∀ x ∈ xs, ∃ y, f x = .ok y) :
    ∃ ys, xs.mapM f = .ok ys := by
  induction xs with
  | nil => exact ⟨[], rfl⟩
  | cons x xs ih =>
    obtain ⟨y, hy⟩ := h x List.mem_cons_self
    obtain ⟨ys, hys⟩ := ih fun x' hx' => h x' (List.mem_cons_of_mem x hx')
    exact ⟨y :: ys, by rw [List.mapM_cons, hy, hys]; rfl⟩

/-- Every error that can come out satisfies `E`. -/
def FailsWith (r : Except ε α) (E : ε → Prop) : Prop := ∀ e, r = .error e → E e

namespace FailsWith

variable {E : ε → Prop}

theorem ok (a : α) : FailsWith (.ok a : Except ε α) E := by
  intro e h
  cases h

theorem error {e : ε} (h : E e) : FailsWith (.error e : Except ε α) E := by
  rintro _ ⟨⟩
  exact h

theorem of_eq_ok {r : Except ε α} {a : α} (h : r = .ok a) : FailsWith r E := h ▸ ok a

theorem bind {r : Except ε α} {f : α → Except ε β} (hr : FailsWith r E)
    (hf : ∀ a, r = .ok a → FailsWith (f a) E) : FailsWith (r >>= f) E := by
  intro e h
  rcases bind_eq_error.1 h with h | ⟨a, ha, h⟩
  · exact hr e h
  · exact hf a ha e h

theorem map {r : Except ε α} (g : α → β) (hr : FailsWith r E) : FailsWith (r.map g) E := by
  cases r with
  | ok a => exact ok _
  | error e => exact error (hr e rfl)

theorem mapM {f : α → Except ε β} {xs : List α} (h : ∀ x ∈ xs, FailsWith (f x) E) :
    FailsWith (xs.mapM f) E := by
  induction xs with
  | nil => exact ok []
  | cons x xs ih =>
    rw [List.mapM_cons]
    refine (h x List.mem_cons_self).bind fun y _ => ?_
    exact (ih fun x' hx' => h x' (List.mem_cons_of_mem x hx')).bind fun ys _ => ok _

end FailsWith

namespace Planner

/-! ### Judgements of planners -/

/-- Renaming failures changes the error and nothing else. -/
theorem outcome_mapError (f : ε → ε') (p : Planner ε α) (supply : Supply) :
    (p.mapError f).outcome supply =
      ((p.outcome supply).1.mapError f, (p.outcome supply).2) := by
  show StateT.run (Except.mapError f <$> ExceptT.run p) supply = _
  rw [StateT.run_map]
  rfl

/-- From every supply, a result satisfies `Q` and an error satisfies `E`. -/
def Ensures (p : Planner ε α) (Q : α → Prop) (E : ε → Prop) : Prop :=
  ∀ supply, match (p.outcome supply).1 with
    | .ok a => Q a
    | .error e => E e

namespace Ensures

variable {Q : α → Prop} {E : ε → Prop} {p : Planner ε α}

theorem result (h : p.Ensures Q E) {supply rest : Supply} {a : α}
    (hp : p.outcome supply = (.ok a, rest)) : Q a := by
  simpa [hp] using h supply

theorem failure (h : p.Ensures Q E) {supply rest : Supply} {e : ε}
    (hp : p.outcome supply = (.error e, rest)) : E e := by
  simpa [hp] using h supply

theorem pure {a : α} (h : Q a) : (Pure.pure a : Planner ε α).Ensures Q E := by
  intro supply
  simpa using h

theorem throw {e : ε} (h : E e) : (MonadExcept.throw e : Planner ε α).Ensures Q E := by
  intro supply
  simpa using h

theorem mono {Q' : α → Prop} {E' : ε → Prop} (h : p.Ensures Q E) (hQ : ∀ a, Q a → Q' a)
    (hE : ∀ e, E e → E' e) : p.Ensures Q' E' := by
  intro supply
  have hs := h supply
  rcases hp : (p.outcome supply).1 with e | a
  · rw [hp] at hs
    exact hE e hs
  · rw [hp] at hs
    exact hQ a hs

theorem imp {Q' : α → Prop} (h : p.Ensures Q E) (hQ : ∀ a, Q a → Q' a) : p.Ensures Q' E :=
  h.mono hQ fun _ he => he

/-- A computation that cannot fail meets any demand on its errors. -/
theorem of_succeeds (h : p.Ensures Q fun _ => False) : p.Ensures Q E :=
  h.mono (fun _ hQ => hQ) fun _ hfalse => hfalse.elim

theorem bind {f : α → Planner ε β} {Q' : β → Prop} (h : p.Ensures Q E)
    (hf : ∀ a, Q a → (f a).Ensures Q' E) : (p >>= f).Ensures Q' E := by
  intro supply
  have hs := h supply
  rw [outcome_bind]
  rcases hp : p.outcome supply with ⟨e | a, rest⟩
  · rw [hp] at hs
    exact hs
  · rw [hp] at hs
    exact hf a hs rest

theorem ofExcept {r : Except ε α} (hok : ∀ a, r = .ok a → Q a) (herr : FailsWith r E) :
    (Planner.ofExcept r).Ensures Q E := by
  intro supply
  rw [outcome_ofExcept]
  cases r with
  | ok a => exact hok a rfl
  | error e => exact herr e rfl

theorem fresh (label : String) : (EntityGraph.fresh label : Planner ε Variable).Ensures
    (fun _ => True) E := by
  intro supply
  trivial

theorem mapError {f : ε → ε'} {E' : ε' → Prop} (h : p.Ensures Q fun e => E' (f e)) :
    (p.mapError f).Ensures Q E' := by
  intro supply
  have hs := h supply
  rw [outcome_mapError]
  rcases hp : (p.outcome supply).1 with e | a
  · rw [hp] at hs
    exact hs
  · rw [hp] at hs
    exact hs

/-- Judgements of the members of a list give a judgement of the list of their results. -/
theorem mapM {f : α → Planner ε β} {R : α → β → Prop} {xs : List α}
    (h : ∀ x ∈ xs, (f x).Ensures (R x) E) : (xs.mapM f).Ensures (List.Forall₂ R xs) E := by
  induction xs with
  | nil => exact pure .nil
  | cons x xs ih =>
    rw [List.mapM_cons]
    refine (h x List.mem_cons_self).bind fun y hy => ?_
    refine (ih fun x' hx' => h x' (List.mem_cons_of_mem x hx')).bind fun ys hys => ?_
    exact pure (.cons hy hys)

/-- A computation that cannot fail has a result. -/
theorem exists_ok (h : p.Ensures Q fun _ => False) (supply : Supply) :
    ∃ a rest, p.outcome supply = (.ok a, rest) ∧ Q a := by
  have hs := h supply
  rcases hp : p.outcome supply with ⟨e | a, rest⟩
  · rw [hp] at hs
    exact hs.elim
  · rw [hp] at hs
    exact ⟨a, rest, rfl, hs⟩

end Ensures

end Planner

end EntityGraph
