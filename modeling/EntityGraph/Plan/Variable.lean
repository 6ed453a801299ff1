/-!
# Variables and their supply

A variable is told apart by its number; its label is for readers. A supply hands out numbers in
order and is threaded through planning, and numbers that were handed out stay so when planning
fails later. Numbers have no upper bound here. In a session that keeps them in 32 bits they are the
same as long as fewer than `2 ^ 32` are drawn.

## Main definitions

* `Variable`, `Supply`
* `Planner` — a computation that draws variables and may fail
* `fresh` — the next variable
-/

namespace EntityGraph

/-- A variable that is bound in a plan. -/
structure Variable where
  id : Nat
  label : String
  deriving DecidableEq, Inhabited

/-- The variable as text. -/
def Variable.display (v : Variable) : String := s!"${v.label}{v.id}"

/-- The number that the next variable gets. -/
structure Supply where
  next : Nat
  deriving DecidableEq, Inhabited

/-- The supply of a new session. -/
def Supply.initial : Supply := ⟨0⟩

/-- A computation that draws variables and may fail. The supply survives a failure. -/
abbrev Planner (ε : Type) := ExceptT ε (StateM Supply)

namespace Planner

/-- The outcome, and the supply that is left. -/
def outcome (p : Planner ε α) (supply : Supply) : Except ε α × Supply :=
  StateT.run (ExceptT.run p) supply

/-- The same computation with its failures renamed. -/
def mapError (f : ε → ε') (p : Planner ε α) : Planner ε' α := ExceptT.adapt f p

/-- A result that needs no variables. -/
def ofExcept : Except ε α → Planner ε α
  | .ok a => pure a
  | .error e => throw e

@[simp] theorem outcome_pure (a : α) (supply : Supply) :
    (pure a : Planner ε α).outcome supply = (.ok a, supply) := rfl

@[simp] theorem outcome_throw (e : ε) (supply : Supply) :
    (throw e : Planner ε α).outcome supply = (.error e, supply) := rfl

/-- A failure ends a computation with the supply that it left. -/
theorem outcome_bind (p : Planner ε α) (f : α → Planner ε β) (supply : Supply) :
    (p >>= f).outcome supply =
      match p.outcome supply with
      | (.ok a, rest) => (f a).outcome rest
      | (.error e, rest) => (.error e, rest) := by
  rw [outcome, ExceptT.run_bind]
  simp only [StateT.run_bind, outcome]
  rcases StateT.run (ExceptT.run p) supply with ⟨_ | _, rest⟩ <;> rfl

@[simp] theorem outcome_ofExcept (r : Except ε α) (supply : Supply) :
    (ofExcept r).outcome supply = (r, supply) := by
  cases r <;> rfl

end Planner

/-- The next variable, with the given label. -/
def fresh (label : String) : Planner ε Variable := do
  let supply ← get
  set (Supply.mk (supply.next + 1))
  return ⟨supply.next, label⟩

@[simp] theorem outcome_fresh (label : String) (supply : Supply) :
    (fresh label : Planner ε Variable).outcome supply
      = (.ok ⟨supply.next, label⟩, ⟨supply.next + 1⟩) := rfl

end EntityGraph
