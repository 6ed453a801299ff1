import EntityGraph.Plan.Read
import EntityGraph.Proofs.Nodes

/-!
# Evaluation of plans

What a plan that reads comes to in a store. A store lists the entities of a type, knows the identity
of an entity, the values stored in the fields of an object and the entities that an edge leads to.
Variables have values in an environment, which the steps that bind a variable extend.

## Scope

Only reading is evaluated: a plan that writes or makes a new identity has no value, nor has one in
which a list or a truth value is missing where it is needed. Calculations are left to the store.

A store need not be able to list every type. A plan has a value in a store that lists nothing only
if none of the entities it names is needed, and this is how a statement says that a plan does not
ask for them.

## Main definitions

* `Store`, `Environment` — what plans are evaluated in
* `Plan.eval` — the value of a plan

## Main results

* `Plan.eval_congr` — the value of a plan depends on the variables that occur in it
* `Plan.eval_lookup`, `Plan.eval_lookupByKey` — lookups find the first entity that fits
-/

namespace EntityGraph

/-! ### Stores and environments -/

/-- What plans read. -/
structure Store where
  /-- The entities of a type in order, if the store can list them. -/
  entities : TypeId → Option (List Value)
  /-- The identity of an entity. -/
  identity : Value → Value
  /-- The value in a field of an object, if there is one. -/
  stored? : Value → FieldId → Option Value
  /-- The entities to which an object is connected, in order. -/
  connected : RelationSide → Value → List Value
  /-- What an operator makes of two values, where it calculates. -/
  calculate : BinaryOperator → Value → Value → Option Value

/-- The value in a field of an object, null if there is none. -/
def Store.stored (store : Store) (o : Value) (f : FieldId) : Value := (store.stored? o f).getD .null

/-- The values of variables, by their numbers. -/
abbrev Environment := Nat → Option Value

/-- The environment in which a variable has the given value. -/
def Environment.bind (env : Environment) (v : Variable) (x : Value) : Environment :=
  fun id => if id = v.id then some x else env id

@[simp] theorem Environment.bind_self (env : Environment) (v : Variable) (x : Value) :
    env.bind v x v.id = some x := if_pos rfl

theorem Environment.bind_of_ne (env : Environment) {v : Variable} {id : Nat} (h : id ≠ v.id)
    (x : Value) : env.bind v x id = env id := if_neg h

/-! ### The value of a plan -/

/-- Whether a value has a shape. -/
def ValueShape.fits : ValueShape → Value → Bool
  | .object, v => v.isObject
  | .list, v => v.isList
  | .null, v => v.isNull
  | .scalar, v => !(v.isObject || v.isList || v.isNull)

/-- What an operator makes of two values. -/
def Store.combine (store : Store) : BinaryOperator → Value → Value → Option Value
  | .equal, v, w => some (.bool (v == w))
  | .unequal, v, w => some (.bool !(v == w))
  | .and, v, w => do return .bool ((← v.bool?) && (← w.bool?))
  | .or, v, w => do return .bool ((← v.bool?) || (← w.bool?))
  | .isIn, v, w => do return .bool ((← w.list?).any (v == ·))
  | .concat, v, w => do return .list ((← v.list?) ++ (← w.list?))
  | op, v, w => store.calculate op v w

/-- The items that pass a test, if it is decided for each. -/
def keepItems (test : Value → Option Bool) : List Value → Option (List Value)
  | [] => some []
  | x :: xs => do
    let passes ← test x
    let rest ← keepItems test xs
    return if passes then x :: rest else rest

/-- A test that is always decided keeps what it holds of. -/
theorem keepItems_eq_filter {test : Value → Option Bool} {p : Value → Bool}
    (h : ∀ x, test x = some (p x)) (xs : List Value) : keepItems test xs = some (xs.filter p) := by
  induction xs with
  | nil => rfl
  | cons x xs ih =>
    rw [keepItems, h x, ih, List.filter_cons]
    rfl

theorem Value.beq_null (v : Value) : (v == Value.null) = v.isNull := by
  cases v <;> rfl

/-- Of two values that are equal both are null or neither is. -/
theorem Value.isNull_of_beq {v w : Value} (h : (v == w) = true) : v.isNull = w.isNull := by
  cases v with
  | null =>
    cases w with
    | null => rfl
    | _ => cases h
  | _ =>
    cases w with
    | null => cases h
    | _ => rfl

namespace Plan

mutual

/-- The value of a plan. -/
def eval (store : Store) : Plan → Environment → Option Value
  | .entities type, _ => (store.entities type).map .list
  | .field source f _, env => (eval store source env).map (store.stored · f)
  | .entityId source, env => (eval store source env).map store.identity
  | .conditional condition yes no, env =>
    ((eval store condition env).bind Value.bool?).bind fun holds =>
      bif holds then eval store yes env else eval store no env
  | .typeCheck value shape, env => (eval store value env).map fun v => .bool (shape.fits v)
  | .transformList source item filter maxCount inner, env => do
    let items ← (eval store source env).bind Value.list?
    let kept ← keepItems (fun x => passes store filter (env.bind item x)) items
    let results ← (kept.take (maxCount.getD kept.length)).mapM fun x =>
      replace store inner x (env.bind item x)
    return .list results
  | .firstOfList source, env =>
    ((eval store source env).bind Value.list?).map (·.headD .null)
  | .followEdge side source, env =>
    (eval store source env).map fun o => .list (store.connected side o)
  | .binary op lhs rhs, env => do store.combine op (← eval store lhs env) (← eval store rhs env)
  | .unary .not operand, env =>
    ((eval store operand env).bind Value.bool?).map fun b => .bool !b
  | .literal v, _ => some v
  | .var v, env => env v.id
  | .object properties, env =>
    (evalProperties store properties env).map fun es => .object (Entries.ofPairs es)
  | .list items, env => (evalItems store items env).map .list
  | .generateId, _ | .setField .., _ | .addEdges .., _ | .removeEdges .., _ | .setEdge .., _
  | .createObject .., _ | .updateObject .., _ | .deleteObject .., _ => none

/-- Whether an item passes a filter. Without a filter every item does. -/
def passes (store : Store) : Option Plan → Environment → Option Bool
  | none, _ => some true
  | some p, env => (eval store p env).bind Value.bool?

/-- What replaces an item. Without a replacement the item stays. -/
def replace (store : Store) : Option Plan → Value → Environment → Option Value
  | none, x, _ => some x
  | some p, _, env => eval store p env

/-- The values of the items of a list. -/
def evalItems (store : Store) : List Plan → Environment → Option (List Value)
  | [], _ => some []
  | p :: ps, env => do return (← eval store p env) :: (← evalItems store ps env)

/-- The values of the properties of an object. -/
def evalProperties (store : Store) :
    List (String × Plan) → Environment → Option (List (String × Value))
  | [], _ => some []
  | (name, p) :: rest, env => do
    return (name, ← eval store p env) :: (← evalProperties store rest env)

end

/-! ### Variables -/

/-- Two environments agree on the variables in a plan. -/
def Agree (p : Plan) (env env' : Environment) : Prop :=
  ∀ q ∈ p.nodes, ∀ v, q = .var v → env v.id = env' v.id

variable {store : Store} {env env' : Environment}

theorem agree_iff {p : Plan} : p.Agree env env' ↔
    (∀ v, p = .var v → env v.id = env' v.id) ∧ ∀ q ∈ p.parts, q.Agree env env' :=
  forall_nodes_iff

theorem Agree.bind {p : Plan} (h : p.Agree env env') (item : Variable) (x : Value) :
    p.Agree (env.bind item x) (env'.bind item x) := by
  intro q hq v hv
  by_cases hid : v.id = item.id
  · rw [hid, Environment.bind_self, Environment.bind_self]
  · rw [env.bind_of_ne hid, env'.bind_of_ne hid, h q hq v hv]

theorem evalItems_congr {ps : List Plan} (h : ∀ p ∈ ps, p.eval store env = p.eval store env') :
    evalItems store ps env = evalItems store ps env' := by
  induction ps with
  | nil => rfl
  | cons p ps ih =>
    obtain ⟨hp, hps⟩ := List.forall_mem_cons.1 h
    rw [evalItems, evalItems, hp, ih hps]

theorem evalProperties_congr {properties : List (String × Plan)}
    (h : ∀ p ∈ properties.map (·.2), p.eval store env = p.eval store env') :
    evalProperties store properties env = evalProperties store properties env' := by
  induction properties with
  | nil => rfl
  | cons property rest ih =>
    obtain ⟨hp, hrest⟩ := List.forall_mem_cons.1 h
    rw [evalProperties, evalProperties, hp, ih hrest]

theorem passes_congr {filter : Option Plan}
    (h : ∀ p ∈ filter, p.eval store env = p.eval store env') :
    passes store filter env = passes store filter env' := by
  cases filter with
  | none => rfl
  | some p => rw [passes, passes, h p rfl]

theorem replace_congr {inner : Option Plan} (x : Value)
    (h : ∀ p ∈ inner, p.eval store env = p.eval store env') :
    replace store inner x env = replace store inner x env' := by
  cases inner with
  | none => rfl
  | some p => rw [replace, replace, h p rfl]

/-- The value of a plan depends on the values of the variables that occur in it. -/
theorem eval_congr {p : Plan} (h : p.Agree env env') : p.eval store env = p.eval store env' := by
  induction p using Plan.induct_parts generalizing env env' with
  | step p ih =>
  obtain ⟨hvar, hparts⟩ := agree_iff.1 h
  have heval : ∀ q ∈ p.parts, q.eval store env = q.eval store env' :=
    fun q hq => ih q hq (hparts q hq)
  cases p with
  | var v => exact hvar v rfl
  | field source | entityId source | typeCheck source | followEdge _ source
  | firstOfList source => rw [eval, eval, heval source List.mem_cons_self]
  | unary op operand =>
    cases op
    rw [eval, eval, heval operand List.mem_cons_self]
  | binary op lhs rhs =>
    rw [eval, eval, heval lhs (by simp [parts]), heval rhs (by simp [parts])]
  | conditional condition yes no =>
    rw [eval, eval, heval condition (by simp [parts]), heval yes (by simp [parts]),
      heval no (by simp [parts])]
  | object properties => rw [eval, eval, evalProperties_congr heval]
  | list items =>
    rw [eval, eval]
    exact congrArg _ (evalItems_congr heval)
  | transformList source item filter maxCount inner =>
    -- The filter and the replacement are evaluated for each item, with the item bound.
    have hitem : ∀ x, ∀ q ∈ filter.toList ++ inner.toList,
        q.eval store (env.bind item x) = q.eval store (env'.bind item x) := fun x q hq =>
      ih q (List.mem_cons_of_mem _ hq) ((hparts q (List.mem_cons_of_mem _ hq)).bind item x)
    have hpasses : (fun x => passes store filter (env.bind item x)) =
        fun x => passes store filter (env'.bind item x) := by
      funext x
      exact passes_congr fun q hq => hitem x q (by simp [Option.mem_def.1 hq])
    have hreplace : (fun x => replace store inner x (env.bind item x)) =
        fun x => replace store inner x (env'.bind item x) := by
      funext x
      exact replace_congr x fun q hq => hitem x q (by simp [Option.mem_def.1 hq])
    rw [eval, eval, heval source List.mem_cons_self, hpasses, hreplace]
  | entities | literal | generateId | setField | addEdges | removeEdges | setEdge | createObject
  | updateObject | deleteObject => rfl

/-! ### Reading an object and looking up an entity -/

/-- The value if it fits, and the fallback otherwise. -/
theorem eval_ensure {value fallback : Plan} {shape : ValueShape} {v w : Value}
    (hvalue : value.eval store env = some v) (hfallback : fallback.eval store env = some w) :
    (value.ensure shape fallback).eval store env = some (bif shape.fits v then v else w) := by
  rw [ensure, eval, eval, hvalue, hfallback]
  cases hfits : shape.fits v with
  | true => simp [hfits, Value.bool?]
  | false => simp [hfits, Value.bool?]

/-- A lookup finds the first entity that passes its test. -/
theorem eval_lookup {type : TypeId} {candidate : Variable} {filter : Plan} {test : Value → Bool}
    (hfilter : ∀ x, filter.eval store (env.bind candidate x) = some (.bool (test x))) :
    (lookup type candidate filter).eval store env =
      (store.entities type).map fun entities => (entities.find? test).getD .null := by
  have hpasses : ∀ x, passes store (some filter) (env.bind candidate x) = some (test x) := by
    intro x
    rw [passes, hfilter]
    rfl
  rw [lookup, eval, eval, eval]
  cases store.entities type with
  | none => rfl
  | some entities =>
    have hkept := keepItems_eq_filter hpasses entities
    have hkeep : ∀ xs : List Value,
        xs.mapM (fun x => replace store none x (env.bind candidate x)) = some xs := by
      intro xs
      have hpure := List.mapM_pure (m := Option) (l := xs) (f := id)
      rwa [List.map_id] at hpure
    simp only [Option.map_some, Option.bind_some, Value.list?, Option.bind_eq_bind, hkept, hkeep,
      Option.getD_some, Option.pure_def]
    rw [List.headD_eq_head?_getD, List.head?_take, if_neg Nat.one_ne_zero, List.head?_filter]

/-- A lookup by key finds the first entity whose key is the stored one, and does not look if the
stored key is null. -/
theorem eval_lookupByKey {type : TypeId} {candidate : Variable} {candidateKey stored : Plan}
    {keyOf : Value → Value} {k : Value} (hstored : stored.eval store env = some k)
    (hsame : ∀ x, stored.eval store (env.bind candidate x) = some k)
    (hkey : ∀ x, candidateKey.eval store (env.bind candidate x) = some (keyOf x)) :
    (lookupByKey type candidate candidateKey stored).eval store env =
      bif k.isNull then some .null else (store.entities type).map fun entities =>
        (entities.find? (keyOf · == k)).getD .null := by
  have hnull : (eq stored .null).eval store env = some (.bool k.isNull) := by
    rw [eq, null, eval, hstored, eval, ← k.beq_null]
    rfl
  rw [lookupByKey, eval, hnull]
  cases hk : k.isNull with
  | true => rfl
  | false =>
    refine eval_lookup fun x => ?_
    have htest : (keyOf x == k && !(keyOf x == Value.null)) = (keyOf x == k) := by
      cases hx : keyOf x == k with
      | false => rfl
      | true => rw [Value.beq_null, Value.isNull_of_beq hx, hk]; rfl
    rw [and, eq, ne, null, eval, eval, eval, eval, hkey, hsame, ← htest]
    rfl

end Plan

end EntityGraph
