import EntityGraph.Proofs.ChildUpdates

/-!
# Mutations that fail

Numbers that were drawn stay drawn when planning fails later. So a mutation that fails could leave
the supply further on than it found it: the changes of a value draw variables before they reach the
input objects inside, whose shapes are made on the way, and before they reach declared defaults,
which nothing has looked at.

In a lawful schema this does not happen. Everything that can fail comes before the first variable is
drawn: a mutation fails exactly as the checks in front of it do, with the same error and from the
supply that it was given. After them every value is planned, coerced or not.

## Main definitions

* `Planner.FailsAs` — the failures of a computation are those of another one without a supply, and
  nothing is drawn before them
* `Shape.PlansEvery` — no value fails to be planned for a shape

## Main results

* `Schema.Lawful.plansEvery` — shapes of lawful schemas plan every value
* `failed_mutations_keep_supply` — failures of mutations in accepted schemas
-/

namespace EntityGraph

/-! ### Failures that draw nothing -/

namespace Planner

variable {ε α β γ : Type}

/-- The computation fails exactly if `r` does, with the same error, and then leaves the supply as it
was. -/
def FailsAs (p : Planner ε α) (r : Except ε β) : Prop :=
  ∀ supply e rest, p.outcome supply = (.error e, rest) ↔ r = .error e ∧ rest = supply

namespace FailsAs

/-- A computation that cannot fail, from every supply. -/
theorem of_succeeds {p : Planner ε α} (h : p.Ensures (fun _ => True) fun _ => False) (b : β) :
    p.FailsAs (.ok b : Except ε β) := by
  intro supply e rest
  constructor
  · intro hp
    exact (h.failure hp).elim
  · rintro ⟨hb, -⟩
    cases hb

/-- A check in front of a computation: the failures are those of the check, and then those of the
computation. -/
theorem bindExcept {r : Except ε γ} {f : γ → Planner ε α} {g : γ → Except ε β}
    (h : ∀ c, r = .ok c → (f c).FailsAs (g c)) : (Planner.ofExcept r >>= f).FailsAs (r >>= g) := by
  intro supply e rest
  rw [outcome_bind, outcome_ofExcept]
  cases r with
  | error e' => simp [bind, Except.bind, eq_comm]
  | ok c => exact h c rfl supply e rest

/-- If nothing fails after a check, the failures are those of the check. -/
theorem ofCheck {r : Except ε γ} {f : γ → Planner ε α}
    (h : ∀ c, r = .ok c → (f c).Ensures (fun _ => True) fun _ => False) :
    (Planner.ofExcept r >>= f).FailsAs r := by
  have hchecked := bindExcept fun c hc => of_succeeds (h c hc) c
  rwa [show (r >>= fun c => .ok c) = r from bind_pure r] at hchecked

end FailsAs

end Planner

/-! ### Planning after coercion -/

/-- No value fails to be planned for the shape, whatever the supply and the object to change, and
for every value the affected fields are found. -/
structure Shape.PlansEvery (s : Schema) (shape : Shape) : Prop where
  create : ∀ (value : Value) (supply : Supply), ∃ plan rest,
    (shape.create (changes s value)).outcome supply = (.ok plan, rest)
  update : ∀ (value : Value) (target : Plan) (supply : Supply), ∃ plan rest,
    (shape.update target (changes s value)).outcome supply = (.ok plan, rest)
  affected : ∀ value : Value, ∃ fields, affected s value shape.inputs = .ok fields

namespace Schema.Lawful

variable {s : Schema} {t : TypeDef} {role : Role} {shape : Shape} {input value : Value}

/-- The shapes of a lawful schema plan every value. -/
theorem plansEvery (h : s.Lawful) (ht : t ∈ s.types) (hshape : s.shape role t = .ok shape) :
    shape.PlansEvery s := by
  have hinputs := hasInputs_of_shape ht hshape
  refine ⟨fun value supply => ?_, fun value target supply => ?_, fun value => ?_⟩
  · obtain ⟨plan, rest, hplan, -⟩ :=
      (create_succeeds hinputs (h.changes_succeed value)).exists_ok supply
    exact ⟨plan, rest, hplan⟩
  · obtain ⟨plan, rest, hplan, -⟩ :=
      (update_succeeds hinputs target (h.changes_succeed value)).exists_ok supply
    exact ⟨plan, rest, hplan⟩
  · cases haffected : EntityGraph.affected s value shape.inputs with
    | ok fields => exact ⟨fields, rfl⟩
    | error e => exact (h.affected_succeeds value shape.inputs hinputs e haffected).elim

/-- What comes after a plan is the affected fields, and they are found. -/
theorem withAffected_succeeds (h : s.Lawful) (ht : t ∈ s.types)
    (hshape : s.shape role t = .ok shape) (value : Value) (plan : Plan) :
    (Planner.ofExcept (affected s value shape.inputs) >>= fun fields =>
      (pure ⟨plan, fields⟩ : Planner InputError Mutation)).Ensures (fun _ => True)
        fun _ => False := by
  have hfields := h.affected_succeeds value shape.inputs (hasInputs_of_shape ht hshape)
  exact (Planner.Ensures.ofExcept (fun _ _ => trivial) hfields).bind fun _ _ => .pure trivial

/-- A coerced update of a root entity says which entity it is for. -/
theorem exists_identity_of_prepare (h : s.Lawful) (ht : t ∈ s.types) (hroot : t.isRoot = true)
    (hp : s.prepare .update t input = .ok (shape, value)) :
    ∃ id, shape.requireIdentity value = .ok id := by
  obtain ⟨hshape, hvalue⟩ := prepare_eq_ok hp
  have hentity : t.kind.isEntity = true := by
    rw [TypeDef.isRoot, beq_iff_eq] at hroot
    rw [hroot]
    rfl
  obtain ⟨one, all, filter, hone, -, hshapes⟩ := h.exists_identifies ht hentity
  obtain rfl := Except.ok.inj (hone.symm.trans hshape)
  obtain ⟨text, -, hidentity, -⟩ := hshapes.exists_text hvalue
  exact ⟨.string text, by rw [Shape.requireIdentity, hidentity]⟩

theorem planCreate_failsAs (h : s.Lawful) (ht : t ∈ s.types) (input : Value) :
    (s.planCreate t input).FailsAs (s.prepare .create t input) := by
  refine .ofCheck ?_
  rintro ⟨shape, value⟩ hp
  have hshape := (prepare_eq_ok hp).1
  refine (create_succeeds (hasInputs_of_shape ht hshape) (h.changes_succeed value)).bind ?_
  exact fun plan _ => h.withAffected_succeeds ht hshape value plan

theorem planUpdateAll_failsAs (h : s.Lawful) (ht : t ∈ s.types) (input : Value) (targets : Plan) :
    (s.planUpdateAll t input targets).FailsAs (s.prepare .updateAll t input) := by
  refine .ofCheck ?_
  rintro ⟨shape, value⟩ hp
  have hshape := (prepare_eq_ok hp).1
  refine (Planner.Ensures.fresh _).bind fun item _ => ?_
  refine (update_succeeds (hasInputs_of_shape ht hshape) _ (h.changes_succeed value)).bind ?_
  exact fun plan _ => h.withAffected_succeeds ht hshape value _

theorem planUpdate_failsAs (h : s.Lawful) (ht : t ∈ s.types) (input : Value) :
    (s.planUpdate t input).FailsAs (do requireRoot t; s.prepare .update t input) := by
  refine .bindExcept fun _ hroot => .ofCheck ?_
  rintro ⟨shape, value⟩ hp
  have hshape := (prepare_eq_ok hp).1
  have hisRoot : t.isRoot = true := by
    rw [requireRoot] at hroot
    by_contra hne
    rw [if_neg hne] at hroot
    cases hroot
  -- The identity is there, so this check after coercion does not fail.
  obtain ⟨id, hid⟩ := h.exists_identity_of_prepare ht hisRoot hp
  refine (Planner.Ensures.ofExcept (fun _ _ => trivial) (.of_eq_ok hid)).bind
    fun id (_ : True) => ?_
  refine (entityById_succeeds t.id id).bind fun target _ => ?_
  refine (update_succeeds (hasInputs_of_shape ht hshape) _ (h.changes_succeed value)).bind ?_
  exact fun plan _ => h.withAffected_succeeds ht hshape value plan

end Schema.Lawful

/-- Deleting fails only for the type and the identity, in any schema. -/
theorem Schema.planDelete_failsAs (t : TypeDef) (id : Value) :
    (planDelete t id).FailsAs (do requireRoot t; coerceId identityName id) := by
  refine .bindExcept fun _ _ => .ofCheck fun id _ => ?_
  exact (Lawful.entityById_succeeds t.id id).bind fun _ _ => .pure trivial

/-! ### Accepted schemas -/

/-- **Failed mutations keep the supply.** In an accepted schema, a mutation fails exactly as the
checks in front of it do: that the type can be addressed, where it has to be, and that the input is
coerced. A failure leaves the supply as it was. After the checks nothing can fail, since the shapes
of the type plan every value, whatever was supplied and whatever defaults are in it. -/
theorem failed_mutations_keep_supply {decl : SchemaDecl} {a : AcceptedSchema}
    (h : decl.accept = .ok a) {t : TypeDef} (ht : t ∈ a.schema.types)
    (hobject : t.kind.isObject = true) :
    (∀ (input : Value) (supply rest : Supply) (e : InputError),
      ((a.schema.planCreate t input).outcome supply = (.error e, rest) ↔
        a.schema.prepare .create t input = .error e ∧ rest = supply) ∧
      ((a.schema.planUpdate t input).outcome supply = (.error e, rest) ↔
        (do requireRoot t; a.schema.prepare .update t input) = .error e ∧ rest = supply) ∧
      (∀ targets, (a.schema.planUpdateAll t input targets).outcome supply = (.error e, rest) ↔
        a.schema.prepare .updateAll t input = .error e ∧ rest = supply) ∧
      ((Schema.planDelete t input).outcome supply = (.error e, rest) ↔
        (do requireRoot t; coerceId identityName input) = .error e ∧ rest = supply)) ∧
    ∀ role, ∃ shape, a.schema.shape role t = .ok shape ∧ shape.PlansEvery a.schema := by
  have hs := SchemaDecl.lawful_of_accept h
  refine ⟨fun input supply rest e => ⟨?_, ?_, fun targets => ?_, ?_⟩, fun role => ?_⟩
  · exact hs.planCreate_failsAs ht input supply e rest
  · exact hs.planUpdate_failsAs ht input supply e rest
  · exact hs.planUpdateAll_failsAs ht input targets supply e rest
  · exact Schema.planDelete_failsAs t input supply e rest
  · obtain ⟨shape, hshape⟩ := hs.exists_shape ht hobject role
    exact ⟨shape, hshape, hs.plansEvery ht hshape⟩

/-- In the shop, an order is to be created with a total and an item that has no such input, and is
refused from supply 3. With a known item the supply moves on. -/
theorem shop_order_refused : ∃ order ∈ shop.schema.types, order.name = "Order" ∧
    order.kind.isObject = true ∧
    (∃ (input : Value) (e : InputError) (rest : Supply),
      (shop.schema.planCreate order input).outcome ⟨3⟩ = (.error e, rest) ∧
      shop.schema.prepare .create order input = .error e ∧ rest = ⟨3⟩) ∧
    (∃ (input : Value) (result : Mutation) (rest : Supply),
      (shop.schema.planCreate order input).outcome ⟨3⟩ = (.ok result, rest) ∧ rest ≠ ⟨3⟩) ∧
    ∀ role, ∃ shape, shop.schema.shape role order = .ok shape ∧ shape.PlansEvery shop.schema := by
  have ht : shop.schema.types.get ⟨8, by decide⟩ ∈ shop.schema.types := List.get_mem _ _
  let ordered (item : String × Value) : Value :=
    .object [("items", .list [.object [item]]), ("total", .int 5)]
  have hrefused : ∃ e rest, (shop.schema.planCreate (shop.schema.types.get ⟨8, by decide⟩)
      (ordered ("weight", .int 2))).outcome ⟨3⟩ = (.error e, rest) := ⟨_, _, rfl⟩
  have hplanned : ∃ result rest, (shop.schema.planCreate (shop.schema.types.get ⟨8, by decide⟩)
      (ordered ("sku", .string "a"))).outcome ⟨3⟩ = (.ok result, rest) ∧ rest ≠ ⟨3⟩ :=
    ⟨_, _, rfl, by decide⟩
  obtain ⟨e, rest, hrefused⟩ := hrefused
  obtain ⟨hfailures, hshapes⟩ := failed_mutations_keep_supply accept_shopDecl ht rfl
  exact ⟨_, ht, rfl, rfl, ⟨_, e, rest, hrefused, (hfailures _ _ _ _).1.1 hrefused⟩,
    ⟨_, hplanned⟩, hshapes⟩

end EntityGraph
