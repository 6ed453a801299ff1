import EntityGraph.Input.Mutation
import EntityGraph.Proofs.Offers

/-!
# Mutations of accepted schemas do not fault

A fault is an error that lies in the schema. Faults come up where a shape is made or a stored value
is read, and both happen at every level of an input object. In a lawful schema neither can fail: the
types of nested inputs have shapes whose inputs are inputs of the schema again, and reads succeed.

So the coercion of a value can only fail for what was supplied, and once a value is coerced its
changes and its affected fields cannot fail at all. The last two are shown for every value and not
only for coerced ones, because declared defaults get into the value without being coerced.

## Main definitions

* `InputError.Supplied` — the error lies in what was supplied
* `Schema.Total`, `Schema.TotalTouched` — recursions over a value that do not fail

## Main results

* `Schema.Lawful.coerceObject_supplied` — coercion never faults
* `Schema.Lawful.changes_succeed`, `Schema.Lawful.affected_succeeds` — planning does not fail
* `accepted_mutations_never_fault` — no mutation of an accepted schema faults
-/

namespace EntityGraph

/-- The error lies in what was supplied. -/
def InputError.Supplied (e : InputError) : Prop := e.isFault = false

/-- The writer does not fail for inputs of the schema. -/
def Schema.Total (s : Schema) (write : Writer) : Prop :=
  ∀ inputs current, s.HasInputs inputs →
    (write inputs current).Ensures (fun _ => True) fun _ => False

/-- The fields that inputs of the schema touch are found. -/
def Schema.TotalTouched (s : Schema) (touched : Touched) : Prop :=
  ∀ inputs, s.HasInputs inputs → FailsWith (touched inputs) fun _ => False

open InputError (Supplied)

/-! ### Values that need no schema -/

theorem expectFit_supplied (input expected : String) (v : Value) (fitted : Option Value) :
    FailsWith (expectFit input expected v fitted) Supplied := by
  cases fitted with
  | none => exact .error rfl
  | some w => exact .ok w

theorem coerceId_supplied (input : String) (v : Value) :
    FailsWith (coerceId input v) Supplied :=
  expectFit_supplied input "ID" v _

theorem coerceScalar_supplied (input : String) (t : TypeDef) (v : Value) :
    FailsWith (coerceScalar input t v) Supplied := by
  rw [coerceScalar]
  split
  · exact .ok _
  · exact expectFit_supplied input t.name v _

theorem coerceList_supplied (input : String) {item : Value → Except InputError Value}
    (hitem : ∀ v, FailsWith (item v) Supplied) (v : Value) :
    FailsWith (coerceList input item v) Supplied := by
  cases v with
  | null => exact .ok _
  | list items => exact FailsWith.map _ (.mapM fun w _ => hitem w)
  | bool | int | float | string | object => exact .error rfl

theorem coerceObjects_supplied (input : String) (v : Value) {items : Except InputError (List Value)}
    (hitems : FailsWith items Supplied) : FailsWith (coerceObjects input v items) Supplied := by
  cases v with
  | null => exact .ok _
  | list => exact hitems.map _
  | bool | int | float | string | object => exact .error rfl

theorem Shape.complete_supplied (shape : Shape) (entries : Entries) :
    FailsWith (shape.complete entries) Supplied := by
  rw [Shape.complete]
  cases shape.conflict? entries with
  | some conflict => exact .error rfl
  | none =>
    cases shape.filter? with
    | none => exact .ok _
    | some filter =>
      show FailsWith (ite _ _ _) Supplied
      split
      · exact .error rfl
      · exact .ok _

namespace Schema.Lawful

variable {s : Schema} {i : Input} {t : TypeDef} {role : Role} {α : Type}

/-! ### Nested shapes -/

/-- What is done with a nested shape fails only as it does with any shape of the schema. -/
theorem failsWith_nested (h : s.Lawful) (hi : s.HasInput i) {E : InputError → Prop}
    (hn : i.kind.nested? = some (role, t)) {k : Shape → Except InputError α}
    (hk : ∀ shape, s.HasInputs shape.inputs → FailsWith (k shape) E) :
    FailsWith (s.shape role t >>= k) E := by
  obtain ⟨shape, hshape, hinputs⟩ := h.exists_nested_shape hi hn
  rw [hshape]
  exact hk shape hinputs

theorem ensures_nested (h : s.Lawful) (hi : s.HasInput i) {E : InputError → Prop} {Q : α → Prop}
    (hn : i.kind.nested? = some (role, t)) {k : Shape → Planner InputError α}
    (hk : ∀ shape, s.HasInputs shape.inputs → (k shape).Ensures Q E) :
    (Planner.ofExcept (s.shape role t) >>= k).Ensures Q E := by
  obtain ⟨shape, hshape, hinputs⟩ := h.exists_nested_shape hi hn
  rw [hshape]
  exact hk shape hinputs

/-! ### Coercion -/

/-- An input refuses a value only for what was supplied, if that is so for nested objects. -/
theorem coerceWith_supplied (h : s.Lawful) (hi : s.HasInput i) (v : Value)
    {object : Shape → Except InputError Value} {objects : Shape → Except InputError (List Value)}
    (hobject : ∀ shape, s.HasInputs shape.inputs → FailsWith (object shape) Supplied)
    (hobjects : ∀ shape, s.HasInputs shape.inputs → FailsWith (objects shape) Supplied) :
    FailsWith (i.coerceWith s v object objects) Supplied := by
  have hnested : ∀ role t, i.kind.nested? = some (role, t) →
      FailsWith (s.shape role t >>= object) Supplied := fun role t hn =>
    h.failsWith_nested hi hn hobject
  have hlist : ∀ role t, i.kind.nested? = some (role, t) →
      FailsWith (s.shape role t >>= fun shape => coerceObjects i.name v (objects shape)) Supplied :=
    fun role t hn => h.failsWith_nested hi hn fun shape hinputs =>
      coerceObjects_supplied i.name v (hobjects shape hinputs)
  rw [Input.coerceWith]
  cases hk : i.kind with
  | filter => exact coerceId_supplied _ _
  | scalar type list =>
    cases list with
    | false => exact coerceScalar_supplied _ _ _
    | true => exact coerceList_supplied _ (coerceScalar_supplied _ _) _
  | combine type op =>
    simp only
    split
    · exact .error rfl
    · exact coerceScalar_supplied _ _ _
  | reference keyType => exact coerceScalar_supplied _ _ _
  | valueObject type list =>
    cases list with
    | false =>
      refine h.failsWith_nested hi (by rw [hk]; rfl) fun shape hinputs => ?_
      split
      · exact .ok _
      · exact hobject shape hinputs
    | true => exact hlist .create type (by rw [hk]; rfl)
  | createChildren type | addChildren type | createAndAddEdges side type =>
    exact hlist .create type (by rw [hk]; rfl)
  | createExtension type | createAndSetEdge side type =>
    simp only
    split
    · exact .ok _
    · exact hnested .create type (by rw [hk]; rfl)
  | updateExtension type =>
    simp only
    split
    · exact .ok _
    · exact hnested .update type (by rw [hk]; rfl)
  | updateChildren type =>
    refine h.failsWith_nested hi (by rw [hk]; rfl) fun shape hinputs => ?_
    refine (coerceObjects_supplied i.name v (hobjects shape hinputs)).bind fun updates _ => ?_
    split
    · exact .error rfl
    · exact .ok _
  | removeChildren type | addEdges side | removeEdges side =>
    exact coerceList_supplied _ (coerceId_supplied _) _
  | setEdge side =>
    simp only
    split
    · exact .ok _
    · exact coerceId_supplied _ _

theorem coerceEntries_supplied {shape : Shape}
    (hshape : s.HasInputs shape.inputs) {entries : Entries}
    (hentries : ∀ e ∈ entries, ∀ j, s.HasInput j → FailsWith (j.coerce s e.2) Supplied) :
    FailsWith (coerceEntries s shape entries) Supplied := by
  induction entries with
  | nil => exact .ok _
  | cons entry rest ih =>
    obtain ⟨name, v⟩ := entry
    rw [coerceEntries]
    cases hinput : shape.input? name with
    | none => exact .error rfl
    | some j =>
      have hj : s.HasInput j := hshape j (Shape.mem_of_input? hinput)
      refine (hentries (name, v) List.mem_cons_self j hj).bind fun w _ => ?_
      refine (ih fun e he => hentries e (List.mem_cons_of_mem _ he)).bind fun ws _ => ?_
      exact .ok _

/-- The coercion of an input object never faults, at any depth. -/
theorem coerceObject_supplied (h : s.Lawful) (v : Value) :
    ∀ shape : Shape, s.HasInputs shape.inputs →
      FailsWith (coerceObject s shape v) Supplied := by
  induction v using Value.induct_object with
  | plain v hplain =>
    intro shape _
    cases v with
    | object => cases hplain
    | null | bool | int | float | string | list => exact .error rfl
  | object entries ih =>
    intro shape hshape
    have hentries : ∀ e ∈ entries, ∀ j, s.HasInput j → FailsWith (j.coerce s e.2) Supplied := by
      intro e he j hj
      refine h.coerceWith_supplied hj e.2 (ih e he).1 fun nested hnested => ?_
      rw [coerceItems_eq]
      exact .mapM fun w hw => (ih e he).2 w hw nested hnested
    rw [coerceObject]
    refine (coerceEntries_supplied hshape hentries).bind fun coerced _ => ?_
    exact shape.complete_supplied coerced

/-! ### Changes -/

theorem stored_succeeds (h : s.Lawful) (hi : s.HasInput i) (current : Plan) :
    (i.stored s current).Ensures (fun _ => True) fun _ => False :=
  .mapError ((h.read_ensures hi.field_mem current).imp fun _ _ => trivial)

theorem create_succeeds {shape : Shape} (hshape : s.HasInputs shape.inputs) {write : Writer}
    (hwrite : s.Total write) : (shape.create write).Ensures (fun _ => True) fun _ => False := by
  refine (Planner.Ensures.fresh _).bind fun binding _ => ?_
  exact (hwrite _ _ hshape).bind fun steps _ => .pure trivial

theorem update_succeeds {shape : Shape} (hshape : s.HasInputs shape.inputs) (target : Plan)
    {write : Writer} (hwrite : s.Total write) :
    (shape.update target write).Ensures (fun _ => True) fun _ => False := by
  refine (Planner.Ensures.fresh _).bind fun binding _ => ?_
  exact (hwrite _ _ hshape).bind fun steps _ => .pure trivial

theorem createAll_succeeds (h : s.Lawful) (hi : s.HasInput i)
    (hn : i.kind.nested? = some (.create, t)) {items : List (Value × Writer)}
    (hitems : ∀ item ∈ items, s.Total item.2) :
    (Input.createAll s t items).Ensures (fun _ => True) fun _ => False := by
  refine h.ensures_nested hi hn fun shape hshape => ?_
  exact (Planner.Ensures.mapM (R := fun _ _ => True) fun item hitem =>
    create_succeeds hshape (hitems item hitem)).imp fun _ _ => trivial

/-- An input plans every value, if nested objects are planned. -/
theorem planWith_succeeds (h : s.Lawful) (hi : s.HasInput i) (v : Value) {object : Writer}
    {items : List (Value × Writer)} (hobject : s.Total object)
    (hitems : ∀ item ∈ items, s.Total item.2) (current : Plan) :
    (i.planWith s v object items current).Ensures (fun _ => True) fun _ => False := by
  rw [Input.planWith]
  cases hk : i.kind with
  | filter | scalar | reference | combine | addEdges | removeEdges | setEdge =>
    exact .pure trivial
  | valueObject type list =>
    cases list with
    | false =>
      simp only
      split
      · exact .pure trivial
      · refine h.ensures_nested hi (by rw [hk]; rfl) fun shape hshape => ?_
        exact (create_succeeds hshape hobject).bind fun _ _ => .pure trivial
    | true =>
      exact (h.createAll_succeeds hi (by rw [hk]; rfl) hitems).bind fun _ _ => .pure trivial
  | createExtension type | createAndSetEdge side type =>
    simp only
    split
    · exact .pure trivial
    · refine h.ensures_nested hi (by rw [hk]; rfl) fun shape hshape => ?_
      exact (create_succeeds hshape hobject).bind fun _ _ => .pure trivial
  | createChildren type =>
    exact (h.createAll_succeeds hi (by rw [hk]; rfl) hitems).bind fun _ _ => .pure trivial
  | updateExtension type =>
    simp only
    split
    · exact .pure trivial
    · refine (h.stored_succeeds hi current).bind fun stored _ => ?_
      refine h.ensures_nested hi (by rw [hk]; rfl) fun shape hshape => ?_
      exact (update_succeeds hshape stored hobject).bind fun _ _ => .pure trivial
  | addChildren type =>
    simp only
    split
    · exact .pure trivial
    · refine (h.stored_succeeds hi current).bind fun stored _ => ?_
      exact (h.createAll_succeeds hi (by rw [hk]; rfl) hitems).bind fun _ _ => .pure trivial
  | updateChildren type =>
    simp only
    split
    · exact .pure trivial
    · refine (h.stored_succeeds hi current).bind fun stored _ => ?_
      refine h.ensures_nested hi (by rw [hk]; rfl) fun shape hshape => ?_
      refine (Planner.Ensures.fresh _).bind fun child _ => ?_
      refine (Planner.Ensures.mapM (R := fun _ _ => True) fun item hitem => ?_).bind
        fun _ _ => .pure trivial
      exact (update_succeeds hshape _ (hitems item hitem)).bind fun _ _ => .pure trivial
  | removeChildren type =>
    simp only
    split
    · exact .pure trivial
    · refine (h.stored_succeeds hi current).bind fun stored _ => ?_
      exact (Planner.Ensures.fresh _).bind fun child _ => .pure trivial
  | createAndAddEdges side type =>
    simp only
    split
    · exact .pure trivial
    · exact (h.createAll_succeeds hi (by rw [hk]; rfl) hitems).bind fun _ _ => .pure trivial

/-- Every value has its changes, whatever inputs of the schema it is given to. -/
theorem changes_succeed (h : s.Lawful) (v : Value) : s.Total (changes s v) := by
  induction v using Value.induct_object with
  | plain v hplain =>
    intro inputs current _
    cases v with
    | object => cases hplain
    | null | bool | int | float | string | list => exact .pure trivial
  | object entries ih =>
    intro inputs current hinputs
    rw [changes_object]
    refine (Planner.Ensures.mapM (R := fun _ _ => True) fun j hj => ?_).bind
      fun _ _ => .pure trivial
    split
    · next w hw =>
      have hih := ih _ (Entries.mem_of_get? hw)
      refine h.planWith_succeeds (hinputs j hj) w hih.1 ?_ current
      rw [itemWriters_eq, List.forall_mem_map]
      exact hih.2
    · exact .pure trivial

/-! ### Affected fields -/

theorem nestedTouched_succeeds (h : s.Lawful) (hi : s.HasInput i)
    (hn : i.kind.nested? = some (role, t)) {objects : List Touched}
    (hobjects : ∀ touched ∈ objects, s.TotalTouched touched) :
    FailsWith (Input.nestedTouched s role t objects) fun _ => False := by
  refine h.failsWith_nested hi hn fun shape hshape => ?_
  refine (FailsWith.mapM fun touched htouched => ?_).bind fun _ _ => .ok _
  exact hobjects touched htouched shape.inputs hshape

/-- An input touches fields with every value, if nested objects do. -/
theorem affectedWith_succeeds (h : s.Lawful) (hi : s.HasInput i) (v : Value) {object : Touched}
    {items : List Touched} (hobject : s.TotalTouched object)
    (hitems : ∀ touched ∈ items, s.TotalTouched touched) :
    FailsWith (i.affectedWith s v object items) fun _ => False := by
  have hsingle : ∀ role t, i.kind.nested? = some (role, t) → FailsWith
      (Input.nestedTouched s role t (if v.isNull then [] else [object])) fun _ => False := by
    intro role t hn
    refine h.nestedTouched_succeeds hi hn ?_
    split
    · simp
    · simpa using hobject
  have hlist : ∀ role t, i.kind.nested? = some (role, t) →
      FailsWith (Input.nestedTouched s role t items) fun _ => False :=
    fun role t hn => h.nestedTouched_succeeds hi hn hitems
  rw [Input.affectedWith]
  cases hk : i.kind with
  | filter | scalar | combine | removeChildren | reference | addEdges | removeEdges | setEdge =>
    exact .ok _
  | valueObject type list =>
    cases list with
    | false => exact (hsingle .create type (by rw [hk]; rfl)).bind fun _ _ => .ok _
    | true => exact (hlist .create type (by rw [hk]; rfl)).bind fun _ _ => .ok _
  | createExtension type => exact (hsingle .create type (by rw [hk]; rfl)).bind fun _ _ => .ok _
  | createChildren type | addChildren type | createAndAddEdges side type =>
    exact (hlist .create type (by rw [hk]; rfl)).bind fun _ _ => .ok _
  | updateExtension type => exact (hsingle .update type (by rw [hk]; rfl)).bind fun _ _ => .ok _
  | updateChildren type => exact (hlist .update type (by rw [hk]; rfl)).bind fun _ _ => .ok _
  | createAndSetEdge side type =>
    have hnested := hsingle .create type (by rw [hk]; rfl)
    by_cases hnull : v.isNull = true
    · simp only [hnull, if_true]
      exact .ok _
    · simp only [hnull, Bool.false_eq_true, if_false] at hnested ⊢
      exact hnested.bind fun _ _ => .ok _

/-- Every value touches fields, whatever inputs of the schema it is given to. -/
theorem affected_succeeds (h : s.Lawful) (v : Value) : s.TotalTouched (affected s v) := by
  induction v using Value.induct_object with
  | plain v hplain =>
    intro inputs _
    cases v with
    | object => cases hplain
    | null | bool | int | float | string | list => exact .ok _
  | object entries ih =>
    intro inputs hinputs
    rw [affected_object]
    refine (FailsWith.mapM fun j hj => ?_).bind fun _ _ => .ok _
    split
    · next w hw =>
      have hih := ih _ (Entries.mem_of_get? hw)
      refine h.affectedWith_succeeds (hinputs j hj) w hih.1 ?_
      rw [itemsAffected_eq, List.forall_mem_map]
      exact hih.2
    · exact .ok _

/-! ### Mutations -/

theorem prepare_supplied (h : s.Lawful) (ht : t ∈ s.types) (hobject : t.kind.isObject = true)
    (role : Role) (input : Value) : FailsWith (s.prepare role t input) Supplied := by
  obtain ⟨shape, hshape⟩ := h.exists_shape ht hobject role
  refine FailsWith.bind (.of_eq_ok hshape) fun shape' hshape' => ?_
  refine FailsWith.bind ?_ fun _ _ => .ok _
  exact h.coerceObject_supplied input shape' (hasInputs_of_shape ht hshape')

/-- A mutation that is planned after preparation fails only if the preparation does. -/
theorem ensures_prepared (h : s.Lawful) (ht : t ∈ s.types) {input : Value} {E : InputError → Prop}
    (herror : ∀ e, s.prepare role t input = .error e → E e)
    {k : Shape × Value → Planner InputError Mutation}
    (hk : ∀ shape value, s.prepare role t input = .ok (shape, value) →
      s.HasInputs shape.inputs → s.Total (changes s value) →
      FailsWith (affected s value shape.inputs) E → (k (shape, value)).Ensures (fun _ => True) E) :
    (Planner.ofExcept (s.prepare role t input) >>= k).Ensures (fun _ => True) E := by
  refine (Planner.Ensures.ofExcept (Q := fun p => s.prepare role t input = .ok p)
    (fun _ hp => hp) herror).bind ?_
  rintro ⟨shape, value⟩ hp
  have hinputs : s.HasInputs shape.inputs := hasInputs_of_shape ht (prepare_eq_ok hp).1
  refine hk shape value hp hinputs (h.changes_succeed value) fun e he => ?_
  exact (h.affected_succeeds value shape.inputs hinputs e he).elim

theorem planCreate_ensures (h : s.Lawful) (ht : t ∈ s.types) (input : Value) :
    (s.planCreate t input).Ensures (fun _ => True)
      fun e => s.prepare .create t input = .error e := by
  refine h.ensures_prepared ht (fun _ he => he) fun shape value _ hinputs hchanges haffected => ?_
  refine (create_succeeds hinputs hchanges).of_succeeds.bind fun plan _ => ?_
  exact (Planner.Ensures.ofExcept (fun _ _ => trivial) haffected).bind fun _ _ => .pure trivial

theorem planUpdateAll_ensures (h : s.Lawful) (ht : t ∈ s.types) (input : Value) (targets : Plan) :
    (s.planUpdateAll t input targets).Ensures (fun _ => True)
      fun e => s.prepare .updateAll t input = .error e := by
  refine h.ensures_prepared ht (fun _ he => he) fun shape value _ hinputs hchanges haffected => ?_
  refine (Planner.Ensures.fresh _).bind fun item _ => ?_
  refine (update_succeeds hinputs _ hchanges).of_succeeds.bind fun plan _ => ?_
  exact (Planner.Ensures.ofExcept (fun _ _ => trivial) haffected).bind fun _ _ => .pure trivial

theorem requireRoot_supplied (t : TypeDef) : FailsWith (requireRoot t) Supplied := by
  rw [requireRoot]
  split
  · exact .ok _
  · exact .error rfl

theorem requireIdentity_supplied (shape : Shape) (v : Value) :
    FailsWith (shape.requireIdentity v) Supplied := by
  rw [Shape.requireIdentity]
  split
  · exact .ok _
  · exact .error rfl

theorem entityById_succeeds (type : TypeId) (id : Value) {E : InputError → Prop} :
    (entityById type id).Ensures (fun _ => True) E :=
  (Planner.Ensures.fresh _).bind fun _ _ => .pure trivial

theorem planUpdate_supplied (h : s.Lawful) (ht : t ∈ s.types) (hobject : t.kind.isObject = true)
    (input : Value) : (s.planUpdate t input).Ensures (fun _ => True) Supplied := by
  refine (Planner.Ensures.ofExcept (fun _ _ => trivial) (requireRoot_supplied t)).bind
    fun _ (_ : True) => ?_
  refine h.ensures_prepared ht (h.prepare_supplied ht hobject .update input)
    fun shape value _ hinputs hchanges haffected => ?_
  refine (Planner.Ensures.ofExcept (fun _ _ => trivial)
    (requireIdentity_supplied shape value)).bind fun id (_ : True) => ?_
  refine (entityById_succeeds t.id id).bind fun target _ => ?_
  refine (update_succeeds hinputs target hchanges).of_succeeds.bind fun plan _ => ?_
  exact (Planner.Ensures.ofExcept (fun _ _ => trivial) haffected).bind fun _ _ => .pure trivial

theorem planDelete_supplied (t : TypeDef) (id : Value) :
    (planDelete t id).Ensures (fun _ => True) Supplied := by
  refine (Planner.Ensures.ofExcept (fun _ _ => trivial) (requireRoot_supplied t)).bind
    fun _ (_ : True) => ?_
  refine (Planner.Ensures.ofExcept (fun _ _ => trivial) (coerceId_supplied _ id)).bind
    fun id (_ : True) => ?_
  refine (entityById_succeeds t.id id).bind fun target _ => ?_
  exact .pure trivial

end Schema.Lawful

/-- **Mutations never fault.** In an accepted schema every object type has its three shapes, and no
mutation of it fails with an error that lies in the schema, whatever the input, the supply and the
targets. Creating one object and updating many fail only where the coercion of the input does. -/
theorem accepted_mutations_never_fault {decl : SchemaDecl} {a : AcceptedSchema}
    (h : decl.accept = .ok a) {t : TypeDef} (ht : t ∈ a.schema.types)
    (hobject : t.kind.isObject = true) :
    (∀ role, ∃ shape, a.schema.shape role t = .ok shape) ∧
    ∀ (input : Value) (supply rest : Supply) (e : InputError),
      ((a.schema.planCreate t input).outcome supply = (.error e, rest) →
        e.isFault = false ∧ a.schema.prepare .create t input = .error e) ∧
      ((a.schema.planUpdate t input).outcome supply = (.error e, rest) → e.isFault = false) ∧
      (∀ targets, (a.schema.planUpdateAll t input targets).outcome supply = (.error e, rest) →
        e.isFault = false ∧ a.schema.prepare .updateAll t input = .error e) ∧
      ((Schema.planDelete t input).outcome supply = (.error e, rest) → e.isFault = false) := by
  have hs := SchemaDecl.lawful_of_accept h
  refine ⟨hs.exists_shape ht hobject, fun input supply rest e => ⟨?_, ?_, ?_, ?_⟩⟩
  · intro hcreate
    have herror := (hs.planCreate_ensures ht input).failure hcreate
    exact ⟨hs.prepare_supplied ht hobject .create input e herror, herror⟩
  · intro hupdate
    exact (hs.planUpdate_supplied ht hobject input).failure hupdate
  · intro targets hupdate
    have herror := (hs.planUpdateAll_ensures ht input targets).failure hupdate
    exact ⟨hs.prepare_supplied ht hobject .updateAll input e herror, herror⟩
  · intro hdelete
    exact (Schema.Lawful.planDelete_supplied t input).failure hdelete

/-- In the shop, an order with an item that has no such input is refused for what was supplied. -/
theorem shop_order_never_faults : ∃ order ∈ shop.schema.types, order.name = "Order" ∧
    order.kind.isObject = true ∧ (∀ role, ∃ shape, shop.schema.shape role order = .ok shape) ∧
    ∃ (input : Value) (e : InputError) (rest : Supply),
      e = .unknownInput "CreateItemInput" "weight" ∧
      (shop.schema.planCreate order input).outcome ⟨0⟩ = (.error e, rest) ∧ e.isFault = false := by
  have ht : shop.schema.types.get ⟨8, by decide⟩ ∈ shop.schema.types := List.get_mem _ _
  let input : Value := .object [("items", .list [.object [("weight", .int 2)]])]
  have hcreate : (shop.schema.planCreate (shop.schema.types.get ⟨8, by decide⟩) input).outcome ⟨0⟩ =
      (.error (.unknownInput "CreateItemInput" "weight"), ⟨0⟩) := rfl
  obtain ⟨hshapes, hfaults⟩ := accepted_mutations_never_fault accept_shopDecl ht rfl
  exact ⟨_, ht, rfl, rfl, hshapes, input, _, _, rfl, hcreate, ((hfaults _ _ _ _).1 hcreate).1⟩

end EntityGraph
