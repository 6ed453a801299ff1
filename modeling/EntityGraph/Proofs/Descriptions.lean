import EntityGraph.Proofs.ChildUpdates

/-!
# Descriptions of inputs

What is told to users about an input is read off its kind. Here it is compared with what the input
does with values: which values it takes for lists, which it refuses for not being input objects, and
whether it writes. The descriptions, the coercion and the steps have a table of kinds each, and the
tables agree.

For that, coercion is brought into a few forms. An input that takes a list coerces it with
`coerceList` or `coerceObjects`, after which only updates of children look at the items again. An
input that takes one input object coerces it as an object of its nested shape. The refusals follow
from the forms and not from the kinds.

## Main definitions

* `Input.DescribedBy` — a description is true of an input

## Main results

* `Input.coerce_object`, `Input.coerce_objects`, `Input.exists_coerceList` — the forms of coercion
* `Input.plan_ne_nil` — an input with something to write writes
* `descriptions_hold` — descriptions are true in accepted schemas
-/

namespace EntityGraph

/-! ### Forms of coercion -/

variable {s : Schema} {i : Input} {v w : Value} {role : Role} {type : TypeDef} {nested : Shape}

theorem coerceObject_of_not_isObject (h : v.isObject = false) :
    coerceObject s nested v = .error (.notAnObject nested.name v.typeName) := by
  cases v with
  | object => cases h
  | null | bool | int | float | string | list => rfl

theorem isObject_of_coerceObject (h : coerceObject s nested v = .ok w) : w.isObject = true := by
  cases v with
  | object entries =>
    rw [coerceObject] at h
    obtain ⟨coerced, -, hcomplete⟩ := bind_eq_ok.1 h
    obtain ⟨-, -, rfl⟩ := Shape.complete_eq_ok_iff.1 hcomplete
    rfl
  | null | bool | int | float | string | list => cases h

namespace Input

/-- An input that takes one input object coerces it as an object of the nested shape. -/
theorem coerce_object (hn : i.kind.nested? = some (role, type)) (hlist : i.kind.isList = false)
    (hmade : s.shape role type = .ok nested) (v : Value) :
    i.coerce s v = if v.isNull then .ok .null else coerceObject s nested v := by
  obtain ⟨name, f, kind⟩ := i
  rw [coerce, coerceWith]
  cases kind with
  | valueObject type list =>
    cases hlist
    cases hn
    simp only [hmade]
    rfl
  | createExtension | updateExtension | createAndSetEdge =>
    cases hn
    simp only [hmade]
    rfl
  | createChildren | addChildren | updateChildren | createAndAddEdges => cases hlist
  | filter | scalar | combine | removeChildren | reference | addEdges | removeEdges | setEdge =>
    cases hn

/-- An input that takes a list of input objects coerces each as an object of the nested shape. Once
all are coerced, a list that is not empty may still be refused. -/
theorem coerce_objects (hn : i.kind.nested? = some (role, type)) (hlist : i.kind.isList = true)
    (hmade : s.shape role type = .ok nested) (v : Value) :
    i.coerce s v = coerceObjects i.name v (coerceItems s nested v) ∨
      ∃ us e, coerceObjects i.name v (coerceItems s nested v) = .ok (.list us) ∧ us ≠ [] ∧
        i.coerce s v = .error e := by
  obtain ⟨name, f, kind⟩ := i
  rw [coerce, coerceWith]
  cases kind with
  | valueObject type list =>
    cases hlist
    cases hn
    simp only [hmade]
    exact .inl rfl
  | createChildren | addChildren | createAndAddEdges =>
    cases hn
    simp only [hmade]
    exact .inl rfl
  | updateChildren =>
    cases hn
    simp only [hmade]
    cases hobjects : coerceObjects name v (coerceItems s nested v) with
    | error e => exact .inl (bind_eq_error.2 (.inr ⟨nested, rfl, bind_eq_error.2 (.inl hobjects)⟩))
    | ok u =>
      have hu := isList_of_coerceObjects hobjects
      cases u with
      | list us =>
        cases hrepeated : firstRepeated? [] (us.filterMap nested.identity?) with
        | none =>
          refine .inl (bind_eq_ok.2 ⟨nested, rfl, bind_eq_ok.2 ⟨.list us, hobjects, ?_⟩⟩)
          simp only [Value.items_list, hrepeated]
          rfl
        | some id =>
          refine .inr ⟨us, .duplicateIdentity name (id.string?.getD ""), rfl, ?_, ?_⟩
          · rintro rfl
            cases hrepeated
          · refine bind_eq_error.2 (.inr ⟨nested, rfl, bind_eq_error.2 (.inr ?_)⟩)
            refine ⟨.list us, hobjects, ?_⟩
            simp only [Value.items_list, hrepeated]
      | null | bool | int | float | string | object => cases hu
  | createExtension | updateExtension | createAndSetEdge => cases hlist
  | filter | scalar | combine | removeChildren | reference | addEdges | removeEdges | setEdge =>
    cases hn

theorem coerce_objects_error {e : InputError} (hn : i.kind.nested? = some (role, type))
    (hlist : i.kind.isList = true) (hmade : s.shape role type = .ok nested)
    (h : coerceObjects i.name v (coerceItems s nested v) = .error e) :
    i.coerce s v = .error e := by
  rcases coerce_objects hn hlist hmade v with heq | ⟨us, e', hok, -⟩
  · exact heq.trans h
  · cases h.symm.trans hok

/-- Lists of anything else are coerced item by item. -/
theorem exists_coerceList (hn : i.kind.nested? = none) (hlist : i.kind.isList = true) :
    ∃ item, ∀ v, i.coerce s v = coerceList i.name item v := by
  obtain ⟨name, f, kind⟩ := i
  cases kind with
  | scalar type list =>
    cases hlist
    exact ⟨_, fun _ => rfl⟩
  | removeChildren | addEdges | removeEdges => exact ⟨_, fun _ => rfl⟩
  | filter | combine | reference | setEdge | createExtension | updateExtension
  | createAndSetEdge => cases hlist
  | valueObject | createChildren | addChildren | updateChildren | createAndAddEdges => cases hn

/-! ### Lists -/

/-- What is neither null nor a list is refused by inputs that take lists. -/
theorem coerce_notAList (hs : s.Lawful) (hi : s.HasInput i) (hlist : i.kind.isList = true)
    (hnull : v.isNull = false) (hv : v.isList = false) :
    i.coerce s v = .error (.notAList i.name v.typeName) := by
  cases hn : i.kind.nested? with
  | none =>
    obtain ⟨item, hcoerce⟩ := exists_coerceList (s := s) hn hlist
    rw [hcoerce]
    cases v with
    | null => cases hnull
    | list => cases hv
    | bool | int | float | string | object => rfl
  | some nested =>
    obtain ⟨role, type⟩ := nested
    obtain ⟨nested, hmade, -⟩ := hs.exists_nested_shape hi hn
    refine coerce_objects_error hn hlist hmade ?_
    cases v with
    | null => cases hnull
    | list => cases hv
    | bool | int | float | string | object => rfl

/-- Inputs that take lists make nothing else of what they take. -/
theorem isList_of_coerce (hs : s.Lawful) (hi : s.HasInput i) (hlist : i.kind.isList = true)
    (h : i.coerce s v = .ok w) : w.isList = true := by
  cases hn : i.kind.nested? with
  | none =>
    obtain ⟨item, hcoerce⟩ := exists_coerceList (s := s) hn hlist
    rw [hcoerce] at h
    exact (Bool.and_eq_true_iff.1 (forall_of_coerceList h fun _ _ _ => rfl)).1
  | some nested =>
    obtain ⟨role, type⟩ := nested
    obtain ⟨nested, hmade, -⟩ := hs.exists_nested_shape hi hn
    rcases coerce_objects hn hlist hmade v with heq | ⟨us, e, -, -, herror⟩
    · exact isList_of_coerceObjects (heq.symm.trans h)
    · cases herror.symm.trans h

/-- Null is the empty list for exactly the inputs that take lists. -/
theorem coerce_null_iff (hs : s.Lawful) (hi : s.HasInput i) :
    i.coerce s .null = .ok (.list []) ↔ i.kind.isList = true := by
  cases hn : i.kind.nested? with
  | none =>
    constructor
    · intro h
      obtain ⟨name, f, kind⟩ := i
      cases kind with
      | scalar type list =>
        cases list with
        | false => cases h
        | true => rfl
      | removeChildren | addEdges | removeEdges => rfl
      | filter | combine | reference | setEdge => cases h
      | valueObject | createExtension | updateExtension | createChildren | addChildren
      | updateChildren | createAndAddEdges | createAndSetEdge => cases hn
    · intro hlist
      obtain ⟨item, hcoerce⟩ := exists_coerceList (s := s) hn hlist
      exact hcoerce .null
  | some nested =>
    obtain ⟨role, type⟩ := nested
    obtain ⟨nested, hmade, -⟩ := hs.exists_nested_shape hi hn
    constructor
    · intro h
      by_contra hlist
      rw [coerce_object hn (Bool.eq_false_iff.2 hlist) hmade] at h
      cases h
    · intro hlist
      rcases coerce_objects hn hlist hmade .null with heq | ⟨us, e, hok, hne, -⟩
      · exact heq
      · cases hok
        exact absurd rfl hne

/-! ### Input objects -/

/-- An input for lists of input objects refuses a list that starts with anything else. -/
theorem coerce_list_notAnObject (hn : i.kind.nested? = some (role, type))
    (hlist : i.kind.isList = true) (hmade : s.shape role type = .ok nested)
    (hv : v.isObject = false) (rest : List Value) :
    i.coerce s (.list (v :: rest)) = .error (.notAnObject nested.name v.typeName) := by
  refine coerce_objects_error hn hlist hmade ?_
  rw [coerceObjects, coerceItems, coerceAll, coerceObject_of_not_isObject hv]
  rfl

/-- An input for one input object refuses anything else but null. -/
theorem coerce_notAnObject (hn : i.kind.nested? = some (role, type))
    (hlist : i.kind.isList = false) (hmade : s.shape role type = .ok nested)
    (hnull : v.isNull = false) (hv : v.isObject = false) :
    i.coerce s v = .error (.notAnObject nested.name v.typeName) := by
  rw [coerce_object hn hlist hmade, if_neg (by simp [hnull]), coerceObject_of_not_isObject hv]

/-! ### Steps -/

/-- A value that counts as given and is not an empty list leaves the input something to write. -/
theorem not_isIdle_of_coerce (hs : s.Lawful) (hi : s.HasInput i) (h : i.coerce s v = .ok w)
    (hne : w ≠ .list []) : i.isIdle w = false := by
  rw [isIdle, Bool.and_eq_false_iff, or_iff_not_imp_left]
  intro hincremental
  have hlist : i.kind.isList = true := by
    cases hkind : i.kind <;> simp_all [InputKind.isIncremental, InputKind.isList]
  have hw := isList_of_coerce hs hi hlist h
  cases w with
  | list ws =>
    cases ws with
    | nil => exact absurd rfl hne
    | cons => rfl
  | null | bool | int | float | string | object => cases hw

/-- What is given as null and nothing else counts as absent. -/
theorem not_isNoChange_of_coerce (hs : s.Lawful) (hi : s.HasInput i) (h : i.coerce s v = .ok w)
    (hnull : v.isNull = false) : i.isNoChange w = false := by
  rw [isNoChange]
  cases hkind : i.kind with
  | createAndSetEdge side type =>
    have hn : i.kind.nested? = some (.create, type) := by rw [hkind]; rfl
    obtain ⟨nested, hmade, -⟩ := hs.exists_nested_shape hi hn
    rw [coerce_object hn (by rw [hkind]; rfl) hmade, if_neg (by simp [hnull])] at h
    have hobject := isObject_of_coerceObject h
    cases w with
    | object => rfl
    | null | bool | int | float | string | list => cases hobject
  | _ => rfl

end Input

/-- An input makes a step unless it identifies an object, counts as absent or is idle. -/
theorem Input.plan_ne_nil {role : Role} {f : FieldDef} {current : Plan} {n : Nat}
    (hi : s.Offers role f i) (hfilter : i.isFilter = false) (hgiven : i.isNoChange w = false)
    (hbusy : i.isIdle w = false) :
    (i.plan s w current).Yields n fun steps _ => steps ≠ [] := by
  have hform : i.form w ≠ .nothing := by
    intro hnothing
    simpa [hfilter, hgiven, hbusy] using form_eq_nothing_iff.1 hnothing
  refine (plan_makes hi (i.objectsYield_ran s w)).imp fun steps m hmakes => ?_
  generalize i.form w = form at hmakes hform
  cases hmakes with
  | nothing => exact absurd rfl hform
  | _ => exact List.cons_ne_nil _ _

/-- An input that identifies an object makes no steps and touches no fields. -/
theorem Input.plan_of_isFilter (h : i.isFilter = true) (v : Value) (current : Plan)
    (supply : Supply) :
    (i.plan s v current).outcome supply = (.ok [], supply) ∧ i.affected s v = .ok [] := by
  have hkind : i.kind = .filter := by
    cases hkind : i.kind with
    | filter => rfl
    | _ => simp [isFilter, hkind] at h
  constructor
  · rw [plan_filter hkind]
    rfl
  · rw [affected, affectedWith, hkind]
    rfl

/-! ### Descriptions -/

/-- What is told about an input is true of the values that it coerces and of the steps that it makes
in a schema. -/
structure Input.DescribedBy (s : Schema) (i : Input) (d : InputDescription) : Prop where
  name : d.name = i.name
  list_iff_accepts : d.listCoercing = true ↔ ∃ item, d.accepts = .list item
  list_iff_null : d.listCoercing = true ↔ i.coerce s .null = .ok (.list [])
  notAList : d.listCoercing = true → ∀ v : Value, v.isNull = false → v.isList = false →
    i.coerce s v = .error (.notAList i.name v.typeName)
  recursive_iff : d.recursive = true ↔ ∃ role id, d.accepts.item.nested? = some (role, id)
  /-- Input objects are those of the shape of the type that is told. -/
  notAnObject : ∀ role id, d.accepts.item.nested? = some (role, id) →
    ∃ type nested, s.typeAt? id = some type ∧ s.shape role type = .ok nested ∧
      ∀ v : Value, v.isObject = false →
        (d.listCoercing = false → v.isNull = false →
          i.coerce s v = .error (.notAnObject nested.name v.typeName)) ∧
        (d.listCoercing = true → ∀ rest,
          i.coerce s (.list (v :: rest)) = .error (.notAnObject nested.name v.typeName))
  filter : d.filterOnly = true → ∀ v current supply,
    (i.plan s v current).outcome supply = (.ok [], supply) ∧ i.affected s v = .ok []
  writes : d.filterOnly = false → ∀ v w : Value, v.isNull = false → i.coerce s v = .ok w →
    w ≠ .list [] → ∀ current supply, ∃ steps rest,
      (i.plan s w current).outcome supply = (.ok steps, rest) ∧ steps ≠ []

/-- **Descriptions are true.** Of every input in a shape of an accepted schema, users are told
whether it takes lists, whether it takes input objects and of which shape, and whether it writes. -/
theorem descriptions_hold {decl : SchemaDecl} {a : AcceptedSchema} (h : decl.accept = .ok a)
    {t : TypeDef} (ht : t ∈ a.schema.types) {role : Role} {shape : Shape}
    (hshape : a.schema.shape role t = .ok shape) (hi : i ∈ shape.inputs) :
    i.DescribedBy a.schema i.describe := by
  have hs := SchemaDecl.lawful_of_accept h
  have hinput : a.schema.HasInput i := Schema.hasInputs_of_shape ht hshape i hi
  constructor
  case name => rfl
  case list_iff_accepts => exact i.kind.isList_iff_accepted
  case list_iff_null => exact (Input.coerce_null_iff hs hinput).symm
  case notAList => exact fun hlist v => Input.coerce_notAList hs hinput hlist
  case recursive_iff =>
    rw [Input.describe, hinput.nested?_accepted hs.built]
    cases i.kind.nested? <;> simp
  case notAnObject =>
    intro role id hid
    obtain ⟨⟨nestedRole, type⟩, hn, heq⟩ :=
      Option.map_eq_some_iff.1 ((hinput.nested?_accepted hs.built).symm.trans hid)
    cases heq
    obtain ⟨nested, hmade, -⟩ := hs.exists_nested_shape hinput hn
    have hfound := hs.built.numbered.typeAt?_id (hinput.nested_mem hn)
    refine ⟨type, nested, hfound, hmade, fun v hv => ⟨fun hlist hnull => ?_, fun hlist rest => ?_⟩⟩
    · exact Input.coerce_notAnObject hn hlist hmade hnull hv
    · exact Input.coerce_list_notAnObject hn hlist hmade hv rest
  case filter => exact Input.plan_of_isFilter
  case writes =>
    intro hfilter v w hnull hw hne current supply
    have hgiven := Input.not_isNoChange_of_coerce hs hinput hw hnull
    have hbusy := Input.not_isIdle_of_coerce hs hinput hw hne
    obtain ⟨steps, rest, hplan, -⟩ := (hs.plan_succeeds hinput w current).exists_ok supply
    obtain ⟨_, _, _, _, _, hoffers⟩ := hinput
    exact ⟨steps, rest, hplan, Input.plan_ne_nil hoffers hfilter hgiven hbusy steps rest hplan⟩

/-- In the shop, an update of an order is told to take the identity of the order, a number, updates
of its items and an update of its shipping. -/
theorem shop_order_described : ∃ order ∈ shop.schema.types, order.name = "Order" ∧
    ∃ shape, shop.schema.shape .update order = .ok shape ∧
      ∀ d ∈ ([⟨"id", .id, true, false, false⟩, ⟨"total", .scalar "Int", false, false, false⟩,
          ⟨"updateItems", .list (.updateInput ⟨9⟩), false, true, true⟩,
          ⟨"shipping", .updateInput ⟨10⟩, false, false, true⟩] : List InputDescription),
        ∃ i ∈ shape.inputs, i.describe = d ∧ i.DescribedBy shop.schema d := by
  have ht : shop.schema.types.get ⟨8, by decide⟩ ∈ shop.schema.types := List.get_mem _ _
  have hshape : ∃ shape, shop.schema.shape .update (shop.schema.types.get ⟨8, by decide⟩) =
      .ok shape ∧ shape.inputs.map (·.describe) =
        [⟨"id", .id, true, false, false⟩, ⟨"total", .scalar "Int", false, false, false⟩,
          ⟨"increaseByTotal", .scalar "Int", false, false, false⟩,
          ⟨"customer", .id, false, false, false⟩,
          ⟨"createCustomer", .createInput ⟨7⟩, false, false, true⟩,
          ⟨"payer", .scalar "String", false, false, false⟩,
          ⟨"addItems", .list (.createInput ⟨9⟩), false, true, true⟩,
          ⟨"updateItems", .list (.updateInput ⟨9⟩), false, true, true⟩,
          ⟨"removeItems", .list .id, false, true, false⟩,
          ⟨"shipping", .updateInput ⟨10⟩, false, false, true⟩] := ⟨_, rfl, rfl⟩
  obtain ⟨shape, hshape, hinputs⟩ := hshape
  refine ⟨_, ht, rfl, shape, hshape, fun d hd => ?_⟩
  have hmem : d ∈ shape.inputs.map (·.describe) := by
    rw [hinputs]
    revert d
    decide
  obtain ⟨i, hi, rfl⟩ := List.mem_map.1 hmem
  exact ⟨i, hi, rfl, descriptions_hold accept_shopDecl ht hshape hi⟩

end EntityGraph
