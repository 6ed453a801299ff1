import EntityGraph.Proofs.Offers

/-!
# The fields of one input

The plan of a mutation and its affected fields are made by two separate recursions over the coerced
value. Both do the same thing with an input: it has fields of its own, and the input objects in its
value have theirs. Here are the terms in which this is said of one input, and what it comes to for
the affected fields.

An incremental input without items makes no step, but its field counts as affected. Such an input is
called idle.

## Main definitions

* `Input.ownFields`, `Input.objects` — what an input writes itself, and the input objects in it
* `Input.isIdle` — whether there is nothing for an input to do
* `Input.Touches` — the affected fields of an input

## Main results

* `Input.affected_eq_ok` — affected fields of one input
-/

namespace EntityGraph

namespace InputKind

/-- Whether the input changes some of the stored items and leaves the others as they are. -/
def isIncremental : InputKind → Bool
  | addChildren _ | updateChildren _ | removeChildren _ | addEdges _ | removeEdges _
  | createAndAddEdges .. => true
  | _ => false

/-- The side from which the input changes edges. -/
def side? : InputKind → Option RelationSide
  | addEdges side | removeEdges side | createAndAddEdges side _ | setEdge side
  | createAndSetEdge side _ => some side
  | _ => none

end InputKind

namespace Input

/-- The input objects in a value of the input. -/
def objects (i : Input) (w : Value) : List Value :=
  if i.kind.nested?.isNone then []
  else if i.kind.isList then w.items
  else if w.isNull then []
  else [w]

/-- The shape of the input objects in a value of the input. -/
def nestedShape? (s : Schema) (i : Input) : Option Shape :=
  i.kind.nested?.bind fun (role, t) => (s.shape role t).toOption

/-- What an input object in a value of the input touches. -/
def ObjectTouches (s : Schema) (i : Input) (u : Value) (fields : List FieldId) : Prop :=
  ∃ shape, i.nestedShape? s = some shape ∧ EntityGraph.affected s u shape.inputs = .ok fields

/-- Whether the input is incremental and the value has no items. -/
def isIdle (i : Input) (w : Value) : Bool := i.kind.isIncremental && w.items.isEmpty

/-- The fields that the input writes itself, unless it is idle. -/
def ownFields (i : Input) (w : Value) : List FieldId :=
  if i.isFilter || i.isNoChange w then []
  else i.field.id :: (i.kind.side?.bind (·.targetField)).toList

end Input

/-! ### Nested shapes -/

variable {s : Schema} {i : Input} {w : Value} {shape : Shape}

theorem Input.nestedShape?_eq_some : i.nestedShape? s = some shape ↔
    ∃ role t, i.kind.nested? = some (role, t) ∧ s.shape role t = .ok shape := by
  rw [nestedShape?, Option.bind_eq_some_iff]
  constructor
  · rintro ⟨⟨role, t⟩, hn, hshape⟩
    refine ⟨role, t, hn, ?_⟩
    cases hs : s.shape role t with
    | error e => simp [hs, Except.toOption] at hshape
    | ok shape' => simpa [hs, Except.toOption] using hshape
  · rintro ⟨role, t, hn, hshape⟩
    exact ⟨(role, t), hn, by simp [hshape, Except.toOption]⟩

/-- An input that only identifies an object is never idle. -/
theorem Input.isFilter_of_isIdle (h : i.isIdle w = true) : i.isFilter = false := by
  obtain ⟨name, f, kind⟩ := i
  cases kind <;> simp_all [isIdle, InputKind.isIncremental, isFilter]

/-- An input object in a value is the value or one of its items. -/
theorem Input.mem_objects {u : Value} (h : u ∈ i.objects w) : u = w ∨ u ∈ w.items := by
  rw [objects] at h
  split at h
  · simp at h
  · split at h
    · exact .inr h
    · split at h
      · simp at h
      · exact .inl (List.mem_singleton.1 h)

/-- The inputs of a nested shape are inputs of the schema, and so is its type a type of it. -/
theorem Schema.HasInput.nestedShape (hi : s.HasInput i) (h : i.nestedShape? s = some shape) :
    shape.type ∈ s.types ∧ s.HasInputs shape.inputs := by
  obtain ⟨role, t, hn, hshape⟩ := Input.nestedShape?_eq_some.1 h
  have ht := hi.nested_mem hn
  obtain ⟨-, inputs, -, rfl⟩ := shape_eq_ok hshape
  exact ⟨ht, hasInputs_of_shape ht hshape⟩

namespace Schema

variable {role : Role} {f : FieldDef} {side : RelationSide}

theorem Offers.relates (h : s.Offers role f i) (hside : i.kind.side? = some side) :
    ∃ target, s.Relates f side target := by
  cases h with
  | filter | reference | scalar | combine | valueObject | createExtension | updateExtension
  | createChildren | addChildren | updateChildren | removeChildren => cases hside
  | initialEdges h | addEdges h | removeEdges h | createAndAddEdges h | setEdge h
  | createAndSetEdge h =>
    cases hside
    exact ⟨_, h⟩

/-- An input changes edges from the end of its own field. -/
theorem HasInput.sourceField (hi : s.HasInput i) (hside : i.kind.side? = some side) :
    side.sourceField = some i.field.id := by
  obtain ⟨role, t, -, f, -, hoffers⟩ := hi
  obtain ⟨target, hrelates⟩ := hoffers.relates hside
  rw [hoffers.field_eq]
  exact sourceField_of_relationSide? hrelates.side?

end Schema

/-! ### Affected fields of one input -/

namespace Input

/-- The fields are those of the input and those that the input objects in the value touch. If the
input is idle, only its field counts. -/
def Touches (s : Schema) (i : Input) (w : Value) (fields : List FieldId) : Prop :=
  ∃ fieldss, fields = (if i.isIdle w then [i.field.id] else i.ownFields w) ++ fieldss.flatten ∧
    List.Forall₂ (i.ObjectTouches s) (i.objects w) fieldss

theorem touches_own (hobjects : i.objects w = []) {own : List FieldId}
    (hown : (if i.isIdle w then [i.field.id] else i.ownFields w) = own) : i.Touches s w own :=
  ⟨[], by simp [hown], by rw [hobjects]; exact .nil⟩

/-- What nested objects touch is what each of them does. -/
theorem touches_nested {role : Role} {t : TypeDef} (hn : i.kind.nested? = some (role, t))
    {us : List Value} (hobjects : i.objects w = us) {own : List FieldId}
    (hown : (if i.isIdle w then [i.field.id] else i.ownFields w) = own) {fields : List FieldId}
    (h : (do return own ++ (← nestedTouched s role t (us.map (EntityGraph.affected s)))) =
      Except.ok fields) : i.Touches s w fields := by
  obtain ⟨nested, hnested, h⟩ := bind_eq_ok.1 h
  obtain ⟨shape, hshape, hnested⟩ := bind_eq_ok.1 hnested
  obtain ⟨fieldss, hfieldss, hnested⟩ := bind_eq_ok.1 hnested
  obtain rfl := Except.ok.inj hnested
  have hall := forall₂_of_mapM_eq_ok hfieldss
  rw [List.forall₂_map_left_iff] at hall
  refine ⟨fieldss, ?_, ?_⟩
  · rw [hown]
    exact (Except.ok.inj h).symm
  · rw [hobjects]
    exact hall.imp fun u fields hu => ⟨shape, nestedShape?_eq_some.2 ⟨role, t, hn, hshape⟩, hu⟩

/-- An input touches its own fields and what the input objects in its value touch. -/
theorem affected_eq_ok {fields : List FieldId} (h : i.affected s w = .ok fields) :
    i.Touches s w fields := by
  obtain ⟨name, f, kind⟩ := i
  have hsingle : (if w.isNull then [] else [EntityGraph.affected s w]) =
      (if w.isNull then [] else [w]).map (EntityGraph.affected s) := by
    split <;> rfl
  have hedges : ∀ far : List FieldId, (if w.items.isEmpty then [f.id] else f.id :: far) =
      f.id :: if (w.items.map (EntityGraph.affected s)).isEmpty then [] else far := by
    intro far
    rw [List.isEmpty_map]
    split <;> rfl
  rw [affected, affectedWith, itemsAffected_eq, hsingle] at h
  cases kind with
  | filter | scalar | combine | reference | setEdge =>
    obtain rfl := Except.ok.inj h
    exact touches_own rfl rfl
  | removeChildren =>
    obtain rfl := Except.ok.inj h
    exact touches_own rfl (ite_self _)
  | addEdges side | removeEdges side =>
    obtain rfl := Except.ok.inj h
    exact touches_own rfl (hedges side.targetField.toList)
  | valueObject type list =>
    cases list with
    | false => exact touches_nested rfl rfl rfl h
    | true => exact touches_nested rfl rfl rfl h
  | createExtension | updateExtension | createChildren => exact touches_nested rfl rfl rfl h
  | addChildren | updateChildren => exact touches_nested rfl rfl (ite_self _) h
  | createAndAddEdges side type =>
    refine touches_nested rfl rfl ?_ h
    exact hedges side.targetField.toList
  | createAndSetEdge side type =>
    by_cases hnull : w.isNull = true
    · simp only [hnull, if_true] at h
      obtain rfl := Except.ok.inj h
      refine touches_own ?_ ?_
      · simp [objects, InputKind.isList, hnull]
      · simp [isIdle, InputKind.isIncremental, ownFields, isNoChange, hnull]
    · simp only [hnull, Bool.false_eq_true, if_false] at h
      refine touches_nested rfl ?_ ?_ h
      · simp [objects, InputKind.nested?, InputKind.isList, hnull]
      · simp [isIdle, InputKind.isIncremental, ownFields, isFilter, isNoChange, InputKind.side?,
          hnull]

end Input

end EntityGraph
