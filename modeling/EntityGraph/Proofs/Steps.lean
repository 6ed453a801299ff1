import EntityGraph.Proofs.Drawing
import EntityGraph.Proofs.InputFields

/-!
# The steps of mutations

What one input does to the object that it applies to, said once and in full. `Input.form` is the
form of the steps that an input makes for a value, and `Input.Makes` has one constructor for each
form, with the exact plan and the numbers that were drawn for it. What the input objects in the
value do stays open: it comes in as a law on their steps. Other proofs about the steps that inputs
make start from here.

The changes of an input object are what the inputs of its shape add one after the other. A law that
passes from the input objects inside to the object around them holds of the changes of every value.
So a statement about all mutations is proved by looking at the forms of steps, and the recursion
over values is not repeated. Most laws hold of no steps and of steps one after the other. For them
it is enough to look at single inputs.

## Main definitions

* `StepLaw` — what is known of the steps of an input object
* `Schema.Ran` — the law that says no more than that the steps were made
* `Shape.Creates`, `Shape.Updates` — the step around the changes of an object
* `Input.Form`, `Input.form` — the forms of steps
* `Input.Makes` — the steps of one input
* `Schema.Hereditary` — laws that pass from the input objects inside to the object around them
* `Schema.Stable` — laws that pass from input objects to inputs

## Main results

* `Input.plan_makes` — the steps of an input have its form
* `Schema.HasShape.changes_contribute` — changes are what the inputs of a shape add in turn
* `Schema.Hereditary.changes` — a hereditary law holds of the changes of every value
* `Schema.Hereditary.planCreate`, `planUpdate`, `planUpdateAll` — and of those of every mutation
* `Schema.Stable.hereditary` — a stable law is hereditary
-/

namespace EntityGraph

/-- What is known of the steps that an input object of a shape makes for the object that a variable
is bound to, and of the numbers before and after. -/
abbrev StepLaw := Shape → Value → Variable → Nat → List Plan → Nat → Prop

/-- The steps are the changes of the input object, made from the first number. -/
def Schema.Ran (s : Schema) : StepLaw := fun shape u b n steps m =>
  (changes s u shape.inputs (.var b)).outcome ⟨n⟩ = (.ok steps, ⟨m⟩)

/-! ### Forms of steps -/

namespace Shape

/-- The plan creates an object of the shape as the input object says. -/
def Creates (P : StepLaw) (shape : Shape) (u : Value) (n : Nat) (p : Plan) (m : Nat) : Prop :=
  ∃ steps, p = .createObject shape.type.id ⟨n, "new"⟩ (identitySteps shape.type ++ steps) ∧
    P shape u ⟨n, "new"⟩ (n + 1) steps m

/-- The plan updates an object of the shape as the input object says. -/
def Updates (P : StepLaw) (shape : Shape) (target : Plan) (u : Value) (n : Nat) (p : Plan)
    (m : Nat) : Prop :=
  ∃ steps, p = .updateObject target ⟨n, "target"⟩ steps ∧ P shape u ⟨n, "target"⟩ (n + 1) steps m

section

variable {P : StepLaw} {shape : Shape} {u : Value} {n m : Nat} {p target : Plan}

theorem Creates.isWrite (h : shape.Creates P u n p m) : p.isWrite = true := by
  obtain ⟨steps, rfl, -⟩ := h
  rfl

theorem Updates.isWrite (h : shape.Updates P target u n p m) : p.isWrite = true := by
  obtain ⟨steps, rfl, -⟩ := h
  rfl

end

end Shape

namespace Input

/-- The stored extension or children of the input's field, empty if none are stored. -/
def storedParts (i : Input) (current : Plan) : Plan :=
  let stored := Plan.field current i.field.id i.field.name
  if i.field.isList then stored.ensure .list (.list []) else stored.ensure .object (.object [])

/-- The forms of steps. -/
inductive Form where
  | nothing
  | literal
  | combine
  | newObject
  | newObjects
  | addChildren
  | updateExtension
  | updateChildren
  | removeChildren
  | addEdges
  | removeEdges
  | setEdge
  | createAndAddEdges
  | createAndSetEdge

/-- The form of the steps that the input makes for a value. -/
def form (i : Input) (w : Value) : Form :=
  match i.kind with
  | .filter => .nothing
  | .scalar .. | .reference _ => .literal
  | .combine .. => .combine
  | .valueObject _ false | .createExtension _ => if w.isNull then .literal else .newObject
  | .valueObject _ true | .createChildren _ => .newObjects
  | .updateExtension _ => if w.isNull then .literal else .updateExtension
  | .addChildren _ => if w.items.isEmpty then .nothing else .addChildren
  | .updateChildren _ => if w.items.isEmpty then .nothing else .updateChildren
  | .removeChildren _ => if w.items.isEmpty then .nothing else .removeChildren
  | .addEdges _ => if w.items.isEmpty then .nothing else .addEdges
  | .removeEdges _ => if w.items.isEmpty then .nothing else .removeEdges
  | .createAndAddEdges .. => if w.items.isEmpty then .nothing else .createAndAddEdges
  | .setEdge _ => .setEdge
  | .createAndSetEdge .. => if w.isNull then .nothing else .createAndSetEdge

/-- The steps of an input for a value, with the numbers drawn for them. -/
inductive Makes (s : Schema) (P : StepLaw) (i : Input) (w : Value) (current : Plan) :
    Form → Nat → List Plan → Nat → Prop
  | nothing {n : Nat} : Makes s P i w current .nothing n [] n
  | literal {n : Nat} (hfilter : i.isFilter = false) (hside : i.kind.side? = none)
      (hobjects : i.objects w = []) (hreplaces : i.kind.replaces = true) :
    Makes s P i w current .literal n [i.set (.literal w)] n
  | combine {n : Nat} {type : TypeDef} {op : CalcOperator} (hkind : i.kind = .combine type op) :
    Makes s P i w current .combine n
      [i.set (.binary (.ofCalc op) (.field current i.field.id i.field.name) (.literal w))] n
  | newObject {n m : Nat} {type : TypeDef} {shape : Shape} {p : Plan}
      (hn : i.kind.nested? = some (.create, type)) (hshape : s.shape .create type = .ok shape)
      (hp : shape.Creates P w n p m) (hobjects : i.objects w = [w]) (hside : i.kind.side? = none)
      (hreplaces : i.kind.replaces = true) : Makes s P i w current .newObject n [i.set p] m
  | newObjects {n m : Nat} {type : TypeDef} {shape : Shape} {ps : List Plan}
      (hn : i.kind.nested? = some (.create, type)) (hshape : s.shape .create type = .ok shape)
      (hps : Chain (shape.Creates P) w.items n ps m) (hobjects : i.objects w = w.items)
      (hside : i.kind.side? = none) (hreplaces : i.kind.replaces = true) :
    Makes s P i w current .newObjects n [i.set (.list ps)] m
  | addChildren {n m : Nat} {type : TypeDef} {shape : Shape} {ps : List Plan}
      (hn : i.kind.nested? = some (.create, type)) (hshape : s.shape .create type = .ok shape)
      (hps : Chain (shape.Creates P) w.items n ps m) (hobjects : i.objects w = w.items)
      (hkind : i.kind = .addChildren type) : Makes s P i w current .addChildren n
      [i.set (.binary .concat (i.storedParts current) (.list ps))] m
  | updateExtension {n m : Nat} {type : TypeDef} {shape : Shape} {p : Plan}
      (hn : i.kind.nested? = some (.update, type)) (hshape : s.shape .update type = .ok shape)
      (hp : shape.Updates P (i.storedParts current) w n p m) (hobjects : i.objects w = [w])
      (hkind : i.kind = .updateExtension type) :
    Makes s P i w current .updateExtension n [i.set p] m
  | updateChildren {n m : Nat} {type : TypeDef} {shape : Shape} {updates : List (Value × Plan)}
      (hn : i.kind.nested? = some (.update, type)) (hshape : s.shape .update type = .ok shape)
      (hupdates : Chain (fun u k update l => update.1 = (u.get? identityName).getD .null ∧
        shape.Updates P (.var ⟨n, "child"⟩) u k update.2 l) w.items (n + 1) updates m)
      (hobjects : i.objects w = w.items) (hkind : i.kind = .updateChildren type) :
    Makes s P i w current .updateChildren n
      [i.set (.transformList (i.storedParts current) ⟨n, "child"⟩ none none
        (some (updateChain ⟨n, "child"⟩ updates)))] m
  | removeChildren {n : Nat} {type : TypeDef} (hkind : i.kind = .removeChildren type) :
    Makes s P i w current .removeChildren n
      [i.set (.transformList (i.storedParts current) ⟨n, "child"⟩
        (some (.not (.binary .isIn (.entityId (.var ⟨n, "child"⟩)) (.literal w)))) none none)]
      (n + 1)
  | addEdges {n : Nat} {side : RelationSide} (hside : i.kind.side? = some side)
      (hobjects : i.objects w = []) :
    Makes s P i w current .addEdges n [.addEdges side current (.literal w)] n
  | removeEdges {n : Nat} {side : RelationSide} (hside : i.kind.side? = some side)
      (hobjects : i.objects w = []) :
    Makes s P i w current .removeEdges n [.removeEdges side current (.literal w)] n
  | setEdge {n : Nat} {side : RelationSide} (hside : i.kind.side? = some side)
      (hobjects : i.objects w = []) (hreplaces : i.kind.replaces = true) :
    Makes s P i w current .setEdge n
      [.setEdge side current (if w.isNull then none else some (.literal w))] n
  | createAndAddEdges {n m : Nat} {side : RelationSide} {type : TypeDef} {shape : Shape}
      {ps : List Plan} (hside : i.kind.side? = some side)
      (hn : i.kind.nested? = some (.create, type)) (hshape : s.shape .create type = .ok shape)
      (hps : Chain (shape.Creates P) w.items n ps m) (hobjects : i.objects w = w.items) :
    Makes s P i w current .createAndAddEdges n [.addEdges side current (.list ps)] m
  | createAndSetEdge {n m : Nat} {side : RelationSide} {type : TypeDef} {shape : Shape} {p : Plan}
      (hside : i.kind.side? = some side) (hn : i.kind.nested? = some (.create, type))
      (hshape : s.shape .create type = .ok shape) (hp : shape.Creates P w n p m)
      (hobjects : i.objects w = [w]) (hreplaces : i.kind.replaces = true) :
    Makes s P i w current .createAndSetEdge n [.setEdge side current (some p)] m

/-- An input makes no steps exactly if it only identifies an object, is idle, or takes the value for
no change. -/
theorem form_eq_nothing_iff {i : Input} {w : Value} : i.form w = .nothing ↔
    i.isFilter = true ∨ i.isIdle w = true ∨ i.isNoChange w = true := by
  obtain ⟨name, f, kind⟩ := i
  cases kind with
  | valueObject type list =>
    cases list <;> simp [form, isFilter, isIdle, InputKind.isIncremental, isNoChange, ite_eq_iff]
  | filter | scalar | reference | combine | createExtension | createChildren | updateExtension
  | setEdge | addChildren | updateChildren | removeChildren | addEdges | removeEdges
  | createAndAddEdges | createAndSetEdge =>
    simp [form, isFilter, isIdle, InputKind.isIncremental, isNoChange, ite_eq_iff]

end Input

/-! ### Single inputs -/

section Input

variable {s : Schema} {P : StepLaw} {i : Input} {w : Value} {current : Plan} {shape : Shape}
  {type : TypeDef} {f : FieldDef} {role : Role} {n : Nat}

theorem Shape.create_yields {u : Value}
    (hwrite : ∀ b n, (changes s u shape.inputs (.var b)).Yields n (P shape u b n)) :
    (shape.create (changes s u)).Yields n (shape.Creates P u n) := by
  refine .bindFresh ?_
  exact (hwrite _ _).bind fun steps m hsteps => .pure ⟨steps, rfl, hsteps⟩

theorem Shape.update_yields {u : Value} {target : Plan}
    (hwrite : ∀ b n, (changes s u shape.inputs (.var b)).Yields n (P shape u b n)) :
    (shape.update target (changes s u)).Yields n (shape.Updates P target u n) := by
  refine .bindFresh ?_
  exact (hwrite _ _).bind fun steps m hsteps => .pure ⟨steps, rfl, hsteps⟩

namespace Input

/-- What is known of the changes of the input objects in a value. -/
def ObjectsYield (s : Schema) (P : StepLaw) (i : Input) (w : Value) : Prop :=
  ∀ shape, i.nestedShape? s = some shape → ∀ u ∈ i.objects w, ∀ b n,
    (changes s u shape.inputs (.var b)).Yields n (P shape u b n)

/-- An input that identifies an object makes no steps, whatever its value. -/
theorem plan_filter (h : i.kind = .filter) : i.plan s w current = pure [] := by
  rw [plan, planWith, h]

/-- Reading the parts of an object draws no variables. -/
theorem stored_eq (h : s.Embeds i.field type)
    (hkind : type.kind = .entityExtension ∧ i.field.isList = false ∨ i.field.isList = true) :
    i.stored s current = pure (i.storedParts current) := by
  have hidentity : i.field.isIdentity = false := by rw [FieldDef.isIdentity, h.declared]; rfl
  have hread : s.read i.field current = pure (i.storedParts current) := by
    rw [Schema.read, Schema.readWithin, h.target?, storedParts]
    simp only [h.noRelation, h.noReference, hidentity, Bool.false_eq_true, if_false]
    rcases hkind with ⟨hextension, hlist⟩ | hlist
    · simp [hextension, hlist]
    · simp [hlist]
  rw [stored, hread]
  rfl

/-- The shape of nested input objects is made first. What is known of their changes holds for it. -/
theorem yields_nestedShape {α : Type} {Q : α → Nat → Prop} (hP : i.ObjectsYield s P w)
    (hn : i.kind.nested? = some (role, type)) {k : Shape → Planner InputError α}
    (hk : ∀ shape, s.shape role type = .ok shape →
      (∀ u ∈ i.objects w, ∀ b n, (changes s u shape.inputs (.var b)).Yields n (P shape u b n)) →
      (k shape).Yields n Q) : (Planner.ofExcept (s.shape role type) >>= k).Yields n Q := by
  refine .bindExcept fun shape hshape => ?_
  exact hk shape hshape (hP shape (nestedShape?_eq_some.2 ⟨role, type, hn, hshape⟩))

theorem createAll_yields (hP : i.ObjectsYield s P w) (hn : i.kind.nested? = some (.create, type))
    (hobjects : i.objects w = w.items) :
    (createAll s type (w.items.map fun u => (u, changes s u))).Yields n fun ps m =>
      ∃ shape, s.shape .create type = .ok shape ∧ Chain (shape.Creates P) w.items n ps m := by
  refine yields_nestedShape hP hn fun shape hshape hnested => ?_
  refine (Planner.Yields.mapM (R := fun item => shape.Creates P item.1) ?_).imp
    fun ps m hps => ⟨shape, hshape, hps.of_map⟩
  rw [List.forall_mem_map, ← hobjects]
  exact fun u hu n => Shape.create_yields (hnested u hu)

/-- A new object in a field that holds one. -/
theorem storeNew_makes (hn : i.kind.nested? = some (.create, type)) (hfilter : i.isFilter = false)
    (hside : i.kind.side? = none) (hreplaces : i.kind.replaces = true)
    (hobjects : i.objects w = if w.isNull then [] else [w])
    (hform : i.form w = if w.isNull then .literal else .newObject) (hP : i.ObjectsYield s P w) :
    (if w.isNull then return [i.set .null]
      else do
        let shape ← Planner.ofExcept (s.shape .create type)
        return [i.set (← shape.create (changes s w))] : Planner InputError (List Plan)).Yields n
      (i.Makes s P w current (i.form w) n) := by
  rw [hform]
  cases hnull : w.isNull with
  | true =>
    obtain rfl := Value.isNull_eq_true.1 hnull
    exact .pure (.literal hfilter hside hobjects hreplaces)
  | false =>
    rw [hnull] at hobjects
    refine yields_nestedShape hP hn fun shape hshape hnested => ?_
    refine (Shape.create_yields (hnested w (by simp [hobjects]))).bind fun p m hp => .pure ?_
    exact .newObject hn hshape hp hobjects hside hreplaces

/-- The steps of an input in the table have its form. -/
theorem plan_makes (hi : s.Offers role f i) (hP : i.ObjectsYield s P w) :
    (i.plan s w current).Yields n (i.Makes s P w current (i.form w) n) := by
  rw [plan, planWith, itemWriters_eq]
  cases hi with
  | filter => exact .pure .nothing
  | scalar | reference => exact .pure (.literal rfl rfl rfl rfl)
  | combine => exact .pure (.combine rfl)
  | setEdge => exact .pure (.setEdge rfl rfl rfl)
  | initialEdges | addEdges =>
    simp only [List.isEmpty_map, form]
    split
    · exact .pure .nothing
    · exact .pure (.addEdges rfl rfl)
  | removeEdges =>
    simp only [List.isEmpty_map, form]
    split
    · exact .pure .nothing
    · exact .pure (.removeEdges rfl rfl)
  | @valueObject _ f =>
    generalize f.isList = list at *
    cases list with
    | false => exact storeNew_makes rfl rfl rfl rfl rfl rfl hP
    | true =>
      refine (createAll_yields hP rfl rfl).bind ?_
      rintro ps m ⟨shape, hshape, hps⟩
      exact .pure (.newObjects rfl hshape hps rfl rfl rfl)
  | createExtension => exact storeNew_makes rfl rfl rfl rfl rfl rfl hP
  | createChildren =>
    refine (createAll_yields hP rfl rfl).bind ?_
    rintro ps m ⟨shape, hshape, hps⟩
    exact .pure (.newObjects rfl hshape hps rfl rfl rfl)
  | @updateExtension _ f type hembeds hkind _ hlist =>
    have hobjects : Input.objects ⟨f.name, f, .updateExtension type⟩ w =
      if w.isNull then [] else [w] := rfl
    simp only [form]
    split
    · next hnull =>
      rw [if_pos hnull] at hobjects
      obtain rfl := Value.isNull_eq_true.1 hnull
      exact .pure (.literal rfl rfl hobjects rfl)
    · next hnull =>
      rw [if_neg hnull] at hobjects
      rw [stored_eq (i := ⟨_, f, _⟩) hembeds (.inl ⟨hkind, hlist⟩), pure_bind]
      refine yields_nestedShape hP rfl fun shape hshape hnested => ?_
      refine (Shape.update_yields (hnested w (by simp [hobjects]))).bind fun p m hp => .pure ?_
      exact .updateExtension rfl hshape hp hobjects rfl
  | @addChildren _ f type hembeds _ _ hlist =>
    simp only [List.isEmpty_map, form]
    split
    · exact .pure .nothing
    · rw [stored_eq (i := ⟨_, f, _⟩) hembeds (.inr hlist), pure_bind]
      refine (createAll_yields hP rfl rfl).bind ?_
      rintro ps m ⟨shape, hshape, hps⟩
      exact .pure (.addChildren rfl hshape hps rfl rfl)
  | @updateChildren _ f type hembeds _ _ hlist =>
    simp only [List.isEmpty_map, form]
    split
    · exact .pure .nothing
    · rw [stored_eq (i := ⟨_, f, _⟩) hembeds (.inr hlist), pure_bind]
      refine yields_nestedShape hP rfl fun shape hshape hnested => ?_
      refine .bindFresh ?_
      refine (Planner.Yields.mapM (R := fun item k update l =>
        update.1 = (item.1.get? identityName).getD .null ∧
          shape.Updates P (.var ⟨n, "child"⟩) item.1 k update.2 l) ?_).bind
            fun updates m hupdates => .pure ?_
      · rw [List.forall_mem_map]
        intro u hu k
        exact (Shape.update_yields (hnested u hu)).bind fun p m hp => .pure ⟨rfl, hp⟩
      · exact .updateChildren rfl hshape hupdates.of_map rfl rfl
  | @removeChildren _ f type hembeds _ _ hlist =>
    simp only [List.isEmpty_map, form]
    split
    · exact .pure .nothing
    · rw [stored_eq (i := ⟨_, f, _⟩) hembeds (.inr hlist), pure_bind]
      exact .bindFresh (.pure (.removeChildren rfl))
  | createAndAddEdges =>
    simp only [List.isEmpty_map, form]
    split
    · exact .pure .nothing
    · refine (createAll_yields hP rfl rfl).bind ?_
      rintro ps m ⟨shape, hshape, hps⟩
      exact .pure (.createAndAddEdges rfl rfl hshape hps rfl)
  | @createAndSetEdge _ f side target =>
    have hobjects : Input.objects ⟨"create" ++ capitalize f.name, f,
      .createAndSetEdge side target⟩ w = if w.isNull then [] else [w] := rfl
    simp only [form]
    split
    · exact .pure .nothing
    · next hnull =>
      rw [if_neg hnull] at hobjects
      refine yields_nestedShape hP rfl fun shape hshape hnested => ?_
      refine (Shape.create_yields (hnested w (by simp [hobjects]))).bind fun p m hp => .pure ?_
      exact .createAndSetEdge rfl rfl hshape hp hobjects rfl

/-- What is known of every input object is known of those in a value: that its changes were made. -/
theorem objectsYield_ran (s : Schema) (i : Input) (w : Value) : i.ObjectsYield s s.Ran w :=
  fun _ _ _ _ _ _ _ _ h => h

end Input

end Input

/-! ### Shapes of a schema -/

namespace Schema

variable {s : Schema} {P : StepLaw} {shape : Shape} {t : TypeDef} {role : Role} {i : Input}

/-- The shape is one of the schema's own. -/
structure HasShape (s : Schema) (shape : Shape) : Prop where
  mem : shape.type ∈ s.types
  made : s.shape shape.role shape.type = .ok shape

theorem hasShape_of_shape (ht : t ∈ s.types) (h : s.shape role t = .ok shape) :
    s.HasShape shape ∧ shape.type = t := by
  obtain ⟨-, inputs, -, rfl⟩ := shape_eq_ok h
  exact ⟨⟨ht, h⟩, rfl⟩

theorem HasShape.offers (h : s.HasShape shape) (hi : i ∈ shape.inputs) :
    i.field ∈ shape.type.fields ∧ s.Offers shape.role i.field i := by
  obtain ⟨f, hf, hoffers⟩ := exists_offers_of_mem_shape h.made hi
  rw [hoffers.field_eq]
  exact ⟨hf, hoffers⟩

theorem HasShape.hasInputs (h : s.HasShape shape) : s.HasInputs shape.inputs :=
  hasInputs_of_shape h.mem h.made

/-- The input objects of an input are those of a shape of the schema. -/
theorem HasInput.hasShape (hi : s.HasInput i) (hn : i.kind.nested? = some (role, t))
    (h : s.shape role t = .ok shape) : s.HasShape shape ∧ shape.type = t :=
  hasShape_of_shape (hi.nested_mem hn) h

/-! ### Changes of every value -/

/-- What an input of a shape adds to the changes of an input object: nothing if it is not given, and
else steps of its form. -/
def Contributes (s : Schema) (P : StepLaw) (u : Value) (b : Variable) (i : Input) (n : Nat)
    (steps : List Plan) (m : Nat) : Prop :=
  (u.get? i.name = none ∧ steps = [] ∧ m = n) ∨
    ∃ w, u.get? i.name = some w ∧ i.Makes s P w (.var b) (i.form w) n steps m

/-- The changes of an input object are what the inputs of its shape add one after the other. -/
theorem HasShape.changes_contribute {u : Value} (hshape : s.HasShape shape)
    (hP : ∀ i ∈ shape.inputs, ∀ w, u.get? i.name = some w → i.ObjectsYield s P w) (b : Variable)
    (n : Nat) : (changes s u shape.inputs (.var b)).Yields n fun steps m =>
      ∃ stepss, steps = stepss.flatten ∧ Chain (s.Contributes P u b) shape.inputs n stepss m := by
  cases u with
  | object entries =>
    rw [changes_object]
    refine (Planner.Yields.mapM (R := s.Contributes P (.object entries) b)
      fun i hi n => ?_).bind fun stepss m hstepss => .pure ⟨stepss, rfl, hstepss⟩
    cases hw : Entries.get? entries i.name with
    | none => exact .pure (.inl ⟨hw, rfl, rfl⟩)
    | some w =>
      exact (Input.plan_makes (hshape.offers hi).2 (hP i hi w hw)).imp
        fun steps m hsteps => .inr ⟨w, hw, hsteps⟩
  | null | bool | int | float | string | list =>
    -- A value without entries gives no input.
    refine .pure ⟨shape.inputs.map fun _ => [], (List.flatten_eq_nil_iff.2 (by simp)).symm, ?_⟩
    induction shape.inputs with
    | nil => exact .nil
    | cons i inputs ih => exact .cons (.inl ⟨rfl, rfl, rfl⟩) ih

/-- The law passes from the input objects in the value of an input object to the object, whose
changes are what the inputs of its shape add one after the other. -/
structure Hereditary (s : Schema) (P : StepLaw) : Prop where
  object : ∀ {shape : Shape} {u : Value} {b : Variable} {n m : Nat} {stepss : List (List Plan)},
    s.HasShape shape → Chain (s.Contributes P u b) shape.inputs n stepss m →
    P shape u b n stepss.flatten m

namespace Hereditary

/-- A hereditary law holds of the changes of every value. -/
theorem changes (hP : s.Hereditary P) (v : Value) : ∀ shape, s.HasShape shape → ∀ b n,
    (changes s v shape.inputs (.var b)).Yields n (P shape v b n) := by
  have hobject : ∀ {v : Value} {shape : Shape}, s.HasShape shape →
      (∀ i ∈ shape.inputs, ∀ w, v.get? i.name = some w → i.ObjectsYield s P w) → ∀ b n,
      (EntityGraph.changes s v shape.inputs (.var b)).Yields n (P shape v b n) := by
    intro v shape hshape hinputs b n
    refine (hshape.changes_contribute hinputs b n).imp ?_
    rintro _ m ⟨stepss, rfl, hchain⟩
    exact hP.object hshape hchain
  induction v using Value.induct_object with
  | plain v hplain =>
    refine fun shape hshape => hobject hshape fun i _ w hw => ?_
    cases v with
    | object => cases hplain
    | null | bool | int | float | string | list => cases hw
  | object entries ih =>
    refine fun shape hshape => hobject hshape fun i hi w hw nested hnested u hu => ?_
    -- The input objects in the value of the input are smaller, and of a shape of the schema.
    have hih := ih _ (Entries.mem_of_get? hw)
    obtain ⟨role, type, hn, hmade⟩ := Input.nestedShape?_eq_some.1 hnested
    have hhas := ((hshape.hasInputs i hi).hasShape hn hmade).1
    rcases Input.mem_objects hu with rfl | hu
    · exact hih.1 nested hhas
    · exact hih.2 u hu nested hhas

variable {n : Nat} {input : Value}

theorem yields_prepare (ht : t ∈ s.types) {Q : Mutation → Nat → Prop}
    {k : Shape × Value → Planner InputError Mutation}
    (hk : ∀ shape value, s.prepare role t input = .ok (shape, value) → s.HasShape shape →
      shape.type = t → (k (shape, value)).Yields n Q) :
    (Planner.ofExcept (s.prepare role t input) >>= k).Yields n Q := by
  refine .bindExcept ?_
  rintro ⟨shape, value⟩ hp
  obtain ⟨hshape, htype⟩ := hasShape_of_shape ht (prepare_eq_ok hp).1
  exact hk shape value hp hshape htype

theorem planCreate (hP : s.Hereditary P) (ht : t ∈ s.types) :
    (s.planCreate t input).Yields n fun result m =>
      ∃ shape value, s.prepare .create t input = .ok (shape, value) ∧ shape.type = t ∧
        s.HasShape shape ∧ affected s value shape.inputs = .ok result.affected ∧
        shape.Creates P value n result.plan m := by
  refine yields_prepare ht fun shape value hprepare hshape htype => ?_
  refine (Shape.create_yields (hP.changes value shape hshape)).bind fun p m hp => ?_
  refine .bindExcept fun fields hfields => .pure ?_
  exact ⟨shape, value, hprepare, htype, hshape, hfields, hp⟩

theorem planUpdate (hP : s.Hereditary P) (ht : t ∈ s.types) :
    (s.planUpdate t input).Yields n fun result m =>
      ∃ shape value id, s.prepare .update t input = .ok (shape, value) ∧ shape.type = t ∧
        s.HasShape shape ∧ affected s value shape.inputs = .ok result.affected ∧
        shape.Updates P (.lookup t.id ⟨n, "candidate"⟩
          (.eq (.entityId (.var ⟨n, "candidate"⟩)) (.literal id))) value (n + 1) result.plan m := by
  refine .bindExcept fun _ _ => ?_
  refine yields_prepare ht fun shape value hprepare hshape htype => ?_
  refine .bindExcept fun id _ => ?_
  rw [entityById, bind_assoc]
  refine .bindFresh ?_
  rw [pure_bind]
  refine (Shape.update_yields (hP.changes value shape hshape)).bind fun p m hp => ?_
  refine .bindExcept fun fields hfields => .pure ?_
  exact ⟨shape, value, id, hprepare, htype, hshape, hfields, hp⟩

theorem planUpdateAll (hP : s.Hereditary P) (ht : t ∈ s.types) (targets : Plan) :
    (s.planUpdateAll t input targets).Yields n fun result m =>
      ∃ shape value update, s.prepare .updateAll t input = .ok (shape, value) ∧ shape.type = t ∧
        s.HasShape shape ∧ affected s value shape.inputs = .ok result.affected ∧
        result.plan = .transformList targets ⟨n, "item"⟩ none none (some update) ∧
        shape.Updates P (.var ⟨n, "item"⟩) value (n + 1) update m := by
  refine yields_prepare ht fun shape value hprepare hshape htype => ?_
  refine .bindFresh ?_
  refine (Shape.update_yields (hP.changes value shape hshape)).bind fun update m hupdate => ?_
  refine .bindExcept fun fields hfields => .pure ?_
  exact ⟨shape, value, update, hprepare, htype, hshape, hfields, rfl, hupdate⟩

end Hereditary

/-- The law holds of no steps and of steps one after the other, and it passes from the input objects
in the value of an input to the steps of the input. -/
structure Stable (s : Schema) (P : StepLaw) : Prop where
  nil : ∀ (shape : Shape) (u : Value) (b : Variable) (n : Nat), P shape u b n [] n
  append : ∀ {shape : Shape} {u : Value} {b : Variable} {n k m : Nat} {xs ys : List Plan},
    P shape u b n xs k → P shape u b k ys m → P shape u b n (xs ++ ys) m
  input : ∀ {shape : Shape} {u w : Value} {b : Variable} {n m : Nat} {i : Input}
    {form : Input.Form} {steps : List Plan}, s.HasShape shape → i ∈ shape.inputs →
    u.get? i.name = some w → i.Makes s P w (.var b) form n steps m → P shape u b n steps m

namespace Stable

/-- A stable law is hereditary: it holds of what each input adds, and so of all of it. -/
theorem hereditary (hP : s.Stable P) : s.Hereditary P := by
  refine ⟨fun {shape u b n m stepss} hshape hchain => ?_⟩
  refine hchain.fold (S := fun n stepss m => P shape u b n stepss.flatten m)
    (hP.nil shape u b) fun i hi n steps k stepss m hhead htail => ?_
  rw [List.flatten_cons]
  rcases hhead with ⟨-, rfl, rfl⟩ | ⟨w, hw, hmakes⟩
  · exact htail
  · exact hP.append (hP.input hshape hi hw hmakes) htail

variable {n : Nat} {input : Value}

theorem planCreate (hP : s.Stable P) (ht : t ∈ s.types) :
    (s.planCreate t input).Yields n fun result m =>
      ∃ shape value, shape.type = t ∧ s.HasShape shape ∧ shape.Creates P value n result.plan m :=
  (hP.hereditary.planCreate ht).imp fun _ _ ⟨shape, value, _, htype, hshape, _, hplan⟩ =>
    ⟨shape, value, htype, hshape, hplan⟩

theorem planUpdate (hP : s.Stable P) (ht : t ∈ s.types) :
    (s.planUpdate t input).Yields n fun result m =>
      ∃ shape value id, shape.type = t ∧ s.HasShape shape ∧
        shape.Updates P (.lookup t.id ⟨n, "candidate"⟩
          (.eq (.entityId (.var ⟨n, "candidate"⟩)) (.literal id))) value (n + 1) result.plan m :=
  (hP.hereditary.planUpdate ht).imp fun _ _ ⟨shape, value, id, _, htype, hshape, _, hplan⟩ =>
    ⟨shape, value, id, htype, hshape, hplan⟩

theorem planUpdateAll (hP : s.Stable P) (ht : t ∈ s.types) (targets : Plan) :
    (s.planUpdateAll t input targets).Yields n fun result m =>
      ∃ shape value update, shape.type = t ∧ s.HasShape shape ∧
        result.plan = .transformList targets ⟨n, "item"⟩ none none (some update) ∧
        shape.Updates P (.var ⟨n, "item"⟩) value (n + 1) update m :=
  (hP.hereditary.planUpdateAll ht targets).imp
    fun _ _ ⟨shape, value, update, _, htype, hshape, _, hplan⟩ =>
      ⟨shape, value, update, htype, hshape, hplan⟩

end Stable

end Schema

end EntityGraph
