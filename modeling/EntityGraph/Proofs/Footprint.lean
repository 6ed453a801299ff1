import EntityGraph.Proofs.Steps
import EntityGraph.Proofs.Written

/-!
# Affected fields and written fields

What a plan writes is affected, and what is affected but not written is idle: the field of an
incremental input that is given without items. The steps of an input and its affected fields are
described in the same terms, its own fields and the input objects in its value, so they are compared
without a look at the kind of the input. That what is affected accounts for the steps is a law that
passes from the input objects inside to the object around them.

Nothing is asked of the schema, apart from the numbering of its fields and that system fields are no
relations, which hold for every schema that can be built.

## Main definitions

* `Schema.Idle` — fields of incremental inputs that are given without items
* `Schema.Accounts` — how affected fields account for what a plan writes
* `Input.Writes` — the written fields of an input

## Main results

* `Input.Makes.writes` — an input writes its own fields and those of the input objects in it
* `Schema.hereditary_accounting` — the written fields of an object are affected, and the others idle
* `Schema.affected_declared`, `Schema.affected_nodup` — affected fields are declared and named once
* `affected_fields_account_for_writes` — all of this for whole mutations
-/

namespace EntityGraph

namespace Schema

/-- The field of an incremental input that is given somewhere in the value, but not with a list that
has items. -/
inductive Idle (s : Schema) : List Input → Value → FieldId → Prop
  | here {inputs : List Input} {v w : Value} {i : Input} (hi : i ∈ inputs)
      (hw : v.get? i.name = some w) (hkind : i.kind.isIncremental = true) (hempty : w.items = []) :
    Idle s inputs v i.field.id
  | within {inputs : List Input} {v w u : Value} {i : Input} {shape : Shape} {x : FieldId}
      (hi : i ∈ inputs) (hw : v.get? i.name = some w) (hshape : i.nestedShape? s = some shape)
      (hu : u ∈ i.objects w) (h : Idle s shape.inputs u x) : Idle s inputs v x

/-- The fields name everything that the plan writes. They name each field once, no system field, and
beyond what is written only idle fields. -/
structure Accounts (s : Schema) (inputs : List Input) (v : Value) (plan : Plan)
    (fields : List FieldId) : Prop where
  nodup : fields.Nodup
  covers : ∀ x ∈ s.written plan, x ∈ fields
  spare : ∀ x ∈ fields, x ∉ s.written plan → s.Idle inputs v x
  declared : ∀ x ∈ fields, ∃ f, s.fieldAt? x = some f ∧ f.isSystem = false

end Schema

variable {s : Schema} {i : Input} {w : Value}

/-! ### Comparison -/

/-- Everything written is among the fields, and all other fields are idle. -/
structure Accounted (idle : FieldId → Prop) (written fields : List FieldId) : Prop where
  covers : ∀ x ∈ written, x ∈ fields
  spare : ∀ x ∈ fields, x ∈ written ∨ idle x

namespace Accounted

variable {idle : FieldId → Prop} {written fields : List FieldId}

theorem refl (fields : List FieldId) : Accounted idle fields fields where
  covers := fun _ hx => hx
  spare := fun _ hx => .inl hx

theorem append {written' fields' : List FieldId} (h : Accounted idle written fields)
    (h' : Accounted idle written' fields') :
    Accounted idle (written ++ written') (fields ++ fields') where
  covers := by
    intro x hx
    rcases List.mem_append.1 hx with hx | hx
    · exact List.mem_append_left _ (h.covers x hx)
    · exact List.mem_append_right _ (h'.covers x hx)
  spare := by
    intro x hx
    rcases List.mem_append.1 hx with hx | hx
    · exact (h.spare x hx).imp_left (List.mem_append_left _)
    · exact (h'.spare x hx).imp_left (List.mem_append_right _)

theorem mono {idle' : FieldId → Prop} (h : Accounted idle written fields)
    (hidle : ∀ x, idle x → idle' x) : Accounted idle' written fields where
  covers := h.covers
  spare := fun x hx => (h.spare x hx).imp_right (hidle x)

theorem eraseDups (h : Accounted idle written fields) :
    Accounted idle written fields.eraseDups where
  covers := fun x hx => List.mem_eraseDups.2 (h.covers x hx)
  spare := fun x hx => h.spare x (List.mem_eraseDups.1 hx)

/-- Pieces that are accounted for one by one are accounted for together. -/
theorem flatMap {α β : Type} {R : α → List FieldId → Prop} {W : β → List FieldId} {xs : List α}
    {ys : List β} {fieldss : List (List FieldId)}
    (hwritten : List.Forall₂ (fun x y => ∀ fields, R x fields → Accounted idle (W y) fields) xs ys)
    (hfields : List.Forall₂ R xs fieldss) :
    Accounted idle (ys.flatMap W) fieldss.flatten := by
  induction hwritten generalizing fieldss with
  | nil =>
    cases hfields
    exact refl []
  | cons hhead _ ih =>
    cases hfields with
    | cons hfields hrest =>
      rw [List.flatMap_cons, List.flatten_cons]
      exact (hhead _ hfields).append (ih hrest)

end Accounted

namespace Schema

/-- What an input of an object touches: nothing, if the object does not give it. -/
def TouchedIn (s : Schema) (u : Value) (i : Input) (fields : List FieldId) : Prop :=
  (u.get? i.name = none ∧ fields = []) ∨
    ∃ w, u.get? i.name = some w ∧ i.affected s w = .ok fields

theorem affected_eq_ok {u : Value} {inputs : List Input} {fields : List FieldId}
    (h : affected s u inputs = .ok fields) :
    ∃ fieldss, fields = fieldss.flatten.eraseDups ∧
      List.Forall₂ (s.TouchedIn u) inputs fieldss := by
  cases u with
  | object entries =>
    rw [affected_object] at h
    obtain ⟨fieldss, hfieldss, h⟩ := bind_eq_ok.1 h
    refine ⟨fieldss, (Except.ok.inj h).symm, ?_⟩
    refine (forall₂_of_mapM_eq_ok hfieldss).imp fun i own hown => ?_
    cases hw : Entries.get? entries i.name with
    | none =>
      rw [hw] at hown
      exact .inl ⟨hw, (Except.ok.inj hown).symm⟩
    | some w =>
      rw [hw] at hown
      exact .inr ⟨w, hw, hown⟩
  | null | bool | int | float | string | list =>
    obtain rfl := Except.ok.inj h
    refine ⟨inputs.map fun _ => [], ?_, ?_⟩
    · rw [List.flatten_eq_nil_iff.2 (by simp)]
      rfl
    · rw [List.forall₂_map_right_iff, List.forall₂_same]
      exact fun i _ => .inl ⟨rfl, rfl⟩

/-- What is written is accounted for by what the value touches as an input object. -/
def AccountsFor (s : Schema) (inputs : List Input) (v : Value) (written : List FieldId) : Prop :=
  ∀ fields, affected s v inputs = .ok fields → Accounted (s.Idle inputs v) written fields

/-- What the steps of an input object write is accounted for. -/
def Accounting (s : Schema) : StepLaw := fun shape u _ _ steps _ =>
  s.AccountsFor shape.inputs u (steps.flatMap s.written)

section Objects

variable {shape : Shape} {u : Value} {n m : Nat} {p target : Plan}

theorem accountsFor_of_creates (ht : shape.type ∈ s.types)
    (h : shape.Creates s.Accounting u n p m) : s.AccountsFor shape.inputs u (s.written p) := by
  obtain ⟨steps, rfl, hsteps⟩ := h
  rw [written_createObject, List.flatMap_append, s.written_identitySteps ht, List.nil_append]
  exact hsteps

/-- Finding the object to update only reads. -/
theorem accountsFor_of_updates (htarget : target.ReadOnly)
    (h : shape.Updates s.Accounting target u n p m) :
    s.AccountsFor shape.inputs u (s.written p) := by
  obtain ⟨steps, rfl, hsteps⟩ := h
  rw [written_updateObject, s.written_of_readOnly htarget, List.nil_append]
  exact hsteps

end Objects

end Schema

/-! ### Written fields of one input -/

namespace Input

/-- A step for an input object in a value. -/
def ObjectStep (s : Schema) (i : Input) (u : Value) (p : Plan) : Prop :=
  ∃ shape, i.nestedShape? s = some shape ∧ s.AccountsFor shape.inputs u (s.written p)

/-- The steps write the fields of the input, unless it is idle, and what the steps for the input
objects in the value write. -/
def Writes (s : Schema) (i : Input) (w : Value) (steps : List Plan) : Prop :=
  ∃ plans, steps.flatMap s.written =
      (if i.isIdle w then [] else i.ownFields w) ++ plans.flatMap s.written ∧
    List.Forall₂ (i.ObjectStep s) (i.objects w) plans

/-- An input without steps has no fields of its own, nor input objects in its value. -/
theorem writes_nothing (h : i.form w = .nothing) : i.Writes s w [] := by
  have hobjects : i.objects w = [] := by
    obtain ⟨name, f, kind⟩ := i
    cases kind with
    | valueObject type list => cases list <;> simp [form, ite_eq_iff] at h
    | filter | scalar | reference | combine | createExtension | createChildren | updateExtension
    | setEdge | addChildren | updateChildren | removeChildren | addEdges | removeEdges
    | createAndAddEdges | createAndSetEdge =>
      simp_all [form, ite_eq_iff, objects, InputKind.nested?, InputKind.isList]
  have hown : (if i.isIdle w then [] else i.ownFields w) = [] := by
    rcases form_eq_nothing_iff.1 h with hfilter | hidle | hkept
    · simp [ownFields, hfilter]
    · simp [hidle]
    · simp [ownFields, hkept]
  exact ⟨[], by rw [hown]; rfl, by rw [hobjects]; exact .nil⟩

theorem ownFields_of_ne_nothing (h : i.form w ≠ .nothing) :
    (if i.isIdle w then [] else i.ownFields w) =
      i.field.id :: (i.kind.side?.bind (·.targetField)).toList := by
  have hbusy := mt form_eq_nothing_iff.2 h
  simp only [not_or, Bool.not_eq_true] at hbusy
  obtain ⟨hfilter, hidle, hkept⟩ := hbusy
  simp [ownFields, hfilter, hidle, hkept]

section Steps

variable (hown : (if i.isIdle w then [] else i.ownFields w) =
  i.field.id :: (i.kind.side?.bind (·.targetField)).toList)

include hown

/-- Storing a value writes the field and what the value writes. -/
theorem writes_set {value : Plan} (plans : List Plan) (hside : i.kind.side? = none)
    (hvalue : s.isChildIdentity i.field.id value = false)
    (hwritten : s.written value = plans.flatMap s.written)
    (hplans : List.Forall₂ (i.ObjectStep s) (i.objects w) plans) : i.Writes s w [i.set value] := by
  refine ⟨plans, ?_, hplans⟩
  rw [hown, hside, List.flatMap_singleton, set, s.written_setField hvalue, hwritten]
  rfl

/-- Storing a value that only reads writes the field. -/
theorem writes_set_readOnly {value : Plan} (hside : i.kind.side? = none)
    (hvalue : s.isChildIdentity i.field.id value = false) (hread : value.ReadOnly)
    (hobjects : i.objects w = []) : i.Writes s w [i.set value] := by
  refine writes_set hown [] hside hvalue (s.written_of_readOnly hread) ?_
  rw [hobjects]
  exact .nil

/-- Changing edges writes both their ends, the near one of which is the field. -/
theorem writes_edges (hi : s.HasInput i) {side : RelationSide} (hside : i.kind.side? = some side)
    {step : Plan} (plans : List Plan) (hstep : s.written step =
      side.sourceField.toList ++ side.targetField.toList ++ plans.flatMap s.written)
    (hplans : List.Forall₂ (i.ObjectStep s) (i.objects w) plans) : i.Writes s w [step] := by
  refine ⟨plans, ?_, hplans⟩
  rw [hown, List.flatMap_singleton, hstep, hi.sourceField hside, hside]
  rfl

end Steps

theorem readOnly_storedParts {current : Plan} (h : current.ReadOnly) :
    (i.storedParts current).ReadOnly := by
  rw [storedParts]
  split <;> simpa using h

/-! ### Steps for input objects -/

section ObjectSteps

variable {type : TypeDef} {shape : Shape} {u : Value} {n m : Nat} {p : Plan}

theorem objectStep_of_creates (hi : s.HasInput i) (hn : i.kind.nested? = some (.create, type))
    (hshape : s.shape .create type = .ok shape) (hp : shape.Creates s.Accounting u n p m) :
    i.ObjectStep s u p :=
  ⟨shape, nestedShape?_eq_some.2 ⟨.create, type, hn, hshape⟩,
    Schema.accountsFor_of_creates (hi.hasShape hn hshape).1.mem hp⟩

theorem objectStep_of_updates (hn : i.kind.nested? = some (.update, type))
    (hshape : s.shape .update type = .ok shape) {target : Plan} (htarget : target.ReadOnly)
    (hp : shape.Updates s.Accounting target u n p m) : i.ObjectStep s u p :=
  ⟨shape, nestedShape?_eq_some.2 ⟨.update, type, hn, hshape⟩,
    Schema.accountsFor_of_updates htarget hp⟩

/-- Objects that are created one after the other are the steps for the input objects in the
value. -/
theorem objectSteps_of_chain (hi : s.HasInput i) (hn : i.kind.nested? = some (.create, type))
    (hshape : s.shape .create type = .ok shape) {ps : List Plan}
    (hps : Chain (shape.Creates s.Accounting) w.items n ps m) (hobjects : i.objects w = w.items) :
    List.Forall₂ (i.ObjectStep s) (i.objects w) ps := by
  rw [hobjects]
  exact hps.forall₂ fun _ _ _ _ _ hp => objectStep_of_creates hi hn hshape hp

end ObjectSteps

/-- An input writes its own fields and what the input objects in its value write. -/
theorem Makes.writes {b : Variable} {n m : Nat} {steps : List Plan} (hi : s.HasInput i)
    (h : i.Makes s s.Accounting w (.var b) (i.form w) n steps m) : i.Writes s w steps := by
  by_cases hnothing : i.form w = .nothing
  · rw [hnothing] at h
    cases h
    exact writes_nothing hnothing
  have hown := ownFields_of_ne_nothing hnothing
  have hstored : (i.storedParts (.var b)).ReadOnly := readOnly_storedParts (Plan.readOnly_var b)
  have hcurrent : s.written (.var b) = [] := s.written_of_readOnly (Plan.readOnly_var b)
  have hliteral : s.written (.literal w) = [] := s.written_of_readOnly (Plan.readOnly_literal w)
  generalize i.form w = form at h hnothing
  cases h with
  | nothing => exact absurd rfl hnothing
  | literal _ hside hobjects =>
    exact writes_set_readOnly hown hside rfl (Plan.readOnly_literal w) hobjects
  | combine hkind =>
    exact writes_set_readOnly hown (by rw [hkind]; rfl) rfl (by simp)
      (by simp [objects, hkind, InputKind.nested?])
  | @newObject _ _ _ _ p hn hshape hp hobjects hside =>
    refine writes_set hown [p] hside (s.isChildIdentity_eq_false hp.isWrite) ?_ ?_
    · rw [List.flatMap_singleton]
    · rw [hobjects]
      exact .cons (objectStep_of_creates hi hn hshape hp) .nil
  | newObjects hn hshape hps hobjects hside =>
    have hplans := objectSteps_of_chain hi hn hshape hps hobjects
    exact writes_set hown _ hside rfl (s.written_list _) hplans
  | addChildren hn hshape hps hobjects hkind =>
    have hplans := objectSteps_of_chain hi hn hshape hps hobjects
    refine writes_set hown _ (by rw [hkind]; rfl) rfl ?_ hplans
    rw [s.written_binary, s.written_of_readOnly hstored, s.written_list, List.nil_append]
  | @updateExtension _ _ _ _ p hn hshape hp hobjects hkind =>
    refine writes_set hown [p] (by rw [hkind]; rfl) (s.isChildIdentity_eq_false hp.isWrite) ?_ ?_
    · rw [List.flatMap_singleton]
    · rw [hobjects]
      exact .cons (objectStep_of_updates hn hshape hstored hp) .nil
  | @updateChildren _ _ _ _ updates hn hshape hchain hobjects hkind =>
    refine writes_set hown (updates.map (·.2)) (by rw [hkind]; rfl) rfl ?_ ?_
    · simp [s.written_of_readOnly hstored, s.written_updateChain, List.flatMap_map]
    · rw [hobjects, List.forall₂_map_right_iff]
      exact hchain.forall₂ fun _ _ _ _ _ hupdate =>
        objectStep_of_updates hn hshape (Plan.readOnly_var _) hupdate.2
  | removeChildren hkind =>
    refine writes_set_readOnly hown (by rw [hkind]; rfl) rfl ?_
      (by simp [objects, hkind, InputKind.nested?])
    simpa [Plan.not] using hstored
  | addEdges hside hobjects =>
    refine writes_edges hown hi hside [] ?_ (by rw [hobjects]; exact .nil)
    simp [hcurrent, hliteral]
  | removeEdges hside hobjects =>
    refine writes_edges hown hi hside [] ?_ (by rw [hobjects]; exact .nil)
    simp [hcurrent, hliteral]
  | setEdge hside hobjects =>
    refine writes_edges hown hi hside [] ?_ (by rw [hobjects]; exact .nil)
    cases hnull : w.isNull <;> simp [hcurrent, hliteral]
  | createAndAddEdges hside hn hshape hps hobjects =>
    refine writes_edges hown hi hside _ ?_ (objectSteps_of_chain hi hn hshape hps hobjects)
    simp [hcurrent]
  | @createAndSetEdge _ _ _ _ _ p hside hn hshape hp hobjects =>
    refine writes_edges hown hi hside [p] ?_ ?_
    · simp [hcurrent]
    · rw [hobjects]
      exact .cons (objectStep_of_creates hi hn hshape hp) .nil

end Input

/-! ### Written fields of input objects -/

namespace Schema

/-- What an input adds to the changes of an input object is accounted for by what it touches. -/
theorem Contributes.accounted {shape : Shape} {u : Value} {b : Variable} {n m : Nat}
    {steps : List Plan} {fields : List FieldId} (hshape : s.HasShape shape) (hi : i ∈ shape.inputs)
    (h : s.Contributes s.Accounting u b i n steps m) (hfields : s.TouchedIn u i fields) :
    Accounted (s.Idle shape.inputs u) (steps.flatMap s.written) fields := by
  obtain ⟨hnone, rfl, -⟩ | ⟨w, hw, hmakes⟩ := h
  · obtain ⟨-, rfl⟩ | ⟨w, hw, -⟩ := hfields
    · exact .refl []
    · cases hnone.symm.trans hw
  obtain ⟨hnone, -⟩ | ⟨w', hw', hfields⟩ := hfields
  · cases hw.symm.trans hnone
  obtain rfl : w = w' := Option.some.inj (hw.symm.trans hw')
  obtain ⟨plans, hwritten, hplans⟩ := hmakes.writes (hshape.hasInputs i hi)
  obtain ⟨fieldss, rfl, hfieldss⟩ := Input.affected_eq_ok hfields
  rw [hwritten]
  refine Accounted.append ?_ ?_
  · by_cases hidle : i.isIdle w = true
    · rw [if_pos hidle, if_pos hidle]
      obtain ⟨hkind, hempty⟩ := Bool.and_eq_true_iff.1 hidle
      refine ⟨by simp, fun x hx => .inr ?_⟩
      rw [List.mem_singleton.1 hx]
      exact .here hi hw hkind (List.isEmpty_iff.1 hempty)
    · rw [if_neg hidle, if_neg hidle]
      exact .refl _
  · refine Accounted.flatMap ?_ hfieldss
    refine ((List.forall₂_and_left _ _).2 ⟨fun u hu => hu, hplans⟩).imp ?_
    rintro v p ⟨hv, nested, hnested, hp⟩ fields ⟨nested', hnested', hfields⟩
    obtain rfl : nested = nested' := Option.some.inj (hnested.symm.trans hnested')
    exact (hp fields hfields).mono fun x hx => .within hi hw hnested hv hx

/-- What an object writes is affected, and what is affected besides is idle. -/
theorem hereditary_accounting (s : Schema) : s.Hereditary s.Accounting := by
  refine ⟨fun {shape u b n m stepss} hshape hchain fields hfields => ?_⟩
  obtain ⟨fieldss, rfl, hfieldss⟩ := affected_eq_ok hfields
  have hsteps : List.Forall₂ (fun i steps => ∀ fields, s.TouchedIn u i fields →
      Accounted (s.Idle shape.inputs u) (steps.flatMap s.written) fields) shape.inputs stepss :=
    hchain.forall₂ fun i hi _ _ _ h _ hfields => h.accounted hshape hi hfields
  have haccounted := Accounted.flatMap hsteps hfieldss
  rw [← List.flatMap_id, List.flatMap_assoc]
  exact haccounted.eraseDups

/-! ### Affected fields are declared and named once -/

/-- The fields that an input touches itself are declared. -/
theorem own_declared (hs : s.Built) (hi : s.HasInput i) {x : FieldId}
    (hx : x ∈ if i.isIdle w then [i.field.id] else i.ownFields w) :
    ∃ f ∈ s.fields, f.id = x ∧ f.isSystem = false := by
  have hmem := hi.field_mem
  obtain ⟨role, t, -, f, -, hoffers⟩ := hi
  have hfield : i.isFilter = false → ∃ f ∈ s.fields, f.id = i.field.id ∧ f.isSystem = false :=
    fun hfilter => ⟨i.field, hmem, rfl, hoffers.field_eq ▸ hoffers.declared hfilter⟩
  split at hx
  · next hidle =>
    rw [List.mem_singleton.1 hx]
    exact hfield (Input.isFilter_of_isIdle hidle)
  · rw [Input.ownFields] at hx
    split at hx
    · simp at hx
    · next hown =>
      simp only [Bool.or_eq_true, not_or, Bool.not_eq_true] at hown
      rcases List.mem_cons.1 hx with rfl | hx
      · exact hfield hown.1
      · cases hside : i.kind.side? with
        | none => simp [hside] at hx
        | some side =>
          rw [hside] at hx
          obtain ⟨target, hrelates⟩ := hoffers.relates hside
          rw [hoffers.field_eq] at hmem
          obtain ⟨u, htarget, hanchored⟩ := hs.numbered.exists_anchoredAt hmem hrelates.side?
          obtain ⟨g, hg, rfl, hrelation⟩ := hanchored.targetField x (Option.mem_toList.1 hx)
          have hu : u ∈ s.types := mem_types_of_target? htarget
          refine ⟨g, mem_fields hu hg, rfl, ?_⟩
          -- System fields are never relations, so the far end is declared too.
          by_contra hsystem
          have hno := (hs.maintained hu hg (by simpa using hsystem)).noRelation
          rw [hrelation] at hno
          cases hno

theorem affected_declared (hs : s.Built) (v : Value) : ∀ (inputs : List Input),
    s.HasInputs inputs → ∀ fields, affected s v inputs = .ok fields →
    ∀ x ∈ fields, ∃ f ∈ s.fields, f.id = x ∧ f.isSystem = false := by
  induction v using Value.induct_object with
  | plain v hplain =>
    intro inputs _ fields hfields x hx
    cases v with
    | object => cases hplain
    | null | bool | int | float | string | list =>
      rw [← Except.ok.inj hfields] at hx
      simp at hx
  | object entries ih =>
    intro inputs hinputs fields hfields x hx
    obtain ⟨fieldss, rfl, hfieldss⟩ := affected_eq_ok hfields
    obtain ⟨own, hown, hx⟩ := List.mem_flatten.1 (List.mem_eraseDups.1 hx)
    obtain ⟨i, hi, htouched⟩ := exists_of_forall₂_of_mem hfieldss hown
    obtain ⟨-, rfl⟩ | ⟨w, hw, hown⟩ := htouched
    · simp at hx
    · have hinput := hinputs i hi
      have hih := ih _ (Entries.mem_of_get? hw)
      obtain ⟨nested, rfl, hnested⟩ := Input.affected_eq_ok hown
      rcases List.mem_append.1 hx with hx | hx
      · exact own_declared hs hinput hx
      · obtain ⟨part, hpart, hxpart⟩ := List.mem_flatten.1 hx
        obtain ⟨u, hu, shape, hshape, htouched⟩ := exists_of_forall₂_of_mem hnested hpart
        have hshapeInputs := (hinput.nestedShape hshape).2
        rcases Input.mem_objects hu with rfl | hu
        · exact hih.1 shape.inputs hshapeInputs part htouched x hxpart
        · exact hih.2 u hu shape.inputs hshapeInputs part htouched x hxpart

theorem nodup_eraseDups : ∀ fields : List FieldId, fields.eraseDups.Nodup
  | [] => List.nodup_nil
  | x :: fields => by
    rw [List.eraseDups_cons, List.nodup_cons]
    refine ⟨?_, nodup_eraseDups _⟩
    simp [List.mem_eraseDups]
termination_by fields => fields.length
decreasing_by exact Nat.lt_succ_of_le (List.length_filter_le _ _)

theorem affected_nodup {v : Value} {inputs : List Input} {fields : List FieldId}
    (h : affected s v inputs = .ok fields) : fields.Nodup := by
  obtain ⟨fieldss, rfl, -⟩ := affected_eq_ok h
  exact nodup_eraseDups _

/-! ### Mutations -/

/-- The affected fields of an object account for a plan that writes what its changes write. -/
theorem AccountsFor.accounts (hs : s.Built) {v : Value} {inputs : List Input}
    (hinputs : s.HasInputs inputs) {fields : List FieldId}
    (hfields : affected s v inputs = .ok fields) {plan : Plan}
    (h : s.AccountsFor inputs v (s.written plan)) : s.Accounts inputs v plan fields where
  nodup := affected_nodup hfields
  covers := (h fields hfields).covers
  spare := fun x hx hnot => ((h fields hfields).spare x hx).resolve_left hnot
  declared := by
    intro x hx
    obtain ⟨f, hf, rfl, hdeclared⟩ := affected_declared hs v inputs hinputs fields hfields x hx
    exact ⟨f, hs.numbered.fieldAt?_id hf, hdeclared⟩

variable {t : TypeDef}

section Mutations

variable {input : Value} {n : Nat}

theorem planCreate_accounts (hs : s.Built) (ht : t ∈ s.types) :
    (s.planCreate t input).Yields n fun m _ => ∃ shape value,
      s.prepare .create t input = .ok (shape, value) ∧
      s.Accounts shape.inputs value m.plan m.affected := by
  refine ((hereditary_accounting s).planCreate ht).imp fun m _ hplanned => ?_
  obtain ⟨shape, value, hprepare, -, hshape, hfields, hplan⟩ := hplanned
  have hwritten := accountsFor_of_creates hshape.mem hplan
  exact ⟨shape, value, hprepare, hwritten.accounts hs hshape.hasInputs hfields⟩

theorem planUpdate_accounts (hs : s.Built) (ht : t ∈ s.types) :
    (s.planUpdate t input).Yields n fun m _ => ∃ shape value,
      s.prepare .update t input = .ok (shape, value) ∧
      s.Accounts shape.inputs value m.plan m.affected := by
  refine ((hereditary_accounting s).planUpdate ht).imp fun m _ hplanned => ?_
  obtain ⟨shape, value, id, hprepare, -, hshape, hfields, hplan⟩ := hplanned
  have hwritten := accountsFor_of_updates (by simp [Plan.eq]) hplan
  exact ⟨shape, value, hprepare, hwritten.accounts hs hshape.hasInputs hfields⟩

theorem planUpdateAll_accounts (hs : s.Built) (ht : t ∈ s.types) (targets : Plan) :
    (s.planUpdateAll t input targets).Yields n fun m _ => ∃ shape value item update,
      s.prepare .updateAll t input = .ok (shape, value) ∧
      m.plan = .transformList targets item none none (some update) ∧
      s.Accounts shape.inputs value update m.affected := by
  refine ((hereditary_accounting s).planUpdateAll ht targets).imp fun m _ hplanned => ?_
  obtain ⟨shape, value, update, hprepare, -, hshape, hfields, hplan, hupdate⟩ := hplanned
  have hwritten := accountsFor_of_updates (Plan.readOnly_var _) hupdate
  exact ⟨shape, value, _, update, hprepare, hplan,
    hwritten.accounts hs hshape.hasInputs hfields⟩

end Mutations

end Schema

/-- **Affected fields account for writes.** The affected fields of a mutation are named once each,
are declared, and contain every field that its plan writes, both ends of changed edges included. A
field that is affected but not written is the field of an incremental input that is given, at some
depth of the coerced value, with no items. For many objects this is about the update of one object,
so the plan of the targets is left out. The schema need not be accepted. -/
theorem affected_fields_account_for_writes {s : Schema} (hs : s.Built) {t : TypeDef}
    (ht : t ∈ s.types) (input : Value) (supply rest : Supply) (m : Mutation) :
    ((s.planCreate t input).outcome supply = (.ok m, rest) →
      ∃ shape value, s.prepare .create t input = .ok (shape, value) ∧
        s.Accounts shape.inputs value m.plan m.affected) ∧
    ((s.planUpdate t input).outcome supply = (.ok m, rest) →
      ∃ shape value, s.prepare .update t input = .ok (shape, value) ∧
        s.Accounts shape.inputs value m.plan m.affected) ∧
    ∀ targets, (s.planUpdateAll t input targets).outcome supply = (.ok m, rest) →
      ∃ shape value item update, s.prepare .updateAll t input = .ok (shape, value) ∧
        m.plan = .transformList targets item none none (some update) ∧
        s.Accounts shape.inputs value update m.affected :=
  ⟨(Schema.planCreate_accounts hs ht).result, (Schema.planUpdate_accounts hs ht).result,
    fun targets => (Schema.planUpdateAll_accounts hs ht targets).result⟩

/-- In the shop, moving an order to another customer writes both ends of the edge. Removing no items
from it writes nothing, but the field of the items is affected. -/
theorem shop_order_update_accounts : ∃ order ∈ shop.schema.types, order.name = "Order" ∧
    ∃ (input : Value) (m : Mutation) (rest : Supply) (shape : Shape) (value : Value),
      (shop.schema.planUpdate order input).outcome ⟨0⟩ = (.ok m, rest) ∧
      shop.schema.written m.plan = [⟨11⟩, ⟨4⟩] ∧ m.affected = [⟨11⟩, ⟨4⟩, ⟨13⟩] ∧
      shop.schema.prepare .update order input = .ok (shape, value) ∧
      shop.schema.Accounts shape.inputs value m.plan m.affected := by
  have hs : shop.schema.Built := (SchemaDecl.lawful_of_accept accept_shopDecl).built
  have ht : shop.schema.types.get ⟨8, by decide⟩ ∈ shop.schema.types := List.get_mem _ _
  let input : Value := .object
    [("customer", .string "c2"), ("id", .string "o1"), ("removeItems", .list [])]
  have hplanned : ∃ m rest,
      (shop.schema.planUpdate (shop.schema.types.get ⟨8, by decide⟩) input).outcome ⟨0⟩ =
        (.ok m, rest) ∧
      shop.schema.written m.plan = [⟨11⟩, ⟨4⟩] ∧ m.affected = [⟨11⟩, ⟨4⟩, ⟨13⟩] :=
    ⟨_, _, rfl, rfl, rfl⟩
  obtain ⟨m, rest, hupdate, hwritten, haffected⟩ := hplanned
  obtain ⟨shape, value, hprepare, haccounts⟩ :=
    (affected_fields_account_for_writes hs ht input ⟨0⟩ rest m).2.1 hupdate
  exact ⟨_, ht, rfl, input, m, rest, shape, value, hupdate, hwritten, haffected, hprepare,
    haccounts⟩

end EntityGraph
