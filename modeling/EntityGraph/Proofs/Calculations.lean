import EntityGraph.Proofs.NormalForms

/-!
# Calculations

An input that combines a supplied value with the stored one makes a calculation. Where such
calculations stand in a mutation, and what they calculate with: each is the value that a change
stores in a field, the change is one of an object that is updated, and the calculation takes what
that object has in the same field and a literal of the type of the field.

Several stages have to agree for this. Operators are declared for fields whose type has them, which
the checks of a schema see to. Only updates offer them. The supplied value is coerced to the type of
the field and is not null. That the coerced value belongs to the input that plans it needs distinct
names. Declared defaults are not coerced, but they occur in new objects only, and new objects have
no calculations, at any depth.

## Main definitions

* `CalcOperator.Takes` — the operands of an operator for fields of a type
* `Schema.Calculates` — changes that store a calculation
* `Schema.CalculationsInPlace` — everywhere in a plan, calculations stand in such changes
* `Schema.Supplied` — values of new objects and coerced values

## Main results

* `Schema.CalculationsInPlace.of_parts`, `Schema.CalculationsInPlace.update` — from parts to plans
* `Schema.Lawful.stable_calculating` — the steps of supplied input objects
* `calculations_typed` — calculations in mutations of accepted schemas
-/

namespace EntityGraph

/-! ### Operators and operands -/

/-- Whether the operator applies to numbers. -/
def CalcOperator.isArithmetic : CalcOperator → Bool
  | multiply | divide | add | subtract | modulo => true
  | append | prepend => false

/-- The values that an operator takes for fields of the type with the given name: numbers of the
type for arithmetic, and texts for the others. -/
inductive CalcOperator.Takes (op : CalcOperator) : String → Value → Prop
  | int (h : op.isArithmetic = true) (n : Int64) : Takes op "Int" (.int n)
  | float (h : op.isArithmetic = true) (x : Float) : Takes op "Float" (.float x)
  | string (h : op.isArithmetic = false) (text : String) : Takes op "String" (.string text)

/-- A type that has an operator holds values that the operator takes. -/
theorem CalcOperator.takes_of_holds {op : CalcOperator} {type : TypeDef} {v : Value}
    (hsupports : op.supports type.name = true) (hscalar : type.kind = .scalar)
    (h : type.holds v = true) : op.Takes type.name v := by
  rw [TypeDef.holds, if_neg (by simp [hscalar])] at h
  have hname : type.name ∈ op.typeNames := List.contains_iff_mem.1 hsupports
  generalize type.name = name at *
  have hnumber : op.isArithmetic = true → name = "Int" ∨ name = "Float" := by
    intro hop
    cases op <;> simp_all [isArithmetic, typeNames]
  have htext : op.isArithmetic = false → name = "String" := by
    intro hop
    cases op <;> simp_all [isArithmetic, typeNames]
  cases hop : op.isArithmetic with
  | true =>
    rcases hnumber hop with rfl | rfl
    · cases v with
      | int n => exact .int hop n
      | null | bool | float | string | list | object => cases h
    · cases v with
      | float x => exact .float hop x
      | null | bool | int | string | list | object => cases h
  | false =>
    obtain rfl := htext hop
    cases v with
    | string text => exact .string hop text
    | null | bool | int | float | list | object => cases h

/-- Whether the operator is one that calculations use. -/
def BinaryOperator.isCalc : BinaryOperator → Bool
  | .add | .subtract | .multiply | .divide | .modulo | .append | .prepend => true
  | _ => false

/-! ### Places of calculations -/

namespace Plan

/-- Whether the outermost step of a plan is a calculation. -/
def isCalculation : Plan → Bool
  | .binary op _ _ => op.isCalc
  | _ => false

/-- Whether the outermost step of a plan stores a calculation. -/
def storesCalculation : Plan → Bool
  | .setField _ _ value => value.isCalculation
  | _ => false

/-- Whether nothing in a plan is a calculation. -/
def isUncalculated (p : Plan) : Bool := p.nodes.all fun q => !q.isCalculation

theorem isUncalculated_iff {p : Plan} : p.isUncalculated = true ↔
    p.isCalculation = false ∧ ∀ q ∈ p.parts, q.isUncalculated = true := by
  simp only [isUncalculated, List.all_eq_true, Bool.not_eq_true']
  exact forall_nodes_iff

end Plan

namespace Schema

/-- The change stores a calculation from what the object that the variable is bound to has in the
same field, which holds one value, and from a literal that the operator takes for its type. -/
inductive Calculates (s : Schema) (b : Variable) : Plan → Prop
  | intro {f : FieldDef} {op : CalcOperator} {v : Value} (hf : f ∈ s.fields)
      (hlist : f.isList = false) (hv : op.Takes f.typeName v) : Calculates s b
        (.setField f.id f.name (.binary (.ofCalc op) (.field (.var b) f.id f.name) (.literal v)))

/-- The parts of a step that are calculations are what it stores, and those that store one are
changes of the object that it updates. -/
structure PlacesCalculations (s : Schema) (q : Plan) : Prop where
  stored : ∀ c ∈ q.parts, c.isCalculation = true → ∃ f name, q = .setField f name c
  changed : ∀ c ∈ q.parts, c.storesCalculation = true →
    ∃ target b steps, q = .updateObject target b steps ∧ c ∈ steps ∧ s.Calculates b c

/-- Everywhere in the plan, calculations are stored by the changes of objects that are updated. The
plan itself is neither a calculation nor such a change, so this is about all of them. -/
structure CalculationsInPlace (s : Schema) (p : Plan) : Prop where
  notCalculation : p.isCalculation = false
  notStored : p.storesCalculation = false
  places : ∀ q ∈ p.nodes, s.PlacesCalculations q

variable {s : Schema} {b : Variable} {p c : Plan}

theorem Calculates.isCalculation (h : s.Calculates b c) : c.isCalculation = false := by
  cases h
  rfl

namespace CalculationsInPlace

/-- A step that is no calculation has calculations in place if all its parts have. -/
theorem of_parts (h : p.isCalculation = false) (hparts : ∀ q ∈ p.parts, s.CalculationsInPlace q) :
    s.CalculationsInPlace p := by
  refine ⟨h, ?_, Plan.forall_nodes_iff.2 ⟨⟨?_, ?_⟩, fun q hq => (hparts q hq).places⟩⟩
  · cases p with
    | setField f name value => exact (hparts value List.mem_cons_self).notCalculation
    | _ => rfl
  · intro c hc hcalculation
    rw [(hparts c hc).notCalculation] at hcalculation
    cases hcalculation
  · intro c hc hstores
    rw [(hparts c hc).notStored] at hstores
    cases hstores

theorem of_isUncalculated (h : p.isUncalculated = true) : s.CalculationsInPlace p := by
  induction p using Plan.induct_parts with
  | step p ih =>
    obtain ⟨hown, hparts⟩ := Plan.isUncalculated_iff.1 h
    exact .of_parts hown fun q hq => ih q hq (hparts q hq)

theorem pair {q r : Plan} (hparts : p.parts = [q, r]) (h : p.isCalculation = false)
    (hq : s.CalculationsInPlace q) (hr : s.CalculationsInPlace r) : s.CalculationsInPlace p := by
  refine .of_parts h ?_
  rw [hparts]
  exact List.forall_mem_cons.2 ⟨hq, List.forall_mem_singleton.2 hr⟩

theorem set {i : Input} {value : Plan} (h : s.CalculationsInPlace value) :
    s.CalculationsInPlace (i.set value) :=
  .of_parts rfl (List.forall_mem_singleton.2 h)

end CalculationsInPlace

/-- The calculation in a change has nothing to place but itself. -/
theorem Calculates.places (h : s.Calculates b c) : ∀ q ∈ c.nodes, s.PlacesCalculations q := by
  cases h with
  | @intro f op v =>
    have hread : s.CalculationsInPlace (.field (.var b) f.id f.name) := .of_isUncalculated rfl
    have hliteral : s.CalculationsInPlace (.literal v) := .of_isUncalculated rfl
    refine Plan.forall_nodes_iff.2 ⟨⟨?_, ?_⟩, List.forall_mem_singleton.2 ?_⟩
    · exact List.forall_mem_singleton.2 fun _ => ⟨_, _, rfl⟩
    · exact List.forall_mem_singleton.2 nofun
    · refine Plan.forall_nodes_iff.2 ⟨⟨?_, ?_⟩, ?_⟩
      · exact List.forall_mem_cons.2 ⟨nofun, List.forall_mem_singleton.2 nofun⟩
      · exact List.forall_mem_cons.2 ⟨nofun, List.forall_mem_singleton.2 nofun⟩
      · exact List.forall_mem_cons.2 ⟨hread.places, List.forall_mem_singleton.2 hliteral.places⟩

/-- An object is updated with changes that have calculations in place or store one. -/
theorem CalculationsInPlace.update {target : Plan} {steps : List Plan}
    (htarget : s.CalculationsInPlace target)
    (hsteps : ∀ c ∈ steps, s.CalculationsInPlace c ∨ s.Calculates b c) :
    s.CalculationsInPlace (.updateObject target b steps) := by
  refine ⟨rfl, rfl, Plan.forall_nodes_iff.2 ⟨⟨?_, ?_⟩, ?_⟩⟩
  · refine List.forall_mem_cons.2 ⟨fun h => ?_, fun c hc h => ?_⟩
    · rw [htarget.notCalculation] at h
      cases h
    · have hnone : c.isCalculation = false :=
        (hsteps c hc).elim (·.notCalculation) (·.isCalculation)
      rw [hnone] at h
      cases h
  · refine List.forall_mem_cons.2 ⟨fun h => ?_, fun c hc h => ?_⟩
    · rw [htarget.notStored] at h
      cases h
    · refine ⟨target, b, steps, rfl, hc, (hsteps c hc).resolve_left fun hplace => ?_⟩
      rw [hplace.notStored] at h
      cases h
  · refine List.forall_mem_cons.2 ⟨htarget.places, fun c hc => ?_⟩
    exact (hsteps c hc).elim (·.places) (·.places)

/-! ### Coerced values -/

/-- The value is that of a new object, or it was coerced. Only the former have defaults. -/
def Supplied (s : Schema) (shape : Shape) (u : Value) : Prop :=
  shape.role = .create ∨ ∃ raw, coerceObject s shape raw = .ok u

variable {shape nested : Shape} {i : Input} {u v w raw : Value} {type : TypeDef}
  {op : CalcOperator} {role : Role} {n m : Nat}

/-- What an update gives to an input was coerced by the input. -/
theorem NamesDistinct.exists_coerce (hnames : s.NamesDistinct) (hshape : s.HasShape shape)
    (hrole : shape.role ≠ .create) (hi : i ∈ shape.inputs) (h : coerceObject s shape raw = .ok u)
    (hw : u.get? i.name = some w) : ∃ v, i.coerce s v = .ok w := by
  cases raw with
  | null | bool | int | float | string | list => cases h
  | object entries =>
    rw [coerceObject] at h
    obtain ⟨coerced, hcoerced, hcomplete⟩ := bind_eq_ok.1 h
    obtain ⟨-, -, rfl⟩ := Shape.complete_eq_ok_iff.1 hcomplete
    rcases Shape.mem_fillDefaults (Entries.mem_of_get? hw) with he | ⟨j, -, -, hd⟩
    · obtain ⟨v, -, j, hj, hv, -⟩ := exists_entry_of_coerceEntries hcoerced he
      obtain rfl : i = j :=
        Option.some.inj ((Shape.input?_of_mem (hnames.nodup hshape) hi).symm.trans hj)
      exact ⟨v, hv⟩
    · exact absurd (Input.default?_eq_some hd).1 hrole

/-- Nested input objects that are not for new objects are inputs of updates. -/
theorem Offers.ne_create_of_nested {f : FieldDef} {nestedRole : Role} (h : s.Offers role f i)
    (hn : i.kind.nested? = some (nestedRole, type)) (hnested : nestedRole ≠ .create) :
    role ≠ .create := by
  cases h with
  | updateExtension _ _ hrole | updateChildren _ _ hrole => exact hrole
  | filter | reference | scalar | combine | removeChildren | initialEdges | addEdges | removeEdges
  | setEdge => cases hn
  | valueObject | createExtension | createChildren | addChildren | createAndAddEdges
  | createAndSetEdge =>
    cases hn
    exact absurd rfl hnested

/-- The input objects in a supplied value are supplied. -/
theorem NamesDistinct.supplied_nested (hnames : s.NamesDistinct) (hshape : s.HasShape shape)
    (hi : i ∈ shape.inputs) (hu : s.Supplied shape u) (hw : u.get? i.name = some w)
    (hn : i.kind.nested? = some (role, type)) (hmade : s.shape role type = .ok nested)
    (hv : v ∈ i.objects w) : s.Supplied nested v := by
  by_cases hnew : role = .create
  · exact .inl ((role_of_shape hmade).trans hnew)
  · have hrole : shape.role ≠ .create := (hshape.offers hi).2.ne_create_of_nested hn hnew
    obtain ⟨raw, hraw⟩ := hu.resolve_left hrole
    obtain ⟨given, hgiven⟩ := hnames.exists_coerce hshape hrole hi hraw hw
    obtain ⟨inner, -, hinner⟩ :=
      Input.exists_supplied hgiven (Input.nestedShape?_eq_some.2 ⟨role, type, hn, hmade⟩) hv
    exact .inr ⟨inner, hinner⟩

/-- Inputs that combine values are those of updates, for fields with operators. -/
theorem Offers.combine_inv {f : FieldDef} (h : s.Offers role f i)
    (hkind : i.kind = .combine type op) :
    s.Embeds f type ∧ role ≠ .create ∧ f.isList = false ∧ op ∈ f.operators := by
  cases h with
  | combine hembeds _ hrole hlist hop =>
    cases hkind
    exact ⟨hembeds, hrole, hlist, hop⟩
  | filter | reference | scalar | valueObject | createExtension | updateExtension | createChildren
  | addChildren | updateChildren | removeChildren | initialEdges | addEdges | removeEdges
  | createAndAddEdges | setEdge | createAndSetEdge => cases hkind

/-- An input that combines values takes what its operator takes for the type of the field. -/
theorem Lawful.takes_of_coerce (hs : s.Lawful) (hshape : s.HasShape shape) (hi : i ∈ shape.inputs)
    (hkind : i.kind = .combine type op) (h : i.coerce s v = .ok w) :
    i.field.isList = false ∧ op.Takes i.field.typeName w := by
  have hinput := hshape.hasInputs i hi
  have hfits : (!w.isNull && type.admits w) = true := by
    have hkept : i.isNoChange w = false := by rw [Input.isNoChange, hkind]
    have hfits := Input.fits_of_coerce hs hinput h hkept fun nested hnested => by
      obtain ⟨role, target, hn, -⟩ := Input.nestedShape?_eq_some.1 hnested
      rw [hkind] at hn
      cases hn
    rwa [Input.fits, hkind] at hfits
  obtain ⟨hfield, hoffers⟩ := hshape.offers hi
  obtain ⟨hembeds, -, hlist, hop⟩ := hoffers.combine_inv hkind
  obtain ⟨target, htarget, hrules⟩ := hs.typedRules hshape.mem hfield hembeds.declared
  obtain rfl : target = type := Option.some.inj (htarget.symm.trans hembeds.target?)
  have hscalar : target.kind = .scalar := (hs.scalar_of_operators hshape.mem hfield
    hembeds.declared htarget (List.ne_nil_of_mem hop)).1
  rw [Bool.and_eq_true, Bool.not_eq_true', TypeDef.admits, Bool.or_eq_true] at hfits
  obtain ⟨hnull, hadmits⟩ := hfits
  have hholds : target.holds w = true := hadmits.resolve_left (by simp [hnull])
  refine ⟨hlist, ?_⟩
  rw [← name_of_type? htarget]
  exact CalcOperator.takes_of_holds (hrules.operators.supported op hop) hscalar hholds

/-- The steps of an input that combines values store a calculation. -/
theorem Lawful.calculates (hs : s.Lawful) (hnames : s.NamesDistinct) (hshape : s.HasShape shape)
    (hi : i ∈ shape.inputs) (hu : s.Supplied shape u) (hw : u.get? i.name = some w)
    (hkind : i.kind = .combine type op) : shape.role ≠ .create ∧ s.Calculates b
      (i.set (.binary (.ofCalc op) (.field (.var b) i.field.id i.field.name) (.literal w))) := by
  obtain ⟨-, hrole, -⟩ := (hshape.offers hi).2.combine_inv hkind
  obtain ⟨raw, hraw⟩ := hu.resolve_left hrole
  obtain ⟨given, hgiven⟩ := hnames.exists_coerce hshape hrole hi hraw hw
  obtain ⟨hlist, htakes⟩ := hs.takes_of_coerce hshape hi hkind hgiven
  exact ⟨hrole, .intro (hshape.hasInputs i hi).field_mem hlist htakes⟩

/-! ### Steps of input objects -/

/-- For supplied values, calculations are in place in every step, apart from the steps that store
one. For new objects there are no such steps. -/
def Calculating (s : Schema) : StepLaw := fun shape u b _ steps _ =>
  s.Supplied shape u →
    ∀ c ∈ steps, s.CalculationsInPlace c ∨ shape.role ≠ .create ∧ s.Calculates b c

namespace CalculationsInPlace

theorem of_creates (hrole : shape.role = .create) (h : shape.Creates s.Calculating u n p m) :
    s.CalculationsInPlace p := by
  obtain ⟨steps, rfl, hsteps⟩ := h
  refine .of_parts rfl (List.forall_mem_append.2 ⟨?_, fun c hc => ?_⟩)
  · rw [Shape.identitySteps]
    split
    · split
      · exact List.forall_mem_singleton.2 (.of_isUncalculated rfl)
      · simp
    · simp
  · exact (hsteps (.inl hrole) c hc).resolve_right fun hcalculates => hcalculates.1 hrole

theorem of_updates {target : Plan} (htarget : s.CalculationsInPlace target)
    (hu : s.Supplied shape u) (h : shape.Updates s.Calculating target u n p m) :
    s.CalculationsInPlace p := by
  obtain ⟨steps, rfl, hsteps⟩ := h
  exact htarget.update fun c hc => (hsteps hu c hc).imp_right And.right

theorem list {us : List Value} {ps : List Plan} (hmade : s.shape .create type = .ok shape)
    (h : Chain (shape.Creates s.Calculating) us n ps m) : s.CalculationsInPlace (.list ps) := by
  refine .of_parts rfl fun p hp => ?_
  obtain ⟨u, -, k, l, hcreates⟩ := h.exists_of_mem hp
  exact .of_creates (role_of_shape hmade) hcreates

theorem storedParts (i : Input) (b : Variable) :
    s.CalculationsInPlace (i.storedParts (.var b)) := by
  rw [Input.storedParts]
  cases i.field.isList with
  | true => exact .of_isUncalculated rfl
  | false => exact .of_isUncalculated rfl

theorem chain {child : Variable} {updates : List (Value × Plan)}
    (h : ∀ update ∈ updates, s.CalculationsInPlace update.2) :
    s.CalculationsInPlace (updateChain child updates) := by
  induction updates with
  | nil => exact .of_isUncalculated rfl
  | cons update rest ih =>
    obtain ⟨hfirst, hrest⟩ := List.forall_mem_cons.1 h
    refine .of_parts rfl (List.forall_mem_cons.2 ⟨.of_isUncalculated rfl, ?_⟩)
    exact List.forall_mem_cons.2 ⟨hfirst, List.forall_mem_singleton.2 (ih hrest)⟩

end CalculationsInPlace

/-- Input objects of a lawful schema with distinct names have their calculations in place. -/
theorem Lawful.stable_calculating (hs : s.Lawful) (hnames : s.NamesDistinct) :
    s.Stable s.Calculating where
  nil := by simp [Calculating]
  append := fun hx hy hu => List.forall_mem_append.2 ⟨hx hu, hy hu⟩
  input := by
    intro shape u w b n m i form steps hshape hi hw hmakes hu
    have hstored : s.CalculationsInPlace (i.storedParts (.var b)) := .storedParts i b
    have hvar : s.CalculationsInPlace (.var b) := .of_isUncalculated rfl
    have hliteral : s.CalculationsInPlace (.literal w) := .of_isUncalculated rfl
    cases hmakes with
    | nothing => simp
    | literal => exact List.forall_mem_singleton.2 (.inl hliteral.set)
    | combine hkind =>
      exact List.forall_mem_singleton.2 (.inr (hs.calculates hnames hshape hi hu hw hkind))
    | newObject _ hmade hp =>
      exact List.forall_mem_singleton.2 (.inl (.set (.of_creates (role_of_shape hmade) hp)))
    | newObjects _ hmade hps => exact List.forall_mem_singleton.2 (.inl (.set (.list hmade hps)))
    | addChildren _ hmade hps =>
      exact List.forall_mem_singleton.2 (.inl (.set (.pair rfl rfl hstored (.list hmade hps))))
    | updateExtension hn hmade hp hobjects =>
      have hnested := hnames.supplied_nested hshape hi hu hw hn hmade (v := w) (by simp [hobjects])
      exact List.forall_mem_singleton.2 (.inl (.set (.of_updates hstored hnested hp)))
    | updateChildren hn hmade hupdates hobjects =>
      refine List.forall_mem_singleton.2 (.inl (.set (.pair rfl rfl hstored (.chain ?_))))
      intro update hupdate
      obtain ⟨v, hv, k, l, -, hplan⟩ := hupdates.exists_of_mem hupdate
      rw [← hobjects] at hv
      have hnested := hnames.supplied_nested hshape hi hu hw hn hmade hv
      exact .of_updates (.of_isUncalculated rfl) hnested hplan
    | removeChildren =>
      refine List.forall_mem_singleton.2 (.inl (.set (.pair rfl rfl hstored ?_)))
      exact .of_isUncalculated rfl
    | addEdges | removeEdges =>
      exact List.forall_mem_singleton.2 (.inl (.pair rfl rfl hvar hliteral))
    | setEdge =>
      refine List.forall_mem_singleton.2 (.inl ?_)
      split
      · exact .of_parts rfl (List.forall_mem_singleton.2 hvar)
      · exact .pair rfl rfl hvar hliteral
    | createAndAddEdges _ _ hmade hps =>
      exact List.forall_mem_singleton.2 (.inl (.pair rfl rfl hvar (.list hmade hps)))
    | createAndSetEdge _ _ hmade hp =>
      refine List.forall_mem_singleton.2 (.inl (.pair rfl rfl hvar ?_))
      exact .of_creates (role_of_shape hmade) hp

end Schema

/-! ### Mutations -/

/-- **Calculations are well typed.** In an accepted schema with distinct names of inputs, every
calculation of a mutation is stored by a change of an object that is updated. It takes what that
object has in the field that is changed, which holds one value, and a literal: a number of the type
of the field for arithmetic, a text for the operators on texts. -/
theorem calculations_typed {d : SchemaDecl} {a : AcceptedSchema} (h : d.accept = .ok a)
    (hnames : a.schema.NamesDistinct) {t : TypeDef} (ht : t ∈ a.schema.types) (input : Value)
    (supply rest : Supply) (result : Mutation) :
    ((a.schema.planCreate t input).outcome supply = (.ok result, rest) →
      a.schema.CalculationsInPlace result.plan) ∧
    ((a.schema.planUpdate t input).outcome supply = (.ok result, rest) →
      a.schema.CalculationsInPlace result.plan) ∧
    ∀ targets, (a.schema.planUpdateAll t input targets).outcome supply = (.ok result, rest) →
      ∃ item update, result.plan = .transformList targets item none none (some update) ∧
        a.schema.CalculationsInPlace update := by
  have hstable := (SchemaDecl.lawful_of_accept h).stable_calculating hnames
  refine ⟨fun hp => ?_, fun hp => ?_, fun targets hp => ?_⟩
  · obtain ⟨shape, value, hprepare, -, -, -, hplan⟩ := hstable.hereditary.planCreate ht _ _ hp
    exact .of_creates (Schema.role_of_shape (Schema.prepare_eq_ok hprepare).1) hplan
  · obtain ⟨shape, value, id, hprepare, -, -, -, hplan⟩ := hstable.hereditary.planUpdate ht _ _ hp
    have hsupplied : a.schema.Supplied shape value :=
      .inr ⟨input, (Schema.prepare_eq_ok hprepare).2⟩
    exact .of_updates (.of_isUncalculated rfl) hsupplied hplan
  · obtain ⟨shape, value, update, hprepare, -, -, -, hplan, hupdate⟩ :=
      hstable.hereditary.planUpdateAll ht targets _ _ hp
    have hsupplied : a.schema.Supplied shape value :=
      .inr ⟨input, (Schema.prepare_eq_ok hprepare).2⟩
    exact ⟨_, update, hplan, .of_updates (.of_isUncalculated rfl) hsupplied hupdate⟩

/-- Accounts with entries, and calculations on a number of each type and on a text. -/
def ledgerDecl : SchemaDecl where
  profiles := [.named defaultProfileName]
  types :=
    [(TypeDecl.named "Account" .rootEntity)
        |>.withField ((FieldDecl.named "balance" "Float").withCalc "MULTIPLY")
        |>.withField ((FieldDecl.named "note" "String").withCalc "APPEND")
        |>.withField ((FieldDecl.named "entries" "Entry").asList),
      (TypeDecl.named "Entry" .childEntity)
        |>.withField ((FieldDecl.named "amount" "Int").withCalc "ADD")]

/-- The ledger. -/
def ledger : AcceptedSchema := ⟨(Schema.ofDecl ledgerDecl).toOption.getD .initial, by decide⟩

/-- In the ledger, an account is created with an entry, and nothing is calculated. In account 1 the
balance is multiplied by a whole number, the note gets longer and the amount of an entry larger, all
in one update. The same update applies to all accounts. -/
theorem ledger_account_calculations : ∃ account ∈ ledger.schema.types, account.name = "Account" ∧
    (∃ (input : Value) (result : Mutation) (m : Nat),
      (ledger.schema.planCreate account input).outcome ⟨0⟩ = (.ok result, ⟨m⟩) ∧
      result.plan.nodes.countP (·.isCalculation) = 0 ∧
      ledger.schema.CalculationsInPlace result.plan) ∧
    (∃ (input : Value) (result : Mutation) (m : Nat),
      (ledger.schema.planUpdate account input).outcome ⟨0⟩ = (.ok result, ⟨m⟩) ∧
      result.plan.nodes.countP (·.isCalculation) = 3 ∧
      ledger.schema.CalculationsInPlace result.plan) ∧
    ∃ (input : Value) (result : Mutation) (m : Nat),
      (ledger.schema.planUpdateAll account input (.entities account.id)).outcome ⟨0⟩ =
        (.ok result, ⟨m⟩) ∧
      result.plan.nodes.countP (·.isCalculation) = 3 ∧
      ∃ item update, result.plan =
          .transformList (.entities account.id) item none none (some update) ∧
        ledger.schema.CalculationsInPlace update := by
  have ht : ledger.schema.types.get ⟨7, by decide⟩ ∈ ledger.schema.types := List.get_mem _ _
  let opened : Value := .object
    [("balance", .int 5), ("entries", .list [.object [("amount", .int 1)]])]
  let changed : Entries :=
    [("appendToNote", .string "!"), ("multiplyWithBalance", .int 2),
      ("updateEntries", .list [.object [("id", .string "e1"), ("increaseByAmount", .int 3)]])]
  have hcreate : ∃ result m, (ledger.schema.planCreate (ledger.schema.types.get ⟨7, by decide⟩)
      opened).outcome ⟨0⟩ = (.ok result, ⟨m⟩) ∧
        (result.plan.nodes.countP (·.isCalculation) == 0) = true :=
    Planner.exists_result (by decide +kernel)
  have hupdate : ∃ result m, (ledger.schema.planUpdate (ledger.schema.types.get ⟨7, by decide⟩)
      (.object (changed.insert "id" (.string "a1")))).outcome ⟨0⟩ = (.ok result, ⟨m⟩) ∧
        (result.plan.nodes.countP (·.isCalculation) == 3) = true :=
    Planner.exists_result (by decide +kernel)
  have hupdateAll : ∃ result m, (ledger.schema.planUpdateAll
      (ledger.schema.types.get ⟨7, by decide⟩) (.object changed)
      (.entities (ledger.schema.types.get ⟨7, by decide⟩).id)).outcome ⟨0⟩ = (.ok result, ⟨m⟩) ∧
        (result.plan.nodes.countP (·.isCalculation) == 3) = true :=
    Planner.exists_result (by decide +kernel)
  obtain ⟨created, m₁, hcreate, hcreated⟩ := hcreate
  obtain ⟨updated, m₂, hupdate, hupdated⟩ := hupdate
  obtain ⟨allUpdated, m₃, hupdateAll, hallUpdated⟩ := hupdateAll
  have haccept : ledgerDecl.accept = .ok ledger := rfl
  have hnames : ledger.schema.NamesDistinct := by decide
  have htyped := fun input m => calculations_typed haccept hnames ht input ⟨0⟩ ⟨m⟩
  exact ⟨_, ht, rfl,
    ⟨_, created, m₁, hcreate, beq_iff_eq.1 hcreated, (htyped _ m₁ created).1 hcreate⟩,
    ⟨_, updated, m₂, hupdate, beq_iff_eq.1 hupdated, (htyped _ m₂ updated).2.1 hupdate⟩,
    ⟨_, allUpdated, m₃, hupdateAll, beq_iff_eq.1 hallUpdated,
      (htyped _ m₃ allUpdated).2.2 _ hupdateAll⟩⟩

end EntityGraph
