import EntityGraph.Input.Mutation
import EntityGraph.Proofs.Reading

/-!
# The inputs of shapes

`Schema.Offers` is the table of inputs: one constructor for each way in which a shape lets a field
be written, with the conditions under which it does. It holds for any schema, and everything that is
proved about the inputs of a shape starts from it. Below it stands the same for nested inputs, which
belong to the shapes of other types.

In a lawful schema the rows of the table cover every declared field, so every object type has its
three shapes, and the types of nested inputs are object types again.

## Main definitions

* `Schema.Embeds`, `Schema.Relates`, `Schema.Refers` — what a field is, with its type
* `Schema.Offers` — the inputs of a field in a shape of the given role
* `Schema.HasInput`, `Schema.HasInputs` — the inputs of all shapes of a schema
* `Accepted.nested?` — the shape of input objects that a description speaks of

## Main results

* `Schema.offers_of_mem_fieldInputs`, `Schema.exists_offers_of_mem_shape` — inputs are in the table
* `InputKind.isList_iff_accepted`, `Schema.HasInput.nested?_accepted` — the table of what inputs are
  told to accept agrees with those of what they take
* `Schema.Lawful.exists_shape` — every object type of a lawful schema has a shape
* `Schema.Lawful.exists_nested_shape` — and so has the type of every nested input
-/

namespace EntityGraph

namespace Schema

variable {s : Schema} {role : Role} {f : FieldDef} {t target : TypeDef} {i : Input}

/-! ### The table -/

/-- A declared field that holds values of `target` itself. -/
structure Embeds (s : Schema) (f : FieldDef) (target : TypeDef) : Prop where
  declared : f.isSystem = false
  target? : s.target? f = some target
  noRelation : f.isRelation = false
  noReference : f.isReference = false

/-- A declared relation field that leads to `target` and sees its relation from `side`. -/
structure Relates (s : Schema) (f : FieldDef) (side : RelationSide) (target : TypeDef) : Prop where
  declared : f.isSystem = false
  target? : s.target? f = some target
  isRelation : f.isRelation = true
  side? : s.relationSide? f = some side

/-- A declared reference field to entities with keys of `keyType`. -/
structure Refers (s : Schema) (f : FieldDef) (keyType : TypeDef) : Prop where
  declared : f.isSystem = false
  noRelation : f.isRelation = false
  isReference : f.isReference = true
  key : ∃ target, s.target? f = some target ∧ s.keyType? target = some keyType

/-- The inputs of a field in a shape of the given role. -/
inductive Offers (s : Schema) : Role → FieldDef → Input → Prop
  | filter {f : FieldDef} (hidentity : f.isIdentity = true) :
    Offers s .update f ⟨f.name, f, .filter⟩
  | reference {role : Role} {f : FieldDef} {keyType : TypeDef} (h : s.Refers f keyType) :
    Offers s role f ⟨f.name, f, .reference keyType⟩
  | scalar {role : Role} {f : FieldDef} {type : TypeDef} (h : s.Embeds f type)
      (hkind : type.kind.isPlain = true) : Offers s role f ⟨f.name, f, .scalar type f.isList⟩
  | combine {role : Role} {f : FieldDef} {type : TypeDef} {op : CalcOperator} (h : s.Embeds f type)
      (hkind : type.kind.isPlain = true) (hrole : role ≠ .create) (hlist : f.isList = false)
      (hop : op ∈ f.operators) : Offers s role f ⟨op.inputName f.name, f, .combine type op⟩
  | valueObject {role : Role} {f : FieldDef} {type : TypeDef} (h : s.Embeds f type)
      (hkind : type.kind = .valueObject) :
    Offers s role f ⟨f.name, f, .valueObject type f.isList⟩
  | createExtension {f : FieldDef} {type : TypeDef} (h : s.Embeds f type)
      (hkind : type.kind = .entityExtension) (hlist : f.isList = false) :
    Offers s .create f ⟨f.name, f, .createExtension type⟩
  | updateExtension {role : Role} {f : FieldDef} {type : TypeDef} (h : s.Embeds f type)
      (hkind : type.kind = .entityExtension) (hrole : role ≠ .create) (hlist : f.isList = false) :
    Offers s role f ⟨f.name, f, .updateExtension type⟩
  | createChildren {f : FieldDef} {type : TypeDef} (h : s.Embeds f type)
      (hkind : type.kind = .childEntity) (hlist : f.isList = true) :
    Offers s .create f ⟨f.name, f, .createChildren type⟩
  | addChildren {role : Role} {f : FieldDef} {type : TypeDef} (h : s.Embeds f type)
      (hkind : type.kind = .childEntity) (hrole : role ≠ .create) (hlist : f.isList = true) :
    Offers s role f ⟨"add" ++ capitalize f.name, f, .addChildren type⟩
  | updateChildren {role : Role} {f : FieldDef} {type : TypeDef} (h : s.Embeds f type)
      (hkind : type.kind = .childEntity) (hrole : role ≠ .create) (hlist : f.isList = true) :
    Offers s role f ⟨"update" ++ capitalize f.name, f, .updateChildren type⟩
  | removeChildren {role : Role} {f : FieldDef} {type : TypeDef} (h : s.Embeds f type)
      (hkind : type.kind = .childEntity) (hrole : role ≠ .create) (hlist : f.isList = true) :
    Offers s role f ⟨"remove" ++ capitalize f.name, f, .removeChildren type⟩
  | initialEdges {f : FieldDef} {side : RelationSide} {target : TypeDef}
      (h : s.Relates f side target) (hlist : f.isList = true) :
    Offers s .create f ⟨f.name, f, .addEdges side⟩
  | addEdges {role : Role} {f : FieldDef} {side : RelationSide} {target : TypeDef}
      (h : s.Relates f side target) (hrole : role ≠ .create) (hlist : f.isList = true) :
    Offers s role f ⟨"add" ++ capitalize f.name, f, .addEdges side⟩
  | removeEdges {role : Role} {f : FieldDef} {side : RelationSide} {target : TypeDef}
      (h : s.Relates f side target) (hrole : role ≠ .create) (hlist : f.isList = true) :
    Offers s role f ⟨"remove" ++ capitalize f.name, f, .removeEdges side⟩
  | createAndAddEdges {role : Role} {f : FieldDef} {side : RelationSide} {target : TypeDef}
      (h : s.Relates f side target) (hlist : f.isList = true) :
    Offers s role f ⟨"createAndAdd" ++ capitalize f.name, f, .createAndAddEdges side target⟩
  | setEdge {role : Role} {f : FieldDef} {side : RelationSide} {target : TypeDef}
      (h : s.Relates f side target) (hlist : f.isList = false) :
    Offers s role f ⟨f.name, f, .setEdge side⟩
  | createAndSetEdge {role : Role} {f : FieldDef} {side : RelationSide} {target : TypeDef}
      (h : s.Relates f side target) (hlist : f.isList = false) :
    Offers s role f ⟨"create" ++ capitalize f.name, f, .createAndSetEdge side target⟩

theorem offers_of_mem_relationInputs {side : RelationSide} (h : s.Relates f side target)
    (hi : i ∈ relationInputs role f side target) : s.Offers role f i := by
  unfold relationInputs at hi
  cases hlist : f.isList with
  | true =>
    simp only [hlist, if_true] at hi
    cases role with
    | create =>
      simp only [List.mem_cons, List.not_mem_nil, or_false] at hi
      rcases hi with rfl | rfl
      · exact .initialEdges h hlist
      · exact .createAndAddEdges h hlist
    | update | updateAll =>
      simp only [List.mem_cons, List.not_mem_nil, or_false] at hi
      rcases hi with rfl | rfl | rfl
      · exact .addEdges h (by decide) hlist
      · exact .removeEdges h (by decide) hlist
      · exact .createAndAddEdges h hlist
  | false =>
    simp only [hlist, Bool.false_eq_true, if_false, List.mem_cons, List.not_mem_nil, or_false] at hi
    rcases hi with rfl | rfl
    · exact .setEdge h hlist
    · exact .createAndSetEdge h hlist

/-- The inputs of an embedded scalar or enum outside of create shapes. -/
theorem offers_plain (h : s.Embeds f target) (hkind : target.kind.isPlain = true)
    (hrole : role ≠ .create) {inputs : List Input}
    (hinputs : embeddedInputs? role f target = some inputs) (hi : i ∈ inputs) :
    s.Offers role f i := by
  cases hlist : f.isList with
  | false =>
    have hcases : i = ⟨f.name, f, .scalar target false⟩ ∨
        ∃ op ∈ f.operators, i = ⟨op.inputName f.name, f, .combine target op⟩ := by
      cases hk : target.kind <;> cases role <;> simp_all [embeddedInputs?, TypeKind.isPlain] <;>
        subst hinputs <;> simpa [eq_comm] using hi
    rcases hcases with rfl | ⟨op, hop, rfl⟩
    · rw [← hlist]
      exact .scalar h hkind
    · exact .combine h hkind hrole hlist hop
  | true =>
    have hcases : i = ⟨f.name, f, .scalar target true⟩ := by
      cases hk : target.kind <;> cases role <;> simp_all [embeddedInputs?, TypeKind.isPlain] <;>
        obtain ⟨-, rfl⟩ := hinputs <;> simpa using hi
    rw [hcases, ← hlist]
    exact .scalar h hkind

theorem offers_of_mem_embeddedInputs (h : s.Embeds f target) {inputs : List Input}
    (hinputs : embeddedInputs? role f target = some inputs) (hi : i ∈ inputs) :
    s.Offers role f i := by
  by_cases hplain : target.kind.isPlain = true
  · by_cases hrole : role = .create
    · have hcases : i = ⟨f.name, f, .scalar target f.isList⟩ := by
        cases hk : target.kind <;> simp_all [embeddedInputs?, TypeKind.isPlain] <;>
          subst hinputs <;> simpa using hi
      rw [hcases]
      exact .scalar h hplain
    · exact offers_plain h hplain hrole hinputs hi
  · cases hk : target.kind with
    | scalar | enum => simp [hk, TypeKind.isPlain] at hplain
    | valueObject =>
      have hcases : i = ⟨f.name, f, .valueObject target f.isList⟩ := by
        cases role <;> simp_all [embeddedInputs?] <;> subst hinputs <;> simpa using hi
      rw [hcases]
      exact .valueObject h hk
    | entityExtension =>
      cases hlist : f.isList with
      | true => cases role <;> simp [embeddedInputs?, hk, hlist] at hinputs
      | false =>
        cases role with
        | create =>
          simp only [embeddedInputs?, hk, hlist, Option.some.injEq] at hinputs
          obtain rfl : i = ⟨f.name, f, .createExtension target⟩ := by
            rw [← hinputs] at hi
            simpa using hi
          exact .createExtension h hk hlist
        | update | updateAll =>
          simp only [embeddedInputs?, hk, hlist, Option.some.injEq] at hinputs
          obtain rfl : i = ⟨f.name, f, .updateExtension target⟩ := by
            rw [← hinputs] at hi
            simpa using hi
          exact .updateExtension h hk (by decide) hlist
    | childEntity =>
      cases hlist : f.isList with
      | false => cases role <;> simp [embeddedInputs?, hk, hlist] at hinputs
      | true =>
        cases role with
        | create =>
          simp only [embeddedInputs?, hk, hlist, Option.some.injEq] at hinputs
          obtain rfl : i = ⟨f.name, f, .createChildren target⟩ := by
            rw [← hinputs] at hi
            simpa using hi
          exact .createChildren h hk hlist
        | update | updateAll =>
          simp only [embeddedInputs?, hk, hlist, Option.some.injEq] at hinputs
          rw [← hinputs] at hi
          simp only [List.mem_cons, List.not_mem_nil, or_false] at hi
          rcases hi with rfl | rfl | rfl
          · exact .addChildren h hk (by decide) hlist
          · exact .updateChildren h hk (by decide) hlist
          · exact .removeChildren h hk (by decide) hlist
    | rootEntity => cases role <;> simp [embeddedInputs?, hk] at hinputs

/-- Every input of a field is in the table. -/
theorem offers_of_mem_fieldInputs {inputs : List Input} (h : s.fieldInputs role f = .ok inputs)
    (hi : i ∈ inputs) : s.Offers role f i := by
  rw [fieldInputs] at h
  cases hsystem : f.isSystem with
  | true =>
    rw [hsystem, if_pos rfl] at h
    rw [← Except.ok.inj h] at hi
    split at hi
    · next hfilter =>
      obtain ⟨hidentity, rfl⟩ := hfilter
      rw [List.mem_singleton.1 hi]
      exact .filter hidentity
    · simp at hi
  | false =>
    rw [hsystem, if_neg Bool.false_ne_true, declaredInputs] at h
    cases htarget : s.target? f with
    | none => simp [htarget] at h
    | some target =>
      simp only [htarget] at h
      cases hrelation : f.isRelation with
      | true =>
        cases hside : s.relationSide? f with
        | none => simp [hrelation, hside] at h
        | some side =>
          simp only [hrelation, hside, if_true, Except.ok.injEq] at h
          rw [← h] at hi
          exact offers_of_mem_relationInputs ⟨hsystem, htarget, hrelation, hside⟩ hi
      | false =>
        simp only [hrelation, Bool.false_eq_true, if_false] at h
        cases hreference : f.isReference with
        | true =>
          cases hkey : s.keyType? target with
          | none => simp [hreference, hkey] at h
          | some keyType =>
            simp only [hreference, hkey, if_true, Except.ok.injEq] at h
            rw [← h] at hi
            rw [List.mem_singleton.1 hi]
            exact .reference ⟨hsystem, hrelation, hreference, target, htarget, hkey⟩
        | false =>
          simp only [hreference, Bool.false_eq_true, if_false] at h
          cases hembedded : embeddedInputs? role f target with
          | none => simp [hembedded] at h
          | some embedded =>
            simp only [hembedded, Except.ok.injEq] at h
            rw [← h] at hi
            exact offers_of_mem_embeddedInputs ⟨hsystem, htarget, hrelation, hreference⟩
              hembedded hi

/-- A shape is that of an object type. -/
theorem shape_eq_ok {shape : Shape} (h : s.shape role t = .ok shape) :
    t.kind.isObject = true ∧ ∃ inputs, t.fields.mapM (s.fieldInputs role) = .ok inputs ∧
      shape = ⟨role, t, inputs.flatten⟩ := by
  rw [Schema.shape] at h
  split at h
  · next hobject =>
    obtain ⟨inputs, hinputs, h⟩ := bind_eq_ok.1 h
    exact ⟨hobject, inputs, hinputs, (Except.ok.inj h).symm⟩
  · cases h

/-- Every input of a shape is offered for one of the fields of its type. -/
theorem exists_offers_of_mem_shape {shape : Shape} (h : s.shape role t = .ok shape)
    (hi : i ∈ shape.inputs) : ∃ f ∈ t.fields, s.Offers role f i := by
  obtain ⟨-, inputs, hinputs, rfl⟩ := shape_eq_ok h
  obtain ⟨fieldInputs, hmem, hi⟩ := List.mem_flatten.1 hi
  obtain ⟨f, hf, hfield⟩ := exists_of_mem_mapM hinputs hmem
  exact ⟨f, hf, offers_of_mem_fieldInputs hfield hi⟩

/-- An input writes the field that it is offered for. -/
theorem Offers.field_eq (h : s.Offers role f i) : i.field = f := by
  cases h <;> rfl

/-- Only the input that identifies an object is offered for a system field. -/
theorem Offers.declared (h : s.Offers role f i) (hfilter : i.isFilter = false) :
    f.isSystem = false := by
  cases h with
  | filter => cases hfilter
  | reference h => exact h.declared
  | scalar h | combine h | valueObject h | createExtension h | updateExtension h
  | createChildren h | addChildren h | updateChildren h | removeChildren h => exact h.declared
  | initialEdges h | addEdges h | removeEdges h | createAndAddEdges h | setEdge h
  | createAndSetEdge h => exact h.declared

/-- The type of a field with an input that writes it is found. -/
theorem Offers.exists_target? (h : s.Offers role f i) (hfilter : i.isFilter = false) :
    ∃ target, s.target? f = some target := by
  cases h with
  | filter => cases hfilter
  | reference h =>
    obtain ⟨target, htarget, -⟩ := h.key
    exact ⟨target, htarget⟩
  | scalar h | combine h | valueObject h | createExtension h | updateExtension h
  | createChildren h | addChildren h | updateChildren h | removeChildren h => exact ⟨_, h.target?⟩
  | initialEdges h | addEdges h | removeEdges h | createAndAddEdges h | setEdge h
  | createAndSetEdge h => exact ⟨_, h.target?⟩

/-- The input is in the table for some field of the schema. -/
def HasInput (s : Schema) (i : Input) : Prop :=
  ∃ role, ∃ t ∈ s.types, ∃ f ∈ t.fields, s.Offers role f i

/-- All the inputs are inputs of the schema. -/
def HasInputs (s : Schema) (inputs : List Input) : Prop := ∀ i ∈ inputs, s.HasInput i

theorem hasInputs_of_shape {shape : Shape} (ht : t ∈ s.types) (h : s.shape role t = .ok shape) :
    s.HasInputs shape.inputs := by
  intro i hi
  obtain ⟨f, hf, hoffers⟩ := exists_offers_of_mem_shape h hi
  exact ⟨role, t, ht, f, hf, hoffers⟩

theorem HasInput.field_mem (h : s.HasInput i) : i.field ∈ s.fields := by
  obtain ⟨role, t, ht, f, hf, hoffers⟩ := h
  rw [hoffers.field_eq]
  exact mem_fields ht hf

/-- What a value is planned with: a shape of the schema, and the coerced value. -/
theorem prepare_eq_ok {input value : Value} {shape : Shape}
    (h : s.prepare role t input = .ok (shape, value)) :
    s.shape role t = .ok shape ∧ shape.coerce s input = .ok value := by
  obtain ⟨shape', hshape, h⟩ := bind_eq_ok.1 h
  obtain ⟨value', hvalue, h⟩ := bind_eq_ok.1 h
  obtain ⟨rfl, rfl⟩ : shape' = shape ∧ value' = value := by simpa [pure, Except.pure] using h
  exact ⟨hshape, hvalue⟩

/-- The type of nested input objects is the type of the field. -/
theorem Offers.target?_of_nested (h : s.Offers role f i) {nestedRole : Role}
    (hn : i.kind.nested? = some (nestedRole, t)) : s.target? f = some t := by
  cases h with
  | filter | reference | scalar | combine | removeChildren | initialEdges | addEdges | removeEdges
  | setEdge => cases hn
  | valueObject h | createExtension h | updateExtension h | createChildren h | addChildren h
  | updateChildren h =>
    cases hn
    exact h.target?
  | createAndAddEdges h | createAndSetEdge h =>
    cases hn
    exact h.target?

theorem HasInput.nested_mem (h : s.HasInput i) {nestedRole : Role}
    (hn : i.kind.nested? = some (nestedRole, t)) : t ∈ s.types := by
  obtain ⟨role, u, -, f, -, hoffers⟩ := h
  exact mem_types_of_target? (hoffers.target?_of_nested hn)

/-- A field sees its relation from its own type, towards the type of the field. -/
theorem Relates.types {side : RelationSide} (hs : s.Built) (ht : t ∈ s.types) (hf : f ∈ t.fields)
    (h : s.Relates f side target) : side.sourceType = t.id ∧ side.targetType = target.id := by
  obtain ⟨target', htarget, hanchored⟩ :=
    hs.numbered.exists_anchoredAt (mem_fields ht hf) h.side?
  obtain rfl : target' = target := Option.some.inj (htarget.symm.trans h.target?)
  exact ⟨hanchored.sourceType.trans (hs.numbered.owner t ht f hf), hanchored.targetType⟩

end Schema

/-! ### What is accepted -/

namespace Accepted

/-- What one item has to be, where a list is accepted. -/
def item : Accepted → Accepted
  | .list item => item
  | accepted => accepted

/-- The role and the type of the input objects that are accepted. -/
def nested? : Accepted → Option (Role × TypeId)
  | .createInput type => some (.create, type)
  | .updateInput type => some (.update, type)
  | _ => none

end Accepted

/-- The inputs that are told to accept lists are those that take them. -/
theorem InputKind.isList_iff_accepted (k : InputKind) :
    k.isList = true ↔ ∃ item, k.accepted = .list item := by
  cases k with
  | scalar type list | valueObject type list => cases list <;> simp [isList, accepted]
  | filter | combine | createExtension | updateExtension | reference | setEdge
  | createAndSetEdge => simp [isList, accepted]
  | createChildren | addChildren | updateChildren | removeChildren | addEdges | removeEdges
  | createAndAddEdges => simp [isList, accepted]

namespace Schema

variable {s : Schema} {role : Role} {f : FieldDef} {t : TypeDef} {i : Input}

/-- Inputs are told to accept the input objects that their values are coerced with. The type of
those is told by the side of a relation, and found by the name of the type of the field. -/
theorem HasInput.nested?_accepted (hs : s.Built) (hi : s.HasInput i) :
    i.kind.accepted.item.nested? = i.kind.nested?.map fun nested => (nested.1, nested.2.id) := by
  obtain ⟨role, t, ht, f, hf, hoffers⟩ := hi
  cases hoffers with
  | scalar | valueObject => cases f.isList <;> rfl
  | filter | reference | combine | createExtension | updateExtension | createChildren | addChildren
  | updateChildren | removeChildren | initialEdges | addEdges | removeEdges | setEdge => rfl
  | createAndAddEdges h | createAndSetEdge h =>
    exact congrArg (fun id => some (Role.create, id)) (h.types hs ht hf).2

/-! ### Shapes of lawful schemas -/

namespace Lawful

/-- A declared field of a lawful schema has its inputs. -/
theorem exists_declaredInputs (h : s.Lawful) (ht : t ∈ s.types) (hf : f ∈ t.fields)
    (hdeclared : f.isSystem = false) (role : Role) :
    ∃ inputs, s.declaredInputs role f = .ok inputs := by
  obtain ⟨target, htarget, hrules⟩ := h.typedRules ht hf hdeclared
  rw [declaredInputs, htarget]
  simp only
  by_cases hrelation : f.isRelation = true
  · obtain ⟨side, hside⟩ := h.exists_relationSide? (mem_fields ht hf) hrelation
    rw [if_pos hrelation, hside]
    exact ⟨_, rfl⟩
  rw [if_neg hrelation]
  have hnoRelation : f.isRelation = false := by simpa using hrelation
  by_cases hreference : f.isReference = true
  · have hreferenceRules := hrules.reference hreference
    have htypes : target ∈ s.types := mem_types_of_target? htarget
    obtain ⟨key, hkey⟩ := Option.ne_none_iff_exists'.1 hreferenceRules.key
    obtain ⟨keyType, hkeyType⟩ :=
      h.exists_target? (mem_fields htypes (h.key_direct htypes hkey).1)
    have hfound : s.keyType? target = some keyType := by
      rw [keyType?, referenceKey?, if_pos hreferenceRules.root, hkey]
      exact hkeyType
    rw [if_pos hreference, hfound]
    exact ⟨_, rfl⟩
  · rw [if_neg hreference]
    have hembedding := hrules.embedding (by simpa using hreference) hnoRelation
    -- The rules leave exactly the places of the table that have inputs.
    have hinputs : ∃ inputs, embeddedInputs? role f target = some inputs := by
      cases hk : target.kind with
      | scalar | enum =>
        cases hlist : f.isList with
        | false => cases role <;> simp [embeddedInputs?, hk, hlist]
        | true =>
          have hnone : f.operators = [] := by
            by_contra hne
            simpa [hlist] using hrules.operators.single hne
          cases role <;> simp [embeddedInputs?, hk, hlist, hnone]
      | valueObject => cases role <;> simp [embeddedInputs?, hk]
      | entityExtension => cases role <;> simp [embeddedInputs?, hk, (hembedding.extension hk).2]
      | childEntity => cases role <;> simp [embeddedInputs?, hk, (hembedding.child hk).2]
      | rootEntity => exact absurd hk hembedding.notRoot
    obtain ⟨inputs, hinputs⟩ := hinputs
    rw [hinputs]
    exact ⟨inputs, rfl⟩

/-- Every object type of a lawful schema has a shape for each role. -/
theorem exists_shape (h : s.Lawful) (ht : t ∈ s.types) (hobject : t.kind.isObject = true)
    (role : Role) : ∃ shape, s.shape role t = .ok shape := by
  obtain ⟨inputs, hinputs⟩ : ∃ inputs, t.fields.mapM (s.fieldInputs role) = .ok inputs := by
    refine exists_mapM_eq_ok fun f hf => ?_
    rw [fieldInputs]
    cases hsystem : f.isSystem with
    | true => exact ⟨_, rfl⟩
    | false => exact h.exists_declaredInputs ht hf hsystem role
  rw [Schema.shape, if_pos hobject, hinputs]
  exact ⟨_, rfl⟩

/-- Nested input objects of a lawful schema are those of object types. -/
theorem isObject_of_nested (h : s.Lawful) (hi : s.HasInput i) {nestedRole : Role}
    (hn : i.kind.nested? = some (nestedRole, t)) : t.kind.isObject = true := by
  obtain ⟨role, u, hu, f, hf, hoffers⟩ := hi
  have hrelated : ∀ {side : RelationSide} {target : TypeDef}, s.Relates f side target →
      target.kind.isObject = true := by
    intro side target hrelates
    obtain ⟨target', htarget', hrules⟩ := h.typedRules hu hf hrelates.declared
    obtain rfl : target' = target := Option.some.inj (htarget'.symm.trans hrelates.target?)
    exact isObject_of_isRoot (hrules.relation hrelates.isRelation).targetRoot
  cases hoffers with
  | filter | reference | scalar | combine | removeChildren | initialEdges | addEdges | removeEdges
  | setEdge => cases hn
  | valueObject _ hkind | createExtension _ hkind | updateExtension _ hkind
  | createChildren _ hkind | addChildren _ hkind | updateChildren _ hkind =>
    cases hn
    rw [hkind]
    rfl
  | createAndAddEdges hrelates | createAndSetEdge hrelates =>
    cases hn
    exact hrelated hrelates

/-- The shape of nested input objects, whose inputs are inputs of the schema again. -/
theorem exists_nested_shape (h : s.Lawful) (hi : s.HasInput i) {nestedRole : Role}
    (hn : i.kind.nested? = some (nestedRole, t)) :
    ∃ shape, s.shape nestedRole t = .ok shape ∧ s.HasInputs shape.inputs := by
  have ht := hi.nested_mem hn
  obtain ⟨shape, hshape⟩ := h.exists_shape ht (h.isObject_of_nested hi hn) nestedRole
  exact ⟨shape, hshape, hasInputs_of_shape ht hshape⟩

end Lawful

end Schema

end EntityGraph
