import EntityGraph.Proofs.Offers
import EntityGraph.Proofs.Validity

/-!
# Names of inputs

The name of an input is the name of its field, or a stem with the capitalised name of the field
after it. No check looks at the names that come out, and two inputs of a shape can share theirs.
Then the first one decides how a supplied value is coerced, but the value is for both of them.

There are four ways to get such a name. An operator is declared twice for a field. Two fields differ
only in the case of their first letter and have inputs with the same stem. A field is called like a
generated name of another one. Or the stem `create` of one input and the stem `createAndAdd` of
another one meet, as the first is the beginning of the second. There are no others, and without them
names are distinct.

## Main definitions

* `Wording`, `Wording.spell` — how a name is made from that of a field
* `Input.wording` — the wording of an input
* `Wording.Clash` — two fields that get the same name
* `Shape.Sole` — the only input of a shape that a key is for

## Main results

* `Wording.spell_eq_iff` — names are equal if they are made alike from the same field, or clash
* `Schema.Lawful.nodup_names_iff` — when the names of a shape are distinct
* `input_names_distinct_iff` — the same for accepted schemas, and what follows for look-ups
* `generated_name_taken` — an accepted schema in which one key writes two fields
-/

namespace EntityGraph

/-! ### Spelling -/

/-- What stands before the field in the name of an input. -/
inductive Wording where
  /-- The name of the field as it is. -/
  | plain
  | add
  | remove
  | update
  | create
  | createAndAdd
  | combine (op : CalcOperator)
  deriving DecidableEq

namespace Wording

def stem : Wording → String
  | plain => ""
  | add => "add"
  | remove => "remove"
  | update => "update"
  | create => "create"
  | createAndAdd => "createAndAdd"
  | combine op => op.stem

/-- The name that is made from that of a field. -/
def spell (w : Wording) (field : String) : String :=
  if w = plain then field else w.stem ++ capitalize field

/-- The same name is made from two different fields. -/
inductive Clash : Wording → String → Wording → String → Prop
  /-- Capitalising takes away the difference. -/
  | capital {w : Wording} {a b : String} (hw : w ≠ plain) (hne : a ≠ b)
      (h : capitalize a = capitalize b) : Clash w a w b
  /-- A field is called like an input of another one. -/
  | taken {w : Wording} {a b : String} (hw : w ≠ plain) (h : a = w.stem ++ capitalize b) :
    Clash plain a w b
  /-- One stem is the beginning of the other, and the rest of it is part of the field. -/
  | create {a b : String} (h : capitalize a = "AndAdd" ++ capitalize b) :
    Clash create a createAndAdd b

theorem Clash.ne {v w : Wording} {a b : String} (h : Clash v a w b) : (v, a) ≠ (w, b) := by
  cases h with
  | capital _ hne _ => exact fun heq => hne (Prod.mk.inj heq).2
  | taken hw _ => exact fun heq => hw (Prod.mk.inj heq).1.symm
  | create _ => exact fun heq => nomatch (Prod.mk.inj heq).1

theorem Clash.spell_eq {v w : Wording} {a b : String} (h : Clash v a w b) :
    v.spell a = w.spell b := by
  cases h with
  | capital hw _ h => rw [spell, spell, if_neg hw, if_neg hw, h]
  | taken hw h => rw [spell, spell, if_pos rfl, if_neg hw, h]
  | create h =>
    rw [spell, spell, if_neg (by decide), if_neg (by decide), h, ← String.append_assoc]
    rfl

def all : List Wording :=
  [plain, add, remove, update, create, createAndAdd] ++ CalcOperator.all.map combine

theorem mem_all (w : Wording) : w ∈ all := by
  cases w with
  | combine op => cases op <;> decide
  | _ => decide

/-- Only one stem is the beginning of another one. -/
theorem eq_of_stem_isPrefix {v w : Wording} (hv : v ≠ plain) (hne : v ≠ w)
    (h : v.stem.toList <+: w.stem.toList) : v = create ∧ w = createAndAdd := by
  have hall : ∀ v ∈ all, ∀ w ∈ all, v ≠ plain → v ≠ w → v.stem.toList <+: w.stem.toList →
      v = create ∧ w = createAndAdd := by decide
  exact hall v v.mem_all w w.mem_all hv hne h

/-- If a name splits after the shorter stem, the rest of the longer one belongs to the field. -/
theorem clash_of_split {v w : Wording} {a b : String} {rest : List Char} (hv : v ≠ plain)
    (hne : v ≠ w) (hstem : w.stem.toList = v.stem.toList ++ rest)
    (hfield : (capitalize a).toList = rest ++ (capitalize b).toList) : Clash v a w b := by
  obtain ⟨rfl, rfl⟩ := eq_of_stem_isPrefix hv hne ⟨rest, hstem.symm⟩
  have hsplit : "create".toList ++ "AndAdd".toList = "create".toList ++ rest := hstem
  have hrest : "AndAdd".toList = rest := List.append_cancel_left hsplit
  refine .create (String.toList_injective ?_)
  rw [hfield, String.toList_append, hrest]

/-- Names are equal only if they are made alike from the same field, or clash. -/
theorem spell_eq_iff {v w : Wording} {a b : String} :
    v.spell a = w.spell b ↔ (v, a) = (w, b) ∨ Clash v a w b ∨ Clash w b v a := by
  constructor
  · intro h
    by_cases hv : v = plain
    · subst hv
      by_cases hw : w = plain
      · subst hw
        exact .inl (congrArg (plain, ·) h)
      · rw [spell, spell, if_pos rfl, if_neg hw] at h
        exact .inr (.inl (.taken hw h))
    · by_cases hw : w = plain
      · subst hw
        rw [spell, spell, if_pos rfl, if_neg hv] at h
        exact .inr (.inr (.taken hv h.symm))
      · rw [spell, spell, if_neg hv, if_neg hw] at h
        by_cases hne : v = w
        · subst hne
          have hcapital : capitalize a = capitalize b := (String.append_right_inj _).1 h
          by_cases hab : a = b
          · exact .inl (by rw [hab])
          · exact .inr (.inl (.capital hv hab hcapital))
        · have hlist := congrArg String.toList h
          rw [String.toList_append, String.toList_append] at hlist
          rcases List.append_eq_append_iff.1 hlist with
            ⟨rest, hstem, hfield⟩ | ⟨rest, hstem, hfield⟩
          · exact .inr (.inl (clash_of_split hv hne hstem hfield))
          · exact .inr (.inr (clash_of_split hw (Ne.symm hne) hstem hfield))
  · rintro (h | h | h)
    · obtain ⟨rfl, rfl⟩ := Prod.mk.inj h
      rfl
    · exact h.spell_eq
    · exact h.spell_eq.symm

/-- Names are distinct if what they are made from is, and nothing clashes. -/
theorem nodup_map_spell_iff {xs : List (Wording × String)} :
    (xs.map fun x => x.1.spell x.2).Nodup ↔
      xs.Nodup ∧ ∀ x ∈ xs, ∀ y ∈ xs, ¬Clash x.1 x.2 y.1 y.2 := by
  constructor
  · intro h
    refine ⟨.of_map _ h, fun x hx y hy hclash => hclash.ne ?_⟩
    exact List.inj_on_of_nodup_map h hx hy hclash.spell_eq
  · rintro ⟨hnodup, hapart⟩
    refine hnodup.map_on fun x hx y hy h => ?_
    rcases spell_eq_iff.1 h with h | h | h
    · exact h
    · exact absurd h (hapart x hx y hy)
    · exact absurd h (hapart y hy x hx)

end Wording

/-! ### Inputs of a field -/

/-- The wording of an input in a shape of the given role. -/
def Input.wording (role : Role) (i : Input) : Wording :=
  match i.kind with
  | .combine _ op => .combine op
  | .addChildren _ => .add
  | .updateChildren _ => .update
  | .removeChildren _ | .removeEdges _ => .remove
  | .addEdges _ => if role = .create then .plain else .add
  | .createAndAddEdges .. => .createAndAdd
  | .createAndSetEdge .. => .create
  | _ => .plain

/-- What the name of an input is made from. -/
def Input.signature (role : Role) (i : Input) : Wording × String := (i.wording role, i.field.name)

namespace Schema

variable {s : Schema} {role : Role} {t target : TypeDef} {f : FieldDef} {i : Input}
  {own : List Input}

theorem Offers.name_eq (h : s.Offers role f i) : i.name = (i.wording role).spell i.field.name := by
  cases h with
  | addEdges _ hrole => simp [Input.wording, hrole, Wording.spell, Wording.stem]
  | _ => rfl

theorem nodup_wording_relation (role : Role) (f : FieldDef) (side : RelationSide)
    (target : TypeDef) :
    ((relationInputs role f side target).map (Input.wording role)).Nodup := by
  unfold relationInputs
  cases f.isList with
  | true => cases role <;> simp [Input.wording]
  | false => simp [Input.wording]

/-- The wordings of a setter and of the inputs for operators, which differ if the operators do. -/
theorem nodup_wording_operators (hoperators : f.operators.Nodup) :
    ((⟨f.name, f, .scalar target false⟩ :: f.operators.map fun op =>
      (⟨op.inputName f.name, f, .combine target op⟩ : Input)).map (Input.wording role)).Nodup := by
  rw [List.map_cons, List.map_map, List.nodup_cons]
  constructor
  · rw [List.mem_map]
    rintro ⟨op, -, hop⟩
    cases hop
  · exact hoperators.map fun op op' hsame => Wording.combine.inj hsame

/-- The wordings of the inputs of an embedded field differ if its operators do. -/
theorem nodup_wording_embedded (h : embeddedInputs? role f target = some own)
    (hoperators : role ≠ .create → f.operators.Nodup) :
    (own.map (Input.wording role)).Nodup := by
  have hsingle : ∀ i : Input, own = [i] → (own.map (Input.wording role)).Nodup := by
    rintro i rfl
    exact List.nodup_singleton _
  cases hk : target.kind with
  | scalar | enum =>
    cases role with
    | create => exact hsingle _ (by simpa [embeddedInputs?, hk] using h.symm)
    | update | updateAll =>
      cases hlist : f.isList with
      | false =>
        simp only [embeddedInputs?, hk, hlist, Option.some.injEq] at h
        rw [← h]
        exact nodup_wording_operators (hoperators (by decide))
      | true =>
        simp only [embeddedInputs?, hk, hlist] at h
        split at h
        · exact hsingle _ (Option.some.inj h).symm
        · cases h
  | valueObject =>
    cases role with
    | create | update | updateAll => exact hsingle _ (by simpa [embeddedInputs?, hk] using h.symm)
  | entityExtension =>
    cases hlist : f.isList with
    | true => cases role <;> simp [embeddedInputs?, hk, hlist] at h
    | false =>
      cases role with
      | create => exact hsingle _ (by simpa [embeddedInputs?, hk, hlist] using h.symm)
      | update | updateAll => exact hsingle _ (by simpa [embeddedInputs?, hk, hlist] using h.symm)
  | childEntity =>
    cases hlist : f.isList with
    | false => cases role <;> simp [embeddedInputs?, hk, hlist] at h
    | true =>
      cases role with
      | create => exact hsingle _ (by simpa [embeddedInputs?, hk, hlist] using h.symm)
      | update | updateAll =>
        simp only [embeddedInputs?, hk, hlist, Option.some.injEq] at h
        rw [← h]
        simp [Input.wording]
  | rootEntity => cases role <;> simp [embeddedInputs?, hk] at h

/-- An embedded field with operators has an input for each of them. -/
theorem nodup_operators_of_wording (hrole : role ≠ .create) (hkind : target.kind = .scalar)
    (hlist : f.isList = false) (h : embeddedInputs? role f target = some own)
    (hnodup : (own.map (Input.wording role)).Nodup) : f.operators.Nodup := by
  have hown : own = ⟨f.name, f, .scalar target false⟩ ::
      f.operators.map fun op => ⟨op.inputName f.name, f, .combine target op⟩ := by
    cases role with
    | create => exact absurd rfl hrole
    | update | updateAll => simpa [embeddedInputs?, hkind, hlist] using h.symm
  rw [hown, List.map_cons, List.map_map] at hnodup
  exact .of_map Wording.combine (List.nodup_cons.1 hnodup).2

/-- A field with operators holds one value of a built-in scalar. -/
theorem Lawful.scalar_of_operators (h : s.Lawful) (ht : t ∈ s.types) (hf : f ∈ t.fields)
    (hdeclared : f.isSystem = false) (htarget : s.target? f = some target)
    (hne : f.operators ≠ []) : target.kind = .scalar ∧ f.isList = false := by
  obtain ⟨target', htarget', hrules⟩ := h.typedRules ht hf hdeclared
  obtain rfl : target' = target := Option.some.inj (htarget'.symm.trans htarget)
  refine ⟨?_, hrules.operators.single hne⟩
  obtain ⟨op, hop⟩ := List.exists_mem_of_ne_nil _ hne
  have hfound : s.type? target'.name = some target' := by
    rw [name_of_type? htarget]
    exact htarget
  -- The names that operators apply to are those of built-in scalars, and no other type has them.
  have hbuiltin : ∀ name ∈ op.typeNames,
      ∃ u, Schema.initial.type? name = some u ∧ u.kind = .scalar := by
    have hnames : ∀ name ∈ ["Int", "Float", "String"],
        ∃ u, Schema.initial.type? name = some u ∧ u.kind = .scalar := by
      simp only [List.forall_mem_cons]
      exact ⟨⟨_, rfl, rfl⟩, ⟨_, rfl, rfl⟩, ⟨_, rfl, rfl⟩, by simp⟩
    intro name hname
    have hsubset : op.typeNames ⊆ ["Int", "Float", "String"] := by
      cases op <;> simp [CalcOperator.typeNames]
    exact hnames name (hsubset hname)
  have hsupported : target'.name ∈ op.typeNames :=
    List.contains_iff_mem.1 (hrules.operators.supported op hop)
  obtain ⟨u, hu, hscalar⟩ := hbuiltin target'.name hsupported
  rw [Option.some.inj (hfound.symm.trans (h.built.type?_initial hu)), hscalar]

/-- The wordings of the inputs of a field differ exactly if no operator is repeated. -/
theorem Lawful.nodup_wording_iff (h : s.Lawful) (ht : t ∈ s.types) (hf : f ∈ t.fields)
    (hown : s.fieldInputs role f = .ok own) :
    (own.map (Input.wording role)).Nodup ↔ (role ≠ .create → f.operators.Nodup) := by
  rw [fieldInputs] at hown
  cases hsystem : f.isSystem with
  | true =>
    have hnone := (h.built.maintained ht hf hsystem).noOperators
    rw [hsystem, if_pos rfl] at hown
    rw [← Except.ok.inj hown, hnone]
    split <;> simp
  | false =>
    obtain ⟨target, htarget, hrules⟩ := h.typedRules ht hf hsystem
    have hembedded : target.isRoot = true → f.operators = [] := by
      intro hroot
      by_contra hne
      have hscalar := (h.scalar_of_operators ht hf hsystem htarget hne).1
      simp [TypeDef.isRoot, hscalar] at hroot
    rw [hsystem, if_neg Bool.false_ne_true, declaredInputs, htarget] at hown
    simp only at hown
    split at hown
    · next hrelation =>
      rw [hembedded (hrules.relation hrelation).targetRoot]
      split at hown
      · cases hown
      · rw [← Except.ok.inj hown]
        simp [nodup_wording_relation]
    · split at hown
      · next hreference =>
        rw [hembedded (hrules.reference hreference).root]
        split at hown
        · cases hown
        · rw [← Except.ok.inj hown]
          simp
      · split at hown
        · cases hown
        · next inputs hinputs =>
          obtain rfl := Except.ok.inj hown
          refine ⟨fun hnodup hrole => ?_, nodup_wording_embedded hinputs⟩
          by_cases hne : f.operators = []
          · rw [hne]
            exact List.nodup_nil
          · obtain ⟨hscalar, hlist⟩ := h.scalar_of_operators ht hf hsystem htarget hne
            exact nodup_operators_of_wording hrole hscalar hlist hinputs hnodup

/-! ### Inputs of a shape -/

/-- Fields with different names have no signatures in common. -/
theorem nodup_signature_iff {fields : List FieldDef} {inputs : List (List Input)}
    (h : List.Forall₂ (fun f own => ∀ i ∈ own, i.field = f) fields inputs)
    (hnames : (fields.map (·.name)).Nodup) :
    (inputs.flatten.map (Input.signature role)).Nodup ↔
      ∀ own ∈ inputs, (own.map (Input.wording role)).Nodup := by
  induction h with
  | nil => simp
  | @cons f own fields inputs hown hrest ih =>
    rw [List.map_cons, List.nodup_cons] at hnames
    have hsignature : own.map (Input.signature role) =
        (own.map (Input.wording role)).map (·, f.name) := by
      rw [List.map_map]
      refine List.map_congr_left fun i hi => ?_
      rw [Input.signature, hown i hi]
      rfl
    have hdisjoint : (own.map (Input.signature role)).Disjoint
        (inputs.flatten.map (Input.signature role)) := by
      intro x hx hx'
      obtain ⟨i, hi, rfl⟩ := List.mem_map.1 hx
      obtain ⟨j, hj, hsame⟩ := List.mem_map.1 hx'
      obtain ⟨own', hown', hj⟩ := List.mem_flatten.1 hj
      obtain ⟨g, hg, hfield⟩ := exists_of_forall₂_of_mem hrest hown'
      have hname : j.field.name = i.field.name := (Prod.mk.inj hsame).2
      rw [hfield j hj, hown i hi] at hname
      exact hnames.1 (hname ▸ List.mem_map_of_mem hg)
    rw [List.flatten_cons, List.map_append, List.nodup_append', ih hnames.2, List.forall_mem_cons,
      hsignature, List.nodup_map_iff fun x y hxy => (Prod.mk.inj hxy).1]
    rw [hsignature] at hdisjoint
    tauto

namespace Lawful

/-- The names of a shape are distinct exactly if no operator is repeated and no names clash. -/
theorem nodup_names_iff (h : s.Lawful) (ht : t ∈ s.types) {shape : Shape}
    (hshape : s.shape role t = .ok shape) : (shape.inputs.map (·.name)).Nodup ↔
      (role ≠ .create → ∀ f ∈ t.fields, f.operators.Nodup) ∧
        ∀ i ∈ shape.inputs, ∀ j ∈ shape.inputs,
          ¬Wording.Clash (i.wording role) i.field.name (j.wording role) j.field.name := by
  have hnames : shape.inputs.map (·.name) =
      (shape.inputs.map (Input.signature role)).map fun x => x.1.spell x.2 := by
    rw [List.map_map]
    refine List.map_congr_left fun i hi => ?_
    obtain ⟨f, -, hoffers⟩ := exists_offers_of_mem_shape hshape hi
    exact hoffers.name_eq
  have hsignatures : (shape.inputs.map (Input.signature role)).Nodup ↔
      (role ≠ .create → ∀ f ∈ t.fields, f.operators.Nodup) := by
    obtain ⟨hobject, inputs, hinputs, rfl⟩ := shape_eq_ok hshape
    have hfields := forall₂_of_mapM_eq_ok hinputs
    rw [nodup_signature_iff (hfields.imp fun f own hown i hi =>
      (offers_of_mem_fieldInputs hown hi).field_eq) (h.nodup_fieldNames ht hobject)]
    constructor
    · intro hown hrole f hf
      obtain ⟨own, hmem, hfield⟩ := exists_of_forall₂_of_mem hfields.flip hf
      exact (h.nodup_wording_iff ht hf hfield).1 (hown own hmem) hrole
    · intro hoperators own hown
      obtain ⟨f, hf, hfield⟩ := exists_of_mem_mapM hinputs hown
      exact (h.nodup_wording_iff ht hf hfield).2 fun hrole => hoperators hrole f hf
  rw [hnames, Wording.nodup_map_spell_iff, hsignatures]
  simp only [List.forall_mem_map, Input.signature]

end Lawful

end Schema

/-! ### Keys of a shape -/

/-- What the input adds to a new object that does not give it. -/
def Input.default? (i : Input) : Role → Option Value
  | .create => if i.kind.isSetter then i.field.defaultValue else none
  | _ => none

namespace Shape

variable {shape : Shape} {key : String} {i : Input}

/-- The input is the only one of the shape that anything under the key is for. -/
structure Sole (s : Schema) (shape : Shape) (key : String) (i : Input) : Prop where
  named : shape.inputs.filter (·.name == key) = [i]
  /-- An object with this key alone makes the steps of the input. -/
  changes (v : Value) (current : Plan) :
    EntityGraph.changes s (.object [(key, v)]) shape.inputs current = i.plan s v current
  /-- The other inputs have no default for the key. -/
  defaults (entries : Entries) : (shape.fillDefaults entries).get? key =
    (entries.get? key).or (i.default? shape.role)

/-- If names are distinct, all inputs but the one that is found have other names. -/
theorem exists_split (hnames : (shape.inputs.map (·.name)).Nodup) (hi : shape.input? key = some i) :
    ∃ before after, shape.inputs = before ++ i :: after ∧
      (∀ j ∈ before, j.name ≠ key) ∧ ∀ j ∈ after, j.name ≠ key := by
  obtain ⟨-, before, after, hinputs, hbefore⟩ := List.find?_eq_some_iff_append.1 hi
  refine ⟨before, after, hinputs, by simpa using hbefore, fun j hj hkey => ?_⟩
  rw [hinputs, List.map_append, List.map_cons] at hnames
  have hfirst := (List.nodup_cons.1 hnames.of_append_right).1
  rw [name_of_input? hi, ← hkey] at hfirst
  exact hfirst (List.mem_map_of_mem hj)

theorem mapM_eq_pure {f : Input → Planner InputError (List Plan)} {inputs : List Input}
    (h : ∀ j ∈ inputs, f j = pure []) : inputs.mapM f = pure (inputs.map fun _ => []) := by
  induction inputs with
  | nil => rfl
  | cons j inputs ih =>
    obtain ⟨hj, hrest⟩ := List.forall_mem_cons.1 h
    rw [List.mapM_cons, hj, ih hrest]
    simp

/-- If the other inputs make no steps, those of all inputs are the steps of one. -/
theorem mapM_flatten_eq {f : Input → Planner InputError (List Plan)} {before after : List Input}
    (hbefore : ∀ j ∈ before, f j = pure []) (hafter : ∀ j ∈ after, f j = pure []) :
    (do let steps ← (before ++ i :: after).mapM f; return steps.flatten) = f i := by
  rw [List.mapM_append, List.mapM_cons, mapM_eq_pure hbefore, mapM_eq_pure hafter]
  simp

theorem get?_fillDefault_of_ne (entries : Entries) {j : Input} (h : j.name ≠ key) :
    (fillDefault entries j).get? key = entries.get? key := by
  rw [fillDefault]
  split
  · split
    · exact Entries.get?_insert_of_ne h.symm _
    · rfl
  · rfl

theorem get?_foldl_fillDefault_of_ne {inputs : List Input} (h : ∀ j ∈ inputs, j.name ≠ key)
    (entries : Entries) : (inputs.foldl fillDefault entries).get? key = entries.get? key := by
  induction inputs generalizing entries with
  | nil => rfl
  | cons j inputs ih =>
    obtain ⟨hj, hrest⟩ := List.forall_mem_cons.1 h
    rw [List.foldl_cons, ih hrest, get?_fillDefault_of_ne entries hj]

theorem get?_fillDefault_self (entries : Entries) (i : Input) :
    (fillDefault entries i).get? i.name = (entries.get? i.name).or (i.default? .create) := by
  rw [fillDefault, Input.default?, Entries.has]
  cases i.field.defaultValue <;> cases i.kind.isSetter <;>
    cases h : entries.get? i.name <;> simp [h]

/-- If names are distinct, keys are for one input only. -/
theorem sole_of_nodup (s : Schema) (hnames : (shape.inputs.map (·.name)).Nodup)
    (hi : shape.input? key = some i) : shape.Sole s key i := by
  obtain ⟨before, after, hinputs, hbefore, hafter⟩ := exists_split hnames hi
  have hname := name_of_input? hi
  refine ⟨?_, fun v current => ?_, fun entries => ?_⟩
  · rw [hinputs, List.filter_append, List.filter_cons_of_pos (by simpa using hname),
      List.filter_eq_nil_iff.2 (by simpa using hbefore),
      List.filter_eq_nil_iff.2 (by simpa using hafter), List.nil_append]
  · have hsome : Entries.get? [(key, v)] i.name = some v := by simp [Entries.get?_cons, hname]
    have hnone : ∀ j : Input, j.name ≠ key → Entries.get? [(key, v)] j.name = none :=
      fun j hj => by simp [Entries.get?_cons, hj]
    rw [changes_object, hinputs, mapM_flatten_eq, hsome]
    · intro j hj
      rw [hnone j (hbefore j hj)]
    · intro j hj
      rw [hnone j (hafter j hj)]
  · rw [fillDefaults]
    split
    · next hrole =>
      rw [hrole, hinputs, List.foldl_append, List.foldl_cons, get?_foldl_fillDefault_of_ne hafter,
        ← hname, get?_fillDefault_self, get?_foldl_fillDefault_of_ne (hname ▸ hbefore)]
    · next hrole => cases hr : shape.role <;> simp_all [Input.default?]

end Shape

/-! ### Accepted schemas -/

/-- **Names of inputs are distinct unless they are made to clash.** In an accepted schema, the
inputs of a shape have distinct names exactly if no field to update repeats an operator and no two
inputs clash. Then a key is for no other input than the one that it is looked up as. -/
theorem input_names_distinct_iff {decl : SchemaDecl} {a : AcceptedSchema}
    (h : decl.accept = .ok a) {t : TypeDef} (ht : t ∈ a.schema.types)
    (hobject : t.kind.isObject = true) (role : Role) :
    ∃ shape, a.schema.shape role t = .ok shape ∧
      ((shape.inputs.map (·.name)).Nodup ↔
        (role ≠ .create → ∀ f ∈ t.fields, f.operators.Nodup) ∧
          ∀ i ∈ shape.inputs, ∀ j ∈ shape.inputs,
            ¬Wording.Clash (i.wording role) i.field.name (j.wording role) j.field.name) ∧
      ((shape.inputs.map (·.name)).Nodup →
        ∀ key i, shape.input? key = some i → shape.Sole a.schema key i) := by
  have hs := SchemaDecl.lawful_of_accept h
  obtain ⟨shape, hshape⟩ := hs.exists_shape ht hobject role
  exact ⟨shape, hshape, hs.nodup_names_iff ht hshape,
    fun hnames key i hi => Shape.sole_of_nodup a.schema hnames hi⟩

/-- The names of the inputs that update orders of the shop are distinct, so `increaseByTotal` means
the input of the operator. -/
theorem shop_order_keys : ∃ order ∈ shop.schema.types, order.name = "Order" ∧
    ∃ shape i, shop.schema.shape .updateAll order = .ok shape ∧
      (∀ i ∈ shape.inputs, ∀ j ∈ shape.inputs, ¬Wording.Clash (i.wording .updateAll) i.field.name
        (j.wording .updateAll) j.field.name) ∧
      shape.input? "increaseByTotal" = some i ∧ shape.Sole shop.schema "increaseByTotal" i := by
  have ht : shop.schema.types.get ⟨8, by decide⟩ ∈ shop.schema.types := List.get_mem _ _
  obtain ⟨shape, hshape, hiff, hsole⟩ := input_names_distinct_iff accept_shopDecl ht rfl .updateAll
  have hevaluated : ∃ inputs, shop.schema.shape .updateAll (shop.schema.types.get ⟨8, by decide⟩) =
      .ok ⟨.updateAll, shop.schema.types.get ⟨8, by decide⟩, inputs⟩ ∧
      (inputs.map (·.name)).Nodup ∧
      ∃ i, inputs.find? (·.name == "increaseByTotal") = some i := ⟨_, rfl, by decide, _, rfl⟩
  obtain ⟨inputs, hinputs, hnames, i, hi⟩ := hevaluated
  obtain rfl := Except.ok.inj (hshape.symm.trans hinputs)
  exact ⟨_, ht, rfl, _, i, hinputs, (hiff.1 hnames).2, hi, hsole hnames _ i hi⟩

/-- Orders with a total that can be increased and a label that has the name of that input. -/
def tallyDecl : SchemaDecl where
  profiles := [.named defaultProfileName]
  types :=
    [(TypeDecl.named "Order" .rootEntity)
      |>.withField ((FieldDecl.named "total" "Int").withCalc "ADD")
      |>.withField (.named "increaseByTotal" "String")]

def tally : AcceptedSchema := ⟨(Schema.ofDecl tallyDecl).toOption.getD .initial, by decide⟩

/-- The tally is accepted although two inputs share a name. The number that increases the total is
also stored as the label, where a string belongs. -/
theorem generated_name_taken : tallyDecl.accept = .ok tally ∧
    ∃ order ∈ tally.schema.types, order.kind.isObject = true ∧
      (∃ shape, tally.schema.shape .updateAll order = .ok shape ∧
        shape.inputs.map (·.name) = ["total", "increaseByTotal", "increaseByTotal"] ∧
        ¬(shape.inputs.map (·.name)).Nodup) ∧
      ∃ total label result rest, order.declaredFields = [total, label] ∧
        label.typeName = "String" ∧
        (tally.schema.planUpdateAll order (.object [("increaseByTotal", .int 5)])
          (.entities order.id)).outcome ⟨0⟩ = (.ok result, rest) ∧
        result.affected = [total.id, label.id] ∧
        .setField label.id "increaseByTotal" (.literal (.int 5)) ∈ result.plan.nodes := by
  have ht : tally.schema.types.get ⟨7, by decide⟩ ∈ tally.schema.types := List.get_mem _ _
  refine ⟨rfl, _, ht, rfl, ⟨_, rfl, rfl, by decide⟩, ?_⟩
  exact ⟨_, _, _, _, rfl, rfl, rfl, rfl, List.mem_of_getElem? (i := 9) rfl⟩

end EntityGraph
