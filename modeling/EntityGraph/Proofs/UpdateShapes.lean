import EntityGraph.Proofs.Faultless
import EntityGraph.Proofs.Settled
import EntityGraph.Proofs.ValueDocuments

/-!
# Updates of one object and of many

The shape that updates one entity has the inputs of the shape that updates many, with the identity
in front. The identity is only there to find the entity. It has to be given, it is text afterwards,
and it makes no difference otherwise: nothing else of the input object is coerced in another way, no
step is made for it, no variable drawn and no field affected.

No names have to be distinct for this. What matters is that no other input is called like the
identity, and that holds in every accepted schema: the name belongs to a system field, and it does
not start with the stem of a generated name.

## Main definitions

* `Shape.Identifies` — a shape that has the inputs of another one after an identity

## Main results

* `coerceEntries_insert` — coercion of entries with one more key
* `Schema.Lawful.exists_identifies` — the two shapes of an entity
* `update_one_as_many` — what they make of the same changes, in accepted schemas
-/

namespace EntityGraph

variable {s : Schema} {shape one all : Shape} {i filter : Input} {t : TypeDef} {v w : Value}
  {entries coerced : Entries} {key : String}

/-! ### Entries with one more key -/

namespace Entries

theorem get?_eq_none_iff : entries.get? key = none ↔ ∀ e ∈ entries, e.1 ≠ key := by
  induction entries with
  | nil => simp
  | cons e es ih =>
    obtain ⟨k, v⟩ := e
    rw [get?_cons, List.forall_mem_cons, ← ih]
    by_cases hk : key = k
    · simp [hk]
    · simp [hk, Ne.symm hk]

/-- A key before all others is put in front. -/
theorem insert_eq_cons (h : ∀ e ∈ entries, key < e.1) :
    entries.insert key v = (key, v) :: entries := by
  cases entries with
  | nil => rfl
  | cons e es => rw [insert, if_pos (h e List.mem_cons_self)]

theorem insert_cons_of_ne {k : String} {x : Value} (hlt : ¬key < k) (hne : k ≠ key) :
    insert ((k, x) :: entries) key v = (k, x) :: entries.insert key v := by
  rw [insert, if_neg hlt, if_neg hne.symm]

end Entries

/-- An entry more is coerced by its own input and put to the others, if it cannot be dropped. The
order of keys is needed since coercion may drop others. -/
theorem coerceEntries_insert (hsorted : entries.Increasing) (habsent : entries.get? key = none)
    (hi : shape.input? key = some i) (hkept : ∀ w, i.isNoChange w = false) :
    coerceEntries s shape (entries.insert key v) = .ok coerced ↔
      ∃ w others, i.coerce s v = .ok w ∧ coerceEntries s shape entries = .ok others ∧
        coerced = others.insert key w := by
  induction entries generalizing coerced with
  | nil =>
    rw [Entries.insert, coerceEntries_cons]
    constructor
    · rintro ⟨j, w, others, hj, hw, hothers, rfl⟩
      obtain rfl := Option.some.inj (hi.symm.trans hj)
      obtain rfl : [] = others := Except.ok.inj hothers
      exact ⟨w, [], hw, hothers, if_neg (by simp [hkept])⟩
    · rintro ⟨w, others, hw, hothers, rfl⟩
      obtain rfl : [] = others := Except.ok.inj hothers
      exact ⟨i, w, [], hi, hw, hothers, (if_neg (by simp [hkept])).symm⟩
  | cons e es ih =>
    obtain ⟨k, x⟩ := e
    obtain ⟨hk, hsorted⟩ := List.pairwise_cons.1 hsorted
    obtain ⟨hne, habsent⟩ := List.forall_mem_cons.1 (Entries.get?_eq_none_iff.1 habsent)
    by_cases hlt : key < k
    · rw [Entries.insert, if_pos hlt, coerceEntries_cons]
      -- Nothing that is left of the others can stand before the new key.
      have hfront : ∀ {others : Entries} w, coerceEntries s shape ((k, x) :: es) = .ok others →
          others.insert key w = (key, w) :: others := by
        intro others w hothers
        refine Entries.insert_eq_cons fun e he => ?_
        obtain ⟨raw, hraw, -⟩ := exists_entry_of_coerceEntries hothers he
        rcases List.mem_cons.1 hraw with hfirst | hrest
        · rw [(Prod.mk.inj hfirst).1]
          exact hlt
        · exact String.lt_trans hlt (hk (e.1, raw) hrest)
      constructor
      · rintro ⟨j, w, others, hj, hw, hothers, rfl⟩
        obtain rfl := Option.some.inj (hi.symm.trans hj)
        refine ⟨w, others, hw, hothers, ?_⟩
        rw [hfront w hothers, if_neg (by simp [hkept])]
      · rintro ⟨w, others, hw, hothers, rfl⟩
        refine ⟨i, w, others, hi, hw, hothers, ?_⟩
        rw [hfront w hothers, if_neg (by simp [hkept])]
    · -- The new key comes later, whether the first entry is dropped or not.
      have hstep : ∀ (j : Input) (y w : Value) (others : Entries),
          (if j.isNoChange y then others else (k, y) :: others).insert key w =
            if j.isNoChange y then others.insert key w else (k, y) :: others.insert key w := by
        intro j y w others
        split
        · rfl
        · exact Entries.insert_cons_of_ne hlt hne
      rw [Entries.insert_cons_of_ne hlt hne, coerceEntries_cons]
      constructor
      · rintro ⟨j, y, rest, hj, hy, hrest, rfl⟩
        obtain ⟨w, others, hw, hothers, rfl⟩ :=
          (ih hsorted (Entries.get?_eq_none_iff.2 habsent)).1 hrest
        exact ⟨w, _, hw, coerceEntries_cons.2 ⟨j, y, others, hj, hy, hothers, rfl⟩,
          (hstep j y w others).symm⟩
      · rintro ⟨w, cs, hw, hcs, rfl⟩
        obtain ⟨j, y, others, hj, hy, hothers, rfl⟩ := coerceEntries_cons.1 hcs
        refine ⟨j, y, others.insert key w, hj, hy, ?_, hstep j y w others⟩
        exact (ih hsorted (Entries.get?_eq_none_iff.2 habsent)).2 ⟨w, others, hw, hothers, rfl⟩

/-- Nothing is found under a key that was not supplied. -/
theorem get?_of_coerceEntries (h : coerceEntries s shape entries = .ok coerced)
    (habsent : entries.get? key = none) : coerced.get? key = none := by
  rw [Entries.get?_eq_none_iff] at habsent ⊢
  intro e he
  obtain ⟨raw, hraw, -⟩ := exists_entry_of_coerceEntries h he
  exact habsent (e.1, raw) hraw

/-- What is found under a key was supplied there, and coerced by its input. -/
theorem exists_get?_of_coerceEntries (h : coerceEntries s shape entries = .ok coerced)
    (hi : shape.input? key = some i) (hkept : ∀ w, i.isNoChange w = false)
    (hw : coerced.get? key = some w) :
    ∃ raw, entries.get? key = some raw ∧ i.coerce s raw = .ok w := by
  induction entries generalizing coerced with
  | nil =>
    obtain rfl : [] = coerced := Except.ok.inj h
    cases hw
  | cons e es ih =>
    obtain ⟨k, x⟩ := e
    obtain ⟨j, y, others, hj, hy, hothers, rfl⟩ := coerceEntries_cons.1 h
    rw [Entries.get?_cons]
    by_cases hkey : key = k
    · subst hkey
      obtain rfl := Option.some.inj (hi.symm.trans hj)
      rw [if_neg (by simp [hkept]), Entries.get?_cons, if_pos (beq_self_eq_true key)] at hw
      rw [if_pos (beq_self_eq_true key)]
      exact ⟨x, rfl, hy.trans (congrArg _ (Option.some.inj hw))⟩
    · rw [if_neg (by simpa using hkey)]
      refine ih hothers ?_
      split at hw
      · exact hw
      · rwa [Entries.get?_cons, if_neg (by simpa using hkey)] at hw

/-- Entries are coerced alike by shapes that have the same inputs for them. -/
theorem coerceEntries_congr (h : ∀ e ∈ entries, one.input? e.1 = all.input? e.1) :
    coerceEntries s one entries = .ok coerced ↔ coerceEntries s all entries = .ok coerced := by
  induction entries generalizing coerced with
  | nil => rfl
  | cons e es ih =>
    obtain ⟨k, x⟩ := e
    obtain ⟨hk, hes⟩ := List.forall_mem_cons.1 h
    rw [coerceEntries_cons, coerceEntries_cons, hk]
    simp only [ih hes]

/-! ### Shapes with and without an identity -/

/-- The first shape has the inputs of the second after one that identifies the object. -/
structure Shape.Identifies (one all : Shape) (filter : Input) : Prop where
  role : one.role = .update
  allRole : all.role = .updateAll
  inputs : one.inputs = filter :: all.inputs
  kind : filter.kind = .filter
  name : filter.name = identityName
  others : ∀ i ∈ all.inputs, i.isFilter = false ∧ i.name ≠ identityName

namespace Shape.Identifies

theorem isFilter (h : Identifies one all filter) : filter.isFilter = true := by
  rw [Input.isFilter, h.kind]

theorem input?_identity (h : Identifies one all filter) :
    one.input? identityName = some filter := by
  rw [Shape.input?, h.inputs, List.find?_cons_of_pos (by simp [h.name])]

theorem input?_of_ne (h : Identifies one all filter) (hne : key ≠ identityName) :
    one.input? key = all.input? key := by
  rw [Shape.input?, h.inputs, List.find?_cons_of_neg (by simp [h.name, hne.symm])]
  rfl

theorem filter? (h : Identifies one all filter) : one.filter? = some filter := by
  rw [Shape.filter?, h.inputs, List.find?_cons_of_pos h.isFilter]

theorem filter?_all (h : Identifies one all filter) : all.filter? = none := by
  rw [Shape.filter?, List.find?_eq_none]
  intro i hi
  simp [(h.others i hi).1]

/-- The identity is among no fields that are replaced twice. -/
theorem conflict?_insert (h : Identifies one all filter) :
    one.conflict? (coerced.insert identityName w) = none ↔ all.conflict? coerced = none := by
  have hwriters : ∀ field, one.writers (coerced.insert identityName w) field =
      all.writers coerced field := by
    intro field
    have hskip : filter.kind.replaces = false := by rw [h.kind]; rfl
    rw [Shape.writers, Shape.writers, h.inputs, List.filter_cons_of_neg (by simp [hskip])]
    refine congrArg (List.map _) (List.filter_congr fun i hi => ?_)
    rw [Entries.has, Entries.has, Entries.get?_insert_of_ne (h.others i hi).2]
  rw [Shape.conflict?, Shape.conflict?, List.findSome?_eq_none_iff, List.findSome?_eq_none_iff,
    h.inputs, List.forall_mem_cons]
  simp only [hwriters]
  refine and_iff_right_of_imp fun hnone => ?_
  -- Writers of the field of the identity are inputs of the other shape, and counted there.
  rw [ite_eq_right_iff]
  intro hmany
  obtain ⟨name, hname⟩ := List.exists_mem_of_length_pos (Nat.zero_lt_of_lt hmany)
  obtain ⟨j, hj, -⟩ := List.mem_map.1 hname
  obtain ⟨hj, hwrites⟩ := List.mem_filter.1 hj
  have hfield : j.field.id = filter.field.id := by simp_all
  have hfew := hnone j hj
  rw [hfield, if_pos hmany] at hfew
  cases hfew

theorem complete_insert (h : Identifies one all filter) {u : Value} :
    one.complete (coerced.insert identityName w) = .ok u ↔
      all.complete coerced = .ok (.object coerced) ∧
        u = .object (coerced.insert identityName w) := by
  have hone : one.fillDefaults (coerced.insert identityName w) =
      coerced.insert identityName w := by rw [Shape.fillDefaults, h.role]
  have hall : all.fillDefaults coerced = coerced := by rw [Shape.fillDefaults, h.allRole]
  have hgiven : (coerced.insert identityName w).has filter.name = true := by
    rw [h.name, Entries.has, Entries.get?_insert_self]
    rfl
  rw [Shape.complete_eq_ok_iff, Shape.complete_eq_ok_iff, h.conflict?_insert, hone, hall, h.filter?,
    h.filter?_all]
  simp [hgiven]

/-- Many objects are updated with the coerced entries as they are. -/
theorem coerce_all_eq_ok (h : Identifies one all filter) : all.coerce s (.object entries) = .ok w ↔
    ∃ coerced, coerceEntries s all entries = .ok coerced ∧
      all.complete coerced = .ok (.object coerced) ∧ w = .object coerced := by
  have hall : ∀ coerced, all.fillDefaults coerced = coerced := by
    intro coerced
    rw [Shape.fillDefaults, h.allRole]
  rw [Shape.coerce, coerceObject, bind_eq_ok]
  refine exists_congr fun coerced => and_congr_right fun _ => ?_
  rw [Shape.complete_eq_ok_iff, Shape.complete_eq_ok_iff, hall]
  simp [and_assoc]

/-- The identity is coerced, and the rest as for many objects. -/
theorem coerce_insert_eq_ok (h : Identifies one all filter) (hsorted : entries.Increasing)
    (habsent : entries.get? identityName = none) {id id' : Value}
    (hid : coerceId identityName id = .ok id') :
    one.coerce s (.object (entries.insert identityName id)) = .ok w ↔
      ∃ changed : Entries, all.coerce s (.object entries) = .ok (.object changed) ∧
        w = .object (changed.insert identityName id') := by
  have hfilter : ∀ x, filter.coerce s id = .ok x ↔ x = id' := by
    intro x
    rw [Input.coerce, Input.coerceWith, h.kind]
    simp only [h.name, hid, Except.ok.injEq]
    exact eq_comm
  have hkept : ∀ x, filter.isNoChange x = false := by
    intro x
    rw [Input.isNoChange, h.kind]
  have hsame : ∀ coerced, coerceEntries s one entries = .ok coerced ↔
      coerceEntries s all entries = .ok coerced := by
    intro coerced
    refine coerceEntries_congr fun e he => h.input?_of_ne ?_
    exact Entries.get?_eq_none_iff.1 habsent e he
  rw [Shape.coerce, coerceObject, bind_eq_ok]
  simp only [coerceEntries_insert hsorted habsent h.input?_identity hkept, hfilter, hsame,
    h.coerce_all_eq_ok]
  constructor
  · rintro ⟨_, ⟨_, others, rfl, hothers, rfl⟩, hcomplete⟩
    obtain ⟨hall, rfl⟩ := h.complete_insert.1 hcomplete
    exact ⟨others, ⟨others, hothers, hall, rfl⟩, rfl⟩
  · rintro ⟨changed, ⟨_, hchanged, hall, ⟨⟩⟩, rfl⟩
    exact ⟨_, ⟨id', changed, rfl, hchanged, rfl⟩, h.complete_insert.2 ⟨hall, rfl⟩⟩

/-- No step is made for the identity. -/
theorem changes_insert (h : Identifies one all filter) (current : Plan) :
    changes s (.object (entries.insert identityName w)) one.inputs current =
      changes s (.object entries) all.inputs current := by
  have hfilter : filter.plan s w current = pure [] := Input.plan_filter h.kind
  rw [changes_object, changes_object, h.inputs, List.mapM_cons, h.name, Entries.get?_insert_self]
  simp only [hfilter, pure_bind, bind_assoc, List.flatten_cons, List.nil_append]
  refine congrArg (· >>= _) (mapM_congr fun i hi => ?_)
  rw [Entries.get?_insert_of_ne (h.others i hi).2]

/-- The step around the changes is the same, from every supply. -/
theorem update_insert (h : Identifies one all filter) (target : Plan) :
    one.update target (changes s (.object (entries.insert identityName w))) =
      all.update target (changes s (.object entries)) := by
  rw [Shape.update, Shape.update]
  refine congrArg (fresh "target" >>= ·) (funext fun binding => ?_)
  rw [h.changes_insert]

/-- The identity touches no field. -/
theorem affected_insert (h : Identifies one all filter) :
    affected s (.object (entries.insert identityName w)) one.inputs =
      affected s (.object entries) all.inputs := by
  have hfilter : filter.affected s w = pure [] := by
    rw [Input.affected, Input.affectedWith, h.kind]
  rw [affected_object, affected_object, h.inputs, List.mapM_cons, h.name, Entries.get?_insert_self]
  simp only [hfilter, pure_bind, bind_assoc, List.flatten_cons, List.nil_append]
  refine congrArg (· >>= _) (mapM_congr fun i hi => ?_)
  rw [Entries.get?_insert_of_ne (h.others i hi).2]

end Shape.Identifies

namespace Schema

/-- A declared field has the same inputs in all updates. -/
theorem fieldInputs_update {f : FieldDef} (h : f.isSystem = false) :
    s.fieldInputs .update f = s.fieldInputs .updateAll f := by
  have hembedded : ∀ target, embeddedInputs? .update f target =
      embeddedInputs? .updateAll f target := by
    intro target
    cases hkind : target.kind <;> cases hlist : f.isList <;> simp [embeddedInputs?, hkind, hlist]
  rw [fieldInputs, fieldInputs, h, if_neg Bool.false_ne_true, if_neg Bool.false_ne_true,
    declaredInputs, declaredInputs]
  simp only [hembedded]
  rfl

/-- A system field has an input only if it is the identity of one object. -/
theorem fieldInputs_system {f : FieldDef} (h : f.isSystem = true) (role : Role) :
    s.fieldInputs role f =
      .ok (if f.name = identityName ∧ role = .update then [⟨f.name, f, .filter⟩] else []) := by
  rw [fieldInputs, h, if_pos rfl, FieldDef.isIdentity, h]
  simp

/-- The shape that updates one entity has the inputs for many after its identity. -/
theorem Built.shape_update (h : s.Built) (ht : t ∈ s.types) (hentity : t.kind.isEntity = true)
    (hall : s.shape .updateAll t = .ok all) :
    ∃ f ∈ t.fields, f.isSystem = true ∧ f.name = identityName ∧
      s.shape .update t = .ok ⟨.update, t, ⟨identityName, f, .filter⟩ :: all.inputs⟩ := by
  obtain ⟨hobject, inputs, hinputs, rfl⟩ := shape_eq_ok hall
  obtain ⟨system, declared, hfields, hnames, hsystem, hdeclared⟩ := h.fields_eq ht
  rw [hentity, if_pos rfl] at hnames
  obtain ⟨id, rest, rfl, hid, hrest⟩ := List.map_eq_cons_iff.1 hnames
  have hown := hsystem id List.mem_cons_self
  have hlater : ∀ f ∈ rest ++ declared, s.fieldInputs .update f = s.fieldInputs .updateAll f := by
    intro f hf
    rcases List.mem_append.1 hf with hf | hf
    · have hne : f.name ≠ identityName := by
        have hname : f.name ∈ ["createdAt", "updatedAt"] := hrest ▸ List.mem_map_of_mem hf
        revert hname
        generalize f.name = name
        rintro hname rfl
        revert hname
        decide
      have hf := hsystem f (List.mem_cons_of_mem id hf)
      rw [fieldInputs_system hf, fieldInputs_system hf]
      simp [hne]
    · exact fieldInputs_update (hdeclared f hf)
  rw [hfields, List.cons_append, List.mapM_cons, fieldInputs_system hown] at hinputs
  obtain ⟨own, hown', hinputs⟩ := bind_eq_ok.1 hinputs
  obtain ⟨others, hothers, hinputs⟩ := bind_eq_ok.1 hinputs
  obtain rfl : [] = own := by simpa using hown'
  obtain rfl := Except.ok.inj hinputs
  refine ⟨id, by simp [hfields], hown, hid, ?_⟩
  rw [Schema.shape, if_pos hobject, hfields, List.cons_append, List.mapM_cons,
    mapM_congr hlater, hothers, fieldInputs_system hown, hid]
  rfl

/-- No generated name is that of the identity. -/
theorem spell_ne_identityName {wording : Wording} (h : wording ≠ .plain) (name : String) :
    wording.spell name ≠ identityName := by
  intro hspell
  rw [Wording.spell, if_neg h] at hspell
  have hstem : wording.stem.toList <+: identityName.toList := by
    rw [← hspell, String.toList_append]
    exact List.prefix_append _ _
  have hnone : ∀ w ∈ Wording.all, w ≠ .plain → ¬w.stem.toList <+: identityName.toList := by decide
  exact hnone wording wording.mem_all h hstem

namespace Lawful

/-- No other input of an entity is called like its identity. -/
theorem name_ne_identityName (h : s.Lawful) (ht : t ∈ s.types)
    (hall : s.shape .updateAll t = .ok all) {f : FieldDef} (hf : f ∈ t.fields)
    (hsystem : f.isSystem = true) (hname : f.name = identityName) (hi : i ∈ all.inputs) :
    i.isFilter = false ∧ i.name ≠ identityName := by
  obtain ⟨g, hg, hoffers⟩ := exists_offers_of_mem_shape hall hi
  have hfilter : i.isFilter = false := by
    cases hoffers <;> rfl
  refine ⟨hfilter, ?_⟩
  rw [hoffers.name_eq, hoffers.field_eq]
  by_cases hplain : i.wording .updateAll = .plain
  · intro hsame
    rw [hplain] at hsame
    -- Then the field would be the system field, which has no input for many objects.
    have hnodup := h.nodup_fieldNames ht (shape_eq_ok hall).1
    obtain rfl : g = f := List.inj_on_of_nodup_map hnodup hg hf (hsame.trans hname.symm)
    rw [hoffers.declared hfilter] at hsystem
    cases hsystem
  · exact spell_ne_identityName hplain g.name

/-- The two shapes that update an entity. -/
theorem exists_identifies (h : s.Lawful) (ht : t ∈ s.types) (hentity : t.kind.isEntity = true) :
    ∃ one all filter, s.shape .update t = .ok one ∧ s.shape .updateAll t = .ok all ∧
      Shape.Identifies one all filter := by
  have hobject : t.kind.isObject = true := by
    cases hkind : t.kind <;> simp_all [TypeKind.isEntity, TypeKind.isObject]
  obtain ⟨all, hall⟩ := h.exists_shape ht hobject .updateAll
  obtain ⟨f, hf, hsystem, hname, hone⟩ := h.built.shape_update ht hentity hall
  exact ⟨_, all, _, hone, hall, rfl, role_of_shape hall, rfl, rfl, rfl,
    fun i hi => h.name_ne_identityName ht hall hf hsystem hname hi⟩

/-- What is changed in many objects has its step and its fields. -/
theorem exists_update (h : s.Lawful) (ht : t ∈ s.types) {role : Role}
    (hshape : s.shape role t = .ok shape) (u : Value) (target : Plan) (supply : Supply) :
    ∃ steps rest fields, (shape.update target (changes s u)).outcome supply =
        (.ok (.updateObject target ⟨supply.next, "target"⟩ steps), rest) ∧
      affected s u shape.inputs = .ok fields := by
  have hinputs := hasInputs_of_shape ht hshape
  obtain ⟨steps, rest, hsteps, -⟩ := (h.changes_succeed u shape.inputs
    (.var ⟨supply.next, "target"⟩) hinputs).exists_ok ⟨supply.next + 1⟩
  have hfields := h.affected_succeeds u shape.inputs hinputs
  cases haffected : affected s u shape.inputs with
  | error e => exact (hfields e haffected).elim
  | ok fields =>
    refine ⟨steps, rest, fields, ?_, rfl⟩
    rw [Shape.update, Planner.outcome_bind, outcome_fresh]
    simp only [Planner.outcome_bind, hsteps, Planner.outcome_pure]

end Lawful

end Schema

/-! ### Accepted schemas -/

/-- **One entity is updated as many are.** In an accepted schema, an object of changes for one
entity is coerced exactly if the same object without the identity is coerced for many, and to the
same entries with the identity as text. From every supply the two make the same step with the same
variables, and they affect the same fields. -/
theorem update_one_as_many {decl : SchemaDecl} {a : AcceptedSchema} (h : decl.accept = .ok a)
    (ht : t ∈ a.schema.types) (hentity : t.kind.isEntity = true) :
    ∃ one all, a.schema.shape .update t = .ok one ∧ a.schema.shape .updateAll t = .ok all ∧
      ∀ entries : Entries, entries.Increasing → entries.get? identityName = none →
        ∀ id id', coerceId identityName id = .ok id' →
          (∀ w, one.coerce a.schema (.object (entries.insert identityName id)) = .ok w ↔
            ∃ changed : Entries, all.coerce a.schema (.object entries) = .ok (.object changed) ∧
              changed.get? identityName = none ∧
              w = .object (changed.insert identityName id')) ∧
          ∀ changed : Entries, all.coerce a.schema (.object entries) = .ok (.object changed) →
            ∀ target supply, ∃ steps rest fields,
              (one.update target (changes a.schema
                (.object (changed.insert identityName id')))).outcome supply =
                  (.ok (.updateObject target ⟨supply.next, "target"⟩ steps), rest) ∧
              (all.update target (changes a.schema (.object changed))).outcome supply =
                  (.ok (.updateObject target ⟨supply.next, "target"⟩ steps), rest) ∧
              affected a.schema (.object (changed.insert identityName id')) one.inputs =
                .ok fields ∧
              affected a.schema (.object changed) all.inputs = .ok fields := by
  have hs := SchemaDecl.lawful_of_accept h
  obtain ⟨one, all, filter, hone, hall, hshapes⟩ := hs.exists_identifies ht hentity
  refine ⟨one, all, hone, hall, fun entries hsorted habsent id id' hid => ⟨fun w => ?_, ?_⟩⟩
  · rw [hshapes.coerce_insert_eq_ok hsorted habsent hid]
    refine exists_congr fun changed => and_congr_right fun hchanged => ?_
    obtain ⟨_, hcoerced, -, ⟨⟩⟩ := hshapes.coerce_all_eq_ok.1 hchanged
    rw [get?_of_coerceEntries hcoerced habsent]
    simp
  · intro changed _ target supply
    obtain ⟨steps, rest, fields, hsteps, hfields⟩ :=
      hs.exists_update ht hall (.object changed) target supply
    refine ⟨steps, rest, fields, ?_, hsteps, ?_, hfields⟩
    · rw [hshapes.update_insert, hsteps]
    · rw [hshapes.affected_insert, hfields]

/-- Order 7 of the shop gets a total and a changed item as every order does. -/
theorem shop_order_updated_as_many : ∃ order ∈ shop.schema.types, order.name = "Order" ∧
    order.kind.isEntity = true ∧ ∃ one all, shop.schema.shape .update order = .ok one ∧
      shop.schema.shape .updateAll order = .ok all ∧
      ∃ entries changed : Entries, entries.Increasing ∧ entries.get? identityName = none ∧
        coerceId identityName (.int 7) = .ok (.string "7") ∧
        all.coerce shop.schema (.object entries) = .ok (.object changed) ∧
        changed.get? "total" = some (.int 30) ∧
        one.coerce shop.schema (.object (entries.insert identityName (.int 7))) =
          .ok (.object (changed.insert identityName (.string "7"))) ∧
        ∃ steps rest fields,
          (one.update (.entities order.id) (changes shop.schema
            (.object (changed.insert identityName (.string "7"))))).outcome ⟨5⟩ =
              (.ok (.updateObject (.entities order.id) ⟨5, "target"⟩ steps), rest) ∧
          (all.update (.entities order.id) (changes shop.schema (.object changed))).outcome ⟨5⟩ =
              (.ok (.updateObject (.entities order.id) ⟨5, "target"⟩ steps), rest) ∧
          affected shop.schema (.object (changed.insert identityName (.string "7"))) one.inputs =
            .ok fields ∧
          affected shop.schema (.object changed) all.inputs = .ok fields := by
  have ht : shop.schema.types.get ⟨8, by decide⟩ ∈ shop.schema.types := List.get_mem _ _
  obtain ⟨one, all, hone, hall, hagree⟩ := update_one_as_many accept_shopDecl ht rfl
  have hevaluated : ∃ shape, shop.schema.shape .updateAll (shop.schema.types.get ⟨8, by decide⟩) =
      .ok shape ∧ ∃ changed : Entries, shape.coerce shop.schema (.object [("total", .int 30),
        ("updateItems", .list [.object [("id", .int 4), ("sku", .string "red")]])]) =
          .ok (.object changed) ∧ changed.get? "total" = some (.int 30) ∧
            changed.get? identityName = none := ⟨_, rfl, _, rfl, rfl, rfl⟩
  obtain ⟨shape, hshape, changed, hchanged, htotal, hnone⟩ := hevaluated
  obtain rfl := Except.ok.inj (hall.symm.trans hshape)
  have hsorted : Entries.Increasing [("total", .int 30),
      ("updateItems", .list [.object [("id", .int 4), ("sku", .string "red")]])] :=
    List.pairwise_pair.2 (by decide)
  obtain ⟨hcoerce, hcompile⟩ := hagree _ hsorted rfl (.int 7) (.string "7") rfl
  exact ⟨_, ht, rfl, rfl, one, all, hone, hall, _, changed, hsorted, rfl, rfl, hchanged, htotal,
    (hcoerce _).2 ⟨changed, hchanged, hnone, rfl⟩, hcompile changed hchanged (.entities _) ⟨5⟩⟩

end EntityGraph
