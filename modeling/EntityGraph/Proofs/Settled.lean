import EntityGraph.Proofs.InputNames
import EntityGraph.Proofs.Steps

/-!
# Settled input objects

Coercion refuses an input object in which two inputs replace the same field. Declared defaults come
in after this check, and they are not coerced, so nothing has looked at the input objects in a
default. Still no field is replaced twice. A default is for the plain setter of a field that is not
a relation, and such a field has no other input in the shape of a new object. The same holds all the
way down, since a default embeds everything that it contains.

An input object is settled if no two given inputs replace one field, in it and in the input objects
inside. Names matter here: a key that two inputs share is coerced by the first and planned by both.
So everything below is about schemas in which the names of each shape are distinct.

## Main definitions

* `Schema.NamesDistinct` — no two inputs of a shape share a name
* `Input.Apart` — two inputs that do not replace one field together
* `Schema.Settled` — nothing is replaced twice, at any depth

## Main results

* `Schema.Lawful.settled_embedded` — every value is settled as a new embedded object
* `Schema.Lawful.settled_of_coerceObject` — coerced input objects are settled
-/

namespace EntityGraph

/-- The names of the inputs are distinct in every shape of the schema. -/
def Schema.NamesDistinct (s : Schema) : Prop :=
  ∀ role, ∀ t ∈ s.types, ∀ shape, s.shape role t = .ok shape → (shape.inputs.map (·.name)).Nodup

instance (s : Schema) : Decidable s.NamesDistinct :=
  decidable_of_iff (∀ t ∈ s.types, ∀ role ∈ [Role.create, .update, .updateAll],
      ((s.shape role t).toOption.all fun shape => (shape.inputs.map (·.name)).Nodup) = true) <| by
    constructor
    · intro h role t ht shape hshape
      have hall := h t ht role (by cases role <;> simp)
      simpa [hshape, Except.toOption] using hall
    · intro h t ht role _
      cases hshape : s.shape role t with
      | error e => rfl
      | ok shape => simpa [Except.toOption] using h role t ht shape hshape

/-- Two inputs of a shape have different names, and if they replace the same field then the input
object does not give both. -/
def Input.Apart (u : Value) (i j : Input) : Prop :=
  i.name ≠ j.name ∧ (i.field.id = j.field.id → i.kind.replaces = true → j.kind.replaces = true →
    u.get? i.name = none ∨ u.get? j.name = none)

/-- No two given inputs replace the same field, in the input object and in those inside it. -/
inductive Schema.Settled (s : Schema) : Shape → Value → Prop
  | intro {shape : Shape} {u : Value} (own : shape.inputs.Pairwise (Input.Apart u))
      (inside : ∀ i ∈ shape.inputs, ∀ w, u.get? i.name = some w → ∀ nested,
        i.nestedShape? s = some nested → ∀ v ∈ i.objects w, Settled s nested v) :
    Settled s shape u

variable {s : Schema} {shape nested : Shape} {i j : Input} {u v w : Value} {f : FieldDef}
  {t : TypeDef} {role : Role}

/-! ### Inputs of new objects -/

namespace Schema

/-- A field of a new object that is no relation has its own name for an input. -/
theorem Offers.name_eq_field (h : s.Offers .create f i) (hrelation : f.isRelation = false) :
    i.name = f.name := by
  cases h with
  | reference | scalar | valueObject | createExtension | createChildren => rfl
  | combine _ _ hrole | updateExtension _ _ hrole | addChildren _ _ hrole
  | updateChildren _ _ hrole | removeChildren _ _ hrole => exact absurd rfl hrole
  | addEdges _ hrole | removeEdges _ hrole => exact absurd rfl hrole
  | initialEdges | setEdge => rfl
  | createAndAddEdges h | createAndSetEdge h => simp [h.isRelation] at hrelation

theorem Offers.noRelation_of_isSetter (h : s.Offers role f i) (hsetter : i.kind.isSetter = true) :
    f.isRelation = false := by
  cases h with
  | reference h => exact h.noRelation
  | scalar h | valueObject h | createExtension h | createChildren h => exact h.noRelation
  | filter | combine | updateExtension | addChildren | updateChildren | removeChildren
  | initialEdges | addEdges | removeEdges | createAndAddEdges | setEdge | createAndSetEdge =>
    cases hsetter

/-- The input objects for a field of a new object that is no relation are new embedded objects. -/
theorem Offers.nested_embedded (h : s.Offers .create f i) (hrelation : f.isRelation = false)
    (hn : i.kind.nested? = some (role, t)) : role = .create ∧ t.isRoot = false := by
  cases h with
  | reference | scalar | initialEdges | setEdge => cases hn
  | valueObject _ hkind | createExtension _ hkind | createChildren _ hkind =>
    cases hn
    exact ⟨rfl, by simp [TypeDef.isRoot, hkind]⟩
  | combine _ _ hrole | updateExtension _ _ hrole | addChildren _ _ hrole
  | updateChildren _ _ hrole | removeChildren _ _ hrole => exact absurd rfl hrole
  | addEdges _ hrole | removeEdges _ hrole => exact absurd rfl hrole
  | createAndAddEdges h | createAndSetEdge h => simp [h.isRelation] at hrelation

/-- Nothing identifies a new object. -/
theorem Offers.isFilter_of_create (h : s.Offers .create f i) : i.isFilter = false := by
  cases h <;> rfl

/-- Only root entities have relations, so the fields of a new embedded object are none. -/
theorem Lawful.noRelation_of_embedded (h : s.Lawful) (hshape : s.HasShape shape)
    (hrole : shape.role = .create) (hroot : shape.type.isRoot = false) (hi : i ∈ shape.inputs) :
    s.Offers .create i.field i ∧ i.field.isRelation = false := by
  obtain ⟨hf, hoffers⟩ := hshape.offers hi
  rw [hrole] at hoffers
  obtain ⟨target, -, hrules⟩ :=
    h.typedRules hshape.mem hf (hoffers.declared hoffers.isFilter_of_create)
  refine ⟨hoffers, ?_⟩
  by_contra hrelation
  have howner := (hrules.relation (by simpa using hrelation)).ownerRoot
  simp [hroot] at howner

theorem role_of_shape (h : s.shape role t = .ok shape) : shape.role = role := by
  obtain ⟨-, inputs, -, rfl⟩ := shape_eq_ok h
  rfl

end Schema

/-! ### Distinct names -/

namespace Schema

theorem NamesDistinct.nodup (hnames : s.NamesDistinct) (hshape : s.HasShape shape) :
    (shape.inputs.map (·.name)).Nodup := hnames _ _ hshape.mem _ hshape.made

theorem NamesDistinct.pairwise (hnames : s.NamesDistinct) (hshape : s.HasShape shape) :
    shape.inputs.Pairwise (·.name ≠ ·.name) := List.pairwise_map.1 (hnames.nodup hshape)

/-- Inputs of a shape that write the same field have equal fields. -/
theorem HasShape.field_eq (hshape : s.HasShape shape) (hs : s.Numbered) (hi : i ∈ shape.inputs)
    (hj : j ∈ shape.inputs) (h : i.field.id = j.field.id) : i.field = j.field :=
  hs.field_eq_of_id (hshape.hasInputs i hi).field_mem (hshape.hasInputs j hj).field_mem h

end Schema

/-- If names are distinct, an input is found under its name. -/
theorem Shape.input?_of_mem (hnames : (shape.inputs.map (·.name)).Nodup) (hi : i ∈ shape.inputs) :
    shape.input? i.name = some i := find?_name_of_nodup hnames hi

/-- The plain setter of a field is the only input of a new object for it. -/
theorem Schema.NamesDistinct.eq_of_field (hnames : s.NamesDistinct) (hshape : s.HasShape shape)
    (hrole : shape.role = .create) (hi : i ∈ shape.inputs) (hsetter : i.kind.isSetter = true)
    (hj : j ∈ shape.inputs) (hfield : j.field = i.field) : j = i := by
  have hrelation := (hshape.offers hi).2.noRelation_of_isSetter hsetter
  have hnamed : ∀ k ∈ shape.inputs, k.field = i.field → k.name = i.field.name := by
    intro k hk hkfield
    have hoffers := (hshape.offers hk).2
    rw [hrole, hkfield] at hoffers
    exact hoffers.name_eq_field hrelation
  refine List.inj_on_of_nodup_map (hnames.nodup hshape) hj hi ?_
  exact (hnamed j hj hfield).trans (hnamed i hi rfl).symm

/-! ### Embedded objects -/

namespace Schema.Lawful

/-- The fields of a new embedded object have one input each. -/
theorem pairwise_embedded (h : s.Lawful) (hnames : s.NamesDistinct) (hshape : s.HasShape shape)
    (hrole : shape.role = .create) (hroot : shape.type.isRoot = false) (u : Value) :
    shape.inputs.Pairwise (Input.Apart u) := by
  have hnamed : ∀ i ∈ shape.inputs, i.name = i.field.name := by
    intro i hi
    obtain ⟨hoffers, hrelation⟩ := h.noRelation_of_embedded hshape hrole hroot hi
    exact hoffers.name_eq_field hrelation
  refine (hnames.pairwise hshape).imp_of_mem fun {i j} hi hj hne => ⟨hne, fun hfield _ _ => ?_⟩
  have hsame := hshape.field_eq h.built.numbered hi hj hfield
  refine absurd ?_ hne
  rw [hnamed i hi, hnamed j hj, hsame]

/-- Every value is settled as a new embedded object. -/
theorem settled_embedded (h : s.Lawful) (hnames : s.NamesDistinct) (u : Value) :
    ∀ shape, s.HasShape shape → shape.role = .create → shape.type.isRoot = false →
      s.Settled shape u := by
  induction u using Value.induct_object with
  | plain u hplain =>
    intro shape hshape hrole hroot
    refine .intro (h.pairwise_embedded hnames hshape hrole hroot u) fun i _ w hw => ?_
    cases u with
    | object => cases hplain
    | null | bool | int | float | string | list => cases hw
  | object entries ih =>
    intro shape hshape hrole hroot
    refine .intro (h.pairwise_embedded hnames hshape hrole hroot _) ?_
    intro i hi w hw nested hnested v hv
    obtain ⟨nestedRole, t, hn, hmade⟩ := Input.nestedShape?_eq_some.1 hnested
    obtain ⟨hhas, htype⟩ := (hshape.hasInputs i hi).hasShape hn hmade
    obtain ⟨hoffers, hrelation⟩ := h.noRelation_of_embedded hshape hrole hroot hi
    obtain ⟨rfl, hembedded⟩ := hoffers.nested_embedded hrelation hn
    rw [← htype] at hembedded
    have hsmaller := ih _ (Entries.mem_of_get? hw)
    rcases Input.mem_objects hv with rfl | hv
    · exact hsmaller.1 nested hhas (role_of_shape hmade) hembedded
    · exact hsmaller.2 v hv nested hhas (role_of_shape hmade) hembedded

end Schema.Lawful

/-! ### Coerced objects -/

/-- A list of input objects was coerced item by item, or was null. -/
theorem items_of_coerceObjects {input : String} {items : Except InputError (List Value)}
    (h : coerceObjects input v items = .ok w) : w.items = [] ∨ items = .ok w.items := by
  cases v with
  | null =>
    rw [← Except.ok.inj h]
    exact .inl rfl
  | list =>
    cases items with
    | error e => cases h
    | ok us =>
      rw [← Except.ok.inj h]
      exact .inr rfl
  | bool | int | float | string | object => cases h

namespace Input

/-- The input objects in a coerced value were coerced from the supplied one or from its items. -/
theorem exists_supplied (h : i.coerce s v = .ok w) (hnested : i.nestedShape? s = some nested)
    (hu : u ∈ i.objects w) :
    ∃ raw, (raw = v ∨ raw ∈ v.items) ∧ coerceObject s nested raw = .ok u := by
  obtain ⟨role, t, hn, hmade⟩ := nestedShape?_eq_some.1 hnested
  have hsingle : (if v.isNull then .ok .null else coerceObject s nested v) = Except.ok w →
      u ∈ (if w.isNull then [] else [w]) →
      ∃ raw, (raw = v ∨ raw ∈ v.items) ∧ coerceObject s nested raw = .ok u := by
    intro hcoerced hmem
    split at hcoerced
    · rw [← Except.ok.inj hcoerced] at hmem
      simp [Value.isNull] at hmem
    · obtain rfl : u = w := by
        split at hmem
        · simp at hmem
        · simpa using hmem
      exact ⟨v, .inl rfl, hcoerced⟩
  have hmany : coerceObjects i.name v (coerceItems s nested v) = .ok w → u ∈ w.items →
      ∃ raw, (raw = v ∨ raw ∈ v.items) ∧ coerceObject s nested raw = .ok u := by
    intro hcoerced hmem
    rcases items_of_coerceObjects hcoerced with hempty | hitems
    · simp [hempty] at hmem
    · rw [coerceItems_eq] at hitems
      obtain ⟨raw, hraw, hobject⟩ := exists_of_mem_mapM hitems hmem
      exact ⟨raw, .inr hraw, hobject⟩
  obtain ⟨name, f, kind⟩ := i
  rw [coerce, coerceWith] at h
  cases kind with
  | filter | scalar | combine | removeChildren | reference | addEdges | removeEdges | setEdge =>
    cases hn
  | valueObject type list =>
    cases hn
    cases list with
    | false =>
      simp only [hmade] at h
      exact hsingle h hu
    | true =>
      simp only [hmade] at h
      exact hmany h hu
  | createExtension | createAndSetEdge | updateExtension =>
    cases hn
    simp only [hmade] at h
    exact hsingle h hu
  | createChildren | addChildren | createAndAddEdges =>
    cases hn
    simp only [hmade] at h
    exact hmany h hu
  | updateChildren =>
    cases hn
    simp only [hmade] at h
    obtain ⟨updates, hupdates, h⟩ := bind_eq_ok.1 (show (coerceObjects name v _ >>= _) = _ from h)
    split at h
    · cases h
    · rw [Except.ok.inj h] at hupdates
      exact hmany hupdates hu

theorem default?_eq_some (h : i.default? role = some w) :
    role = .create ∧ i.kind.isSetter = true := by
  cases role with
  | create =>
    rw [default?] at h
    split at h
    · next hsetter => exact ⟨rfl, hsetter⟩
    · cases h
  | update | updateAll => cases h

end Input

theorem coerceEntries_cons {k : String} {entries coerced : Entries} :
    coerceEntries s shape ((k, v) :: entries) = .ok coerced ↔
      ∃ i w others, shape.input? k = some i ∧ i.coerce s v = .ok w ∧
        coerceEntries s shape entries = .ok others ∧
        coerced = if i.isNoChange w then others else (k, w) :: others := by
  rw [coerceEntries]
  cases hi : shape.input? k with
  | none =>
    constructor
    · intro h
      cases h
    · rintro ⟨i, w, others, hi, -⟩
      cases hi
  | some i =>
    constructor
    · intro h
      obtain ⟨w, hw, h⟩ := bind_eq_ok.1 h
      obtain ⟨others, hothers, h⟩ := bind_eq_ok.1 h
      exact ⟨i, w, others, rfl, hw, hothers, (Except.ok.inj h).symm⟩
    · rintro ⟨i, w, others, ⟨⟩, hw, hothers, rfl⟩
      exact bind_eq_ok.2 ⟨w, hw, bind_eq_ok.2 ⟨others, hothers, rfl⟩⟩

/-- A coerced entry was supplied under the same key, and coerced by the input of that name. -/
theorem exists_entry_of_coerceEntries {entries coerced : Entries} {e : String × Value}
    (h : coerceEntries s shape entries = .ok coerced) (he : e ∈ coerced) :
    ∃ raw, (e.1, raw) ∈ entries ∧ ∃ i, shape.input? e.1 = some i ∧ i.coerce s raw = .ok e.2 ∧
      i.isNoChange e.2 = false := by
  induction entries generalizing coerced with
  | nil =>
    rw [coerceEntries] at h
    rw [← Except.ok.inj h] at he
    cases he
  | cons first rest ih =>
    obtain ⟨k, v⟩ := first
    obtain ⟨i, w, others, hi, hw, hothers, rfl⟩ := coerceEntries_cons.1 h
    have hlater : e ∈ others → ∃ raw, (e.1, raw) ∈ (k, v) :: rest ∧ ∃ i,
        shape.input? e.1 = some i ∧ i.coerce s raw = .ok e.2 ∧ i.isNoChange e.2 = false := by
      intro hmem
      obtain ⟨raw, hraw, hentry⟩ := ih hothers hmem
      exact ⟨raw, List.mem_cons_of_mem _ hraw, hentry⟩
    split at he
    · exact hlater he
    · next hchange =>
      rcases List.mem_cons.1 he with rfl | he
      · exact ⟨v, List.mem_cons_self, i, hi, hw, by simpa using hchange⟩
      · exact hlater he

namespace Shape

/-- An object is complete if its inputs may be given together and what is to be updated is said. -/
theorem complete_eq_ok_iff {entries : Entries} : shape.complete entries = .ok u ↔
    shape.conflict? entries = none ∧
      (∀ filter, shape.filter? = some filter →
        (shape.fillDefaults entries).has filter.name = true) ∧
      u = .object (shape.fillDefaults entries) := by
  rw [complete]
  cases hconflict : shape.conflict? entries with
  | some conflict =>
    constructor
    · intro h
      cases h
    · rintro ⟨h, -⟩
      cases h
  | none =>
    cases hfilter : shape.filter? with
    | none =>
      constructor
      · intro h
        refine ⟨rfl, ?_, (Except.ok.inj h).symm⟩
        rintro _ ⟨⟩
      · rintro ⟨-, -, rfl⟩
        rfl
    | some filter =>
      change ite _ _ _ = _ ↔ _
      split
      · next hmissing =>
        constructor
        · intro h
          cases h
        · rintro ⟨-, hgiven, -⟩
          simp [hgiven filter rfl] at hmissing
      · next hgiven =>
        constructor
        · intro h
          refine ⟨rfl, ?_, (Except.ok.inj h).symm⟩
          rintro _ ⟨⟩
          simpa using hgiven
        · rintro ⟨-, -, rfl⟩
          rfl

/-- Without a conflict, no two inputs that replace one field are given. -/
theorem pairwise_of_conflict? {entries : Entries} (h : shape.conflict? entries = none) :
    shape.inputs.Pairwise fun i j => i.field.id = j.field.id → i.kind.replaces = true →
      j.kind.replaces = true → entries.get? i.name = none ∨ entries.get? j.name = none := by
  rw [List.pairwise_iff_forall_sublist]
  intro i j hsub hfield hi hj
  by_contra hgiven
  rw [not_or, ← ne_eq, ← ne_eq, ← Option.isSome_iff_ne_none, ← Option.isSome_iff_ne_none] at hgiven
  have hwriters : (shape.writers entries i.field.id).length ≤ 1 := by
    have hnone := List.findSome?_eq_none_iff.1 h i (hsub.subset (by simp))
    simpa using hnone
  -- Both inputs pass the filter of the writers, in their order.
  have hboth := hsub.filter fun k =>
    k.field.id == i.field.id && k.kind.replaces && entries.has k.name
  have hkept : [i, j].filter (fun k =>
      k.field.id == i.field.id && k.kind.replaces && entries.has k.name) = [i, j] := by
    simp [hi, hj, hfield, Entries.has, hgiven.1, hgiven.2]
  rw [hkept] at hboth
  have hlength := hboth.length_le
  rw [writers, List.length_map] at hwriters
  have htwo : [i, j].length = 2 := rfl
  omega

end Shape

namespace Schema.Lawful

/-- A coerced input object does not give two inputs that replace one field, with its defaults. -/
theorem pairwise_complete (h : s.Lawful) (hnames : s.NamesDistinct) (hshape : s.HasShape shape)
    {entries : Entries} (hu : shape.complete entries = .ok u) :
    shape.inputs.Pairwise (Input.Apart u) := by
  obtain ⟨hconflict, -, rfl⟩ := Shape.complete_eq_ok_iff.1 hu
  have hnodup := hnames.nodup hshape
  have hboth := (hnames.pairwise hshape).and (Shape.pairwise_of_conflict? hconflict)
  refine hboth.imp_of_mem fun {i j} hi hj ⟨hne, hapart⟩ => ⟨hne, fun hfield hri hrj => ?_⟩
  have hsame := hshape.field_eq h.built.numbered hi hj hfield
  -- A default is for the only input of its field, so here none was filled in.
  have hdefault : ∀ k ∈ shape.inputs, k.field = i.field → k.default? shape.role = none := by
    intro k hk hfield
    by_contra hsome
    obtain ⟨d, hd⟩ := Option.ne_none_iff_exists'.1 hsome
    obtain ⟨hrole, hsetter⟩ := Input.default?_eq_some hd
    have hi := hnames.eq_of_field hshape hrole hk hsetter hi hfield.symm
    have hj := hnames.eq_of_field hshape hrole hk hsetter hj (hsame.symm.trans hfield.symm)
    exact hne (by rw [hi, hj])
  have hgiven : ∀ k ∈ shape.inputs, k.field = i.field →
      Value.get? (.object (shape.fillDefaults entries)) k.name = entries.get? k.name := by
    intro k hk hfield
    have hsole := Shape.sole_of_nodup s hnodup (Shape.input?_of_mem hnodup hk)
    show (shape.fillDefaults entries).get? k.name = entries.get? k.name
    rw [hsole.defaults, hdefault k hk hfield, Option.or_none]
  rw [hgiven i hi rfl, hgiven j hj hsame.symm]
  exact hapart hfield hri hrj

/-- Coerced input objects are settled: what was supplied was checked for conflicts, and declared
defaults are embedded. -/
theorem settled_of_coerceObject (h : s.Lawful) (hnames : s.NamesDistinct) (v : Value) :
    ∀ shape u, s.HasShape shape → coerceObject s shape v = .ok u → s.Settled shape u := by
  induction v using Value.induct_object with
  | plain v hplain =>
    intro shape u _ hu
    cases v with
    | object => cases hplain
    | null | bool | int | float | string | list => cases hu
  | object entries ih =>
    intro shape u hshape hu
    rw [coerceObject] at hu
    obtain ⟨coerced, hcoerced, hcomplete⟩ := bind_eq_ok.1 hu
    refine .intro (h.pairwise_complete hnames hshape hcomplete) ?_
    intro i hi w hw nested hnested v hv
    obtain ⟨-, -, rfl⟩ := Shape.complete_eq_ok_iff.1 hcomplete
    have hnodup := hnames.nodup hshape
    have hfound := Shape.input?_of_mem hnodup hi
    obtain ⟨nestedRole, t, hn, hmade⟩ := Input.nestedShape?_eq_some.1 hnested
    obtain ⟨hhas, htype⟩ := (hshape.hasInputs i hi).hasShape hn hmade
    have hgiven : (coerced.get? i.name).or (i.default? shape.role) = some w := by
      rw [← (Shape.sole_of_nodup s hnodup hfound).defaults]
      exact hw
    cases hsupplied : coerced.get? i.name with
    | some w' =>
      rw [hsupplied] at hgiven
      obtain rfl : w' = w := Option.some.inj hgiven
      obtain ⟨supplied, he, j, hj, hvalue, -⟩ :=
        exists_entry_of_coerceEntries hcoerced (Entries.mem_of_get? hsupplied)
      obtain rfl : i = j := Option.some.inj (hfound.symm.trans hj)
      obtain ⟨raw, hraw, hobject⟩ := Input.exists_supplied hvalue hnested hv
      rcases hraw with rfl | hraw
      · exact (ih _ he).1 nested v hhas hobject
      · exact (ih _ he).2 raw hraw nested v hhas hobject
    | none =>
      rw [hsupplied, Option.none_or] at hgiven
      obtain ⟨hrole, hsetter⟩ := Input.default?_eq_some hgiven
      have hoffers := (hshape.offers hi).2
      rw [hrole] at hoffers
      have hrelation := hoffers.noRelation_of_isSetter hsetter
      obtain ⟨rfl, hembedded⟩ := hoffers.nested_embedded hrelation hn
      rw [← htype] at hembedded
      exact h.settled_embedded hnames v nested hhas (role_of_shape hmade) hembedded

end Schema.Lawful

end EntityGraph
