import EntityGraph.Proofs.UpdateShapes
import EntityGraph.Proofs.Writers
import Mathlib.Data.List.Pairwise

/-!
# Normal forms of input objects

Coercion brings a supplied value into one form, and that form can be said without coercion: which
inputs an object gives, and what the value of each input looks like. What coercion returns is in
normal form, and what is in normal form it returns unchanged. So it is a projection, and a value
that was coerced before is not changed when it is coerced again.

This needs two things of a schema. Names of inputs are distinct, or else a key that two inputs share
is coerced for one of them only. And declared defaults are in normal form themselves, since they are
taken as they are. Nothing is asked of the order of keys.

## Main definitions

* `TypeDef.admits`, `Input.fits` — what one value has to be, leaving aside the input objects in it
* `Schema.Normal`, `Input.Normal` — input objects and values in normal form
* `Schema.DefaultsNormal` — every declared default is in normal form for its setter

## Main results

* `Schema.Lawful.normal_of_coerceObject` — coerced input objects are in normal form
* `Schema.Lawful.coerceObject_of_normal` — input objects in normal form are coerced to themselves
* `coercion_projects_onto_normal_forms` — both, and what follows, for accepted schemas
-/

namespace EntityGraph

/-! ### Plain values -/

/-- Whether a value is in the format. -/
def ScalarFormat.holds : ScalarFormat → Value → Bool
  | .id, .string _ | .string, .string _ | .int, .int _ | .float, .float _
  | .boolean, .bool _ => true
  | .dateTime, .string text => isDateTime text
  | .free, _ => true
  | _, _ => false

namespace TypeDef

/-- Whether a value belongs to a scalar or enum type. -/
def holds (t : TypeDef) (v : Value) : Bool :=
  if t.kind = .enum then v.string?.any (· ∈ t.values) else (ScalarFormat.ofName t.name).holds v

/-- Whether a value is null or belongs to a scalar or enum type. -/
def admits (t : TypeDef) (v : Value) : Bool := v.isNull || t.holds v

end TypeDef

/-- The identity that an input object gives. -/
def Value.identityText? (u : Value) : Option String := (u.get? identityName).bind Value.string?

/-- Whether a value is what the input makes of the values it takes, leaving aside the input objects
in it. -/
def Input.fits (i : Input) (w : Value) : Bool :=
  match i.kind with
  | .filter => w.isString
  | .scalar type false | .reference type => type.admits w
  | .scalar type true => w.isList && w.items.all type.admits
  | .combine type _ => !w.isNull && type.admits w
  | .valueObject _ false | .createExtension _ | .updateExtension _ => true
  | .valueObject _ true | .createChildren _ | .addChildren _ | .createAndAddEdges .. => w.isList
  | .updateChildren _ => w.isList && decide (w.items.map Value.identityText?).Nodup
  | .removeChildren _ | .addEdges _ | .removeEdges _ => w.isList && w.items.all Value.isString
  | .setEdge _ => w.isNull || w.isString
  | .createAndSetEdge .. => !w.isNull

/-! ### Input objects -/

/-- No two given inputs replace the same field. -/
def Shape.Compatible (shape : Shape) (entries : Entries) : Prop :=
  ∀ i ∈ shape.inputs, ∀ j ∈ shape.inputs, i.kind.replaces = true → j.kind.replaces = true →
    i.field.id = j.field.id → entries.has i.name = true → entries.has j.name = true →
    i.name = j.name

/-- What the given inputs of an object have to be, all together. -/
structure Shape.Consistent (shape : Shape) (entries : Entries) : Prop where
  known : ∀ e ∈ entries, ∃ i ∈ shape.inputs, i.name = e.1
  compatible : shape.Compatible entries
  identified : ∀ i ∈ shape.inputs, i.isFilter = true → entries.has i.name = true
  /-- A new object has everything for which there is a default. -/
  filled : ∀ i ∈ shape.inputs, ∀ d, i.default? shape.role = some d → entries.has i.name = true

/-- The value is an input object of the shape in normal form. -/
inductive Schema.Normal (s : Schema) : Shape → Value → Prop
  | object {shape : Shape} {entries : Entries} (consistent : shape.Consistent entries)
      (fits : ∀ e ∈ entries, ∀ i ∈ shape.inputs, i.name = e.1 → i.fits e.2 = true)
      (inside : ∀ e ∈ entries, ∀ i ∈ shape.inputs, i.name = e.1 → ∀ nested,
        i.nestedShape? s = some nested → ∀ u ∈ i.objects e.2, Normal s nested u) :
    Normal s shape (.object entries)

/-- The value is in normal form for the input. -/
structure Input.Normal (s : Schema) (i : Input) (w : Value) : Prop where
  fits : i.fits w = true
  inside : ∀ nested, i.nestedShape? s = some nested → ∀ u ∈ i.objects w, s.Normal nested u

/-- Every declared default is in normal form for the setter of its field. -/
def Schema.DefaultsNormal (s : Schema) : Prop :=
  ∀ shape, s.HasShape shape → ∀ i ∈ shape.inputs, ∀ d, i.default? shape.role = some d → i.Normal s d

variable {s : Schema} {shape nested : Shape} {i j : Input} {u v w : Value} {t : TypeDef}
  {input : String}

/-! ### Coercion of plain values -/

namespace ScalarFormat

variable {format : ScalarFormat}

theorem holds_of_fit? (h : format.fit? v = some w) : format.holds w = true := by
  cases format with
  | dateTime =>
    cases v with
    | string text =>
      rw [fit?] at h
      split at h
      · next hdate =>
        rw [← Option.some.inj h]
        exact hdate
      · cases h
    | null | bool | int | float | list | object => cases h
  | free => rfl
  | id | string | int | float | boolean => cases v <;> cases h <;> rfl

theorem fit?_of_holds (h : format.holds w = true) : format.fit? w = some w := by
  cases format with
  | dateTime =>
    cases w with
    | string text => exact if_pos h
    | null | bool | int | float | list | object => cases h
  | free => cases w <;> rfl
  | id | string | int | float | boolean =>
    cases w with
    | null | bool | int | float | string | list | object => first | rfl | cases h

/-- Null is not converted to anything, and nothing to null. -/
theorem isNull_of_fit? (h : format.fit? v = some w) : w.isNull = v.isNull := by
  cases format with
  | dateTime =>
    cases v with
    | string text =>
      rw [fit?] at h
      split at h
      · rw [← Option.some.inj h]
      · cases h
    | null | bool | int | float | list | object => cases h
  | free => cases v <;> cases h <;> rfl
  | id | string | int | float | boolean => cases v <;> cases h <;> rfl

end ScalarFormat

namespace TypeDef

theorem holds_of_fit? (h : t.fit? v = some w) : t.holds w = true := by
  rw [fit?] at h
  rw [holds]
  split at h
  · next henum =>
    rw [if_pos henum]
    cases v with
    | string text =>
      rw [fitEnum?] at h
      split at h
      · next hmem =>
        rw [← Option.some.inj h]
        exact decide_eq_true hmem
      · cases h
    | null | bool | int | float | list | object => cases h
  · next henum =>
    rw [if_neg henum]
    exact ScalarFormat.holds_of_fit? h

theorem fit?_of_holds (h : t.holds w = true) : t.fit? w = some w := by
  rw [holds] at h
  rw [fit?]
  split at h
  · next henum =>
    rw [if_pos henum]
    cases w with
    | string text => exact if_pos (of_decide_eq_true h)
    | null | bool | int | float | list | object => cases h
  · next henum =>
    rw [if_neg henum]
    exact ScalarFormat.fit?_of_holds h

theorem isNull_of_fit? (h : t.fit? v = some w) : w.isNull = v.isNull := by
  rw [fit?] at h
  split at h
  · cases v with
    | string text =>
      rw [fitEnum?] at h
      split at h
      · rw [← Option.some.inj h]
      · cases h
    | null | bool | int | float | list | object => cases h
  · exact ScalarFormat.isNull_of_fit? h

end TypeDef

theorem expectFit_eq_ok {expected : String} {fitted : Option Value} :
    expectFit input expected v fitted = .ok w ↔ fitted = some w := by
  cases fitted <;> simp [expectFit]

theorem isString_of_coerceId (h : coerceId input v = .ok w) : w.isString = true := by
  cases v with
  | string | int =>
    obtain rfl := Option.some.inj (expectFit_eq_ok.1 h)
    rfl
  | null | bool | float | list | object => cases h

theorem coerceId_of_isString (h : w.isString = true) : coerceId input w = .ok w := by
  cases w with
  | string => rfl
  | null | bool | int | float | list | object => cases h

theorem admits_of_coerceScalar (h : coerceScalar input t v = .ok w) : t.admits w = true := by
  rw [coerceScalar] at h
  rw [TypeDef.admits, Bool.or_eq_true]
  split at h
  · exact .inl (by rw [← Except.ok.inj h]; rfl)
  · exact .inr (TypeDef.holds_of_fit? (expectFit_eq_ok.1 h))

theorem coerceScalar_of_admits (h : t.admits w = true) : coerceScalar input t w = .ok w := by
  rw [coerceScalar]
  split
  · next hnull => rw [Value.isNull_eq_true.1 hnull]
  · next hnull =>
    rw [TypeDef.admits, Bool.or_eq_true] at h
    exact expectFit_eq_ok.2 (TypeDef.fit?_of_holds (h.resolve_left hnull))

/-! ### Coercion of lists -/

/-- A list of computations that return what they are given returns the list. -/
theorem mapM_eq_ok_self {ε α : Type} {f : α → Except ε α} {xs : List α}
    (h : ∀ x ∈ xs, f x = .ok x) : xs.mapM f = .ok xs := by
  rw [mapM_congr h]
  exact List.mapM_pure.trans (congrArg _ (List.map_id xs))

theorem forall_of_coerceList {item : Value → Except InputError Value} {good : Value → Bool}
    (h : coerceList input item v = .ok w) (hitem : ∀ x y, item x = .ok y → good y = true) :
    (w.isList && w.items.all good) = true := by
  cases v with
  | null =>
    rw [← Except.ok.inj h]
    rfl
  | list items =>
    rw [coerceList] at h
    cases hitems : items.mapM item with
    | error e => simp [hitems, Except.map] at h
    | ok ws =>
      rw [hitems] at h
      rw [← Except.ok.inj h, Bool.and_eq_true, List.all_eq_true]
      refine ⟨rfl, fun y hy => ?_⟩
      obtain ⟨x, -, hx⟩ := exists_of_mem_mapM hitems hy
      exact hitem x y hx
  | bool | int | float | string | object => cases h

theorem coerceList_of_forall {item : Value → Except InputError Value} {good : Value → Bool}
    (h : (w.isList && w.items.all good) = true) (hitem : ∀ y, good y = true → item y = .ok y) :
    coerceList input item w = .ok w := by
  rw [Bool.and_eq_true, List.all_eq_true] at h
  cases w with
  | list items =>
    have hitems : items.mapM item = .ok items := mapM_eq_ok_self fun y hy => hitem y (h.2 y hy)
    rw [coerceList, hitems]
    rfl
  | null | bool | int | float | string | object => cases h.1

theorem isList_of_coerceObjects {items : Except InputError (List Value)}
    (h : coerceObjects input v items = .ok w) : w.isList = true := by
  cases v with
  | null =>
    rw [← Except.ok.inj h]
    rfl
  | list =>
    cases items with
    | error e => cases h
    | ok us =>
      rw [← Except.ok.inj h]
      rfl
  | bool | int | float | string | object => cases h

/-- Input objects are coerced one by one, and null is the empty list. -/
theorem exists_items_of_coerceObjects {f : Value → Except InputError Value}
    (h : coerceObjects input v (v.items.mapM f) = .ok w) :
    ∃ us, v.items.mapM f = .ok us ∧ w = .list us := by
  cases v with
  | null => exact ⟨[], rfl, (Except.ok.inj h).symm⟩
  | list rs =>
    rw [coerceObjects, Value.items_list] at h
    rw [Value.items_list]
    cases hus : rs.mapM f with
    | error e =>
      rw [hus] at h
      cases h
    | ok us =>
      rw [hus] at h
      exact ⟨us, rfl, (Except.ok.inj h).symm⟩
  | bool | int | float | string | object => cases h

/-- A list whose items are input objects that are coerced to themselves is so too. -/
theorem coerceObjects_of_forall (hlist : w.isList = true)
    (h : ∀ u ∈ w.items, coerceObject s shape u = .ok u) :
    coerceObjects input w (coerceItems s shape w) = .ok w := by
  cases w with
  | list items =>
    rw [coerceObjects, coerceItems_eq, mapM_eq_ok_self h]
    rfl
  | null | bool | int | float | string | object => cases hlist

/-! ### Identities of updated children -/

theorem Value.beq_string (a b : String) : (Value.string a == Value.string b) = (a == b) := by
  show beq _ _ = _
  rw [beq]

theorem firstRepeated?_eq_none_iff {seen vs : List Value} : firstRepeated? seen vs = none ↔
    (∀ x ∈ seen, ∀ y ∈ vs, (x == y) = false) ∧ vs.Pairwise fun x y => (x == y) = false := by
  induction vs generalizing seen with
  | nil => simp [firstRepeated?]
  | cons v vs ih =>
    rw [firstRepeated?]
    split
    · next hseen =>
      obtain ⟨x, hx, hxv⟩ := List.any_eq_true.1 hseen
      simp only [reduceCtorEq, false_iff, not_and]
      intro hall
      simp [hall x hx v List.mem_cons_self] at hxv
    · next hseen =>
      have hfirst : ∀ x ∈ seen, (x == v) = false := by simpa using hseen
      rw [ih, List.pairwise_cons, List.forall_mem_cons]
      constructor
      · rintro ⟨⟨hv, hall⟩, hpairwise⟩
        exact ⟨fun x hx => List.forall_mem_cons.2 ⟨hfirst x hx, hall x hx⟩, hv, hpairwise⟩
      · rintro ⟨hall, hv, hpairwise⟩
        exact ⟨⟨hv, fun x hx => (List.forall_mem_cons.1 (hall x hx)).2⟩, hpairwise⟩

/-- Objects that give their identities as texts repeat none exactly if the texts are distinct. -/
theorem firstRepeated?_identities {us : List Value} (h : ∀ u ∈ us, ∃ text,
      u.identityText? = some text ∧ shape.identity? u = some (.string text)) :
    firstRepeated? [] (us.filterMap shape.identity?) = none ↔
      (us.map Value.identityText?).Nodup := by
  rw [firstRepeated?_eq_none_iff]
  simp only [List.not_mem_nil, false_implies, implies_true, true_and]
  rw [List.pairwise_filterMap, List.Nodup, List.pairwise_map]
  constructor
  · intro hpairwise
    refine hpairwise.imp_of_mem fun {u u'} hu hu' hapart hsame => ?_
    obtain ⟨text, htext, hidentity⟩ := h u hu
    obtain ⟨text', htext', hidentity'⟩ := h u' hu'
    obtain rfl : text = text' := Option.some.inj (htext.symm.trans (hsame.trans htext'))
    have hdiffer := hapart _ hidentity _ hidentity'
    simp [Value.beq_string] at hdiffer
  · intro hpairwise
    refine hpairwise.imp_of_mem fun {u u'} hu hu' hne b hb b' hb' => ?_
    obtain ⟨text, htext, hidentity⟩ := h u hu
    obtain ⟨text', htext', hidentity'⟩ := h u' hu'
    obtain rfl := Option.some.inj (hidentity.symm.trans hb)
    obtain rfl := Option.some.inj (hidentity'.symm.trans hb')
    rw [htext, htext'] at hne
    simpa [Value.beq_string] using hne

/-- An object in normal form that is for one entity gives its identity as text. -/
theorem Schema.Normal.exists_identity {one all : Shape} {filter : Input}
    (h : s.Normal one u) (hone : Shape.Identifies one all filter) :
    ∃ text, u.identityText? = some text ∧ one.identity? u = some (.string text) := by
  cases h with
  | @object _ entries consistent fits _ =>
    have hmem : filter ∈ one.inputs := by
      rw [hone.inputs]
      exact List.mem_cons_self
    have hgiven := consistent.identified filter hmem hone.isFilter
    rw [hone.name, Entries.has, Option.isSome_iff_exists] at hgiven
    obtain ⟨x, hx⟩ := hgiven
    have hstring := fits _ (Entries.mem_of_get? hx) filter hmem hone.name
    rw [Input.fits, hone.kind] at hstring
    have hidentity : one.identity? (.object entries) = some x := by
      rw [Shape.identity?, hone.filter?, Option.bind_some, hone.name]
      exact hx
    cases x with
    | string text =>
      refine ⟨text, ?_, hidentity⟩
      rw [Value.identityText?, Value.get?, Value.entries_object, hx]
      rfl
    | null | bool | int | float | list | object => cases hstring

/-! ### Coercion for one input -/

namespace Input

/-- Children are updated by their identities. -/
theorem exists_identifies_of_updateChildren (hs : s.Lawful) (hi : s.HasInput i) {type : TypeDef}
    (hkind : i.kind = .updateChildren type) :
    ∃ one all filter, s.shape .update type = .ok one ∧ Shape.Identifies one all filter := by
  have hmem := hi.nested_mem (show i.kind.nested? = some (.update, type) by rw [hkind]; rfl)
  obtain ⟨role, t, -, f, -, hoffers⟩ := hi
  have hchild : type.kind = .childEntity := by
    cases hoffers with
    | updateChildren _ hchild =>
      cases hkind
      exact hchild
    | filter | reference | scalar | combine | valueObject | createExtension | updateExtension
    | createChildren | addChildren | removeChildren | initialEdges | addEdges | removeEdges
    | createAndAddEdges | setEdge | createAndSetEdge => cases hkind
  obtain ⟨one, all, filter, hone, -, hshapes⟩ := hs.exists_identifies hmem (by rw [hchild]; rfl)
  exact ⟨one, all, filter, hone, hshapes⟩

/-- Entries are coerced one by one, and no identity is given twice. -/
theorem coerced_updateChildren {type : TypeDef} {one : Shape}
    (hkind : i.kind = .updateChildren type) (hone : s.shape .update type = .ok one)
    (h : i.coerce s v = .ok w) :
    ∃ us, v.items.mapM (one.coerce s) = .ok us ∧
      firstRepeated? [] (us.filterMap one.identity?) = none ∧ w = .list us := by
  rw [coerce, coerceWith, hkind] at h
  simp only [hone, coerceItems_eq] at h
  obtain ⟨updates, hupdates, h⟩ := bind_eq_ok.1 (show (coerceObjects i.name _ _ >>= _) = _ from h)
  obtain ⟨us, hus, rfl⟩ := exists_items_of_coerceObjects hupdates
  split at h
  · cases h
  · next hfresh => exact ⟨us, hus, hfresh, (Except.ok.inj h).symm⟩

/-- A list of entries with different identities is coerced. -/
theorem coerce_updateChildren {type : TypeDef} {one : Shape}
    (hkind : i.kind = .updateChildren type) (hone : s.shape .update type = .ok one)
    {rs us : List Value} (hus : rs.mapM (one.coerce s) = .ok us)
    (hfresh : firstRepeated? [] (us.filterMap one.identity?) = none) :
    i.coerce s (.list rs) = .ok (.list us) := by
  rw [coerce, coerceWith, hkind]
  simp only [hone, coerceItems_eq]
  refine bind_eq_ok.2 ⟨one, rfl, bind_eq_ok.2 ⟨.list us, ?_, ?_⟩⟩
  · rw [coerceObjects]
    show (rs.mapM (one.coerce s)).map _ = _
    rw [hus]
    rfl
  · simp only [Value.items_list, hfresh]
    rfl

/-- What is coerced fits the input, if the input objects in it are in normal form. -/
theorem fits_of_coerce (hs : s.Lawful) (hi : s.HasInput i) (h : i.coerce s v = .ok w)
    (hkept : i.isNoChange w = false)
    (hinside : ∀ nested, i.nestedShape? s = some nested → ∀ u ∈ i.objects w, s.Normal nested u) :
    i.fits w = true := by
  have hcoerced := h
  rw [coerce, coerceWith] at h
  rw [fits]
  cases hkind : i.kind with
  | filter =>
    simp only [hkind] at h
    exact isString_of_coerceId h
  | scalar type list =>
    cases list with
    | false =>
      simp only [hkind] at h
      exact admits_of_coerceScalar h
    | true =>
      simp only [hkind] at h
      exact forall_of_coerceList h fun _ _ => admits_of_coerceScalar
  | combine type op =>
    simp only [hkind] at h
    split at h
    · cases h
    · next hnull =>
      have hadmits := admits_of_coerceScalar h
      rw [coerceScalar, if_neg hnull, expectFit_eq_ok] at h
      simp only [TypeDef.isNull_of_fit? h, hnull, hadmits, Bool.not_false, Bool.and_self]
  | reference type =>
    simp only [hkind] at h
    exact admits_of_coerceScalar h
  | valueObject type list =>
    cases list with
    | false => rfl
    | true =>
      simp only [hkind] at h
      obtain ⟨nested, -, h⟩ := bind_eq_ok.1 h
      exact isList_of_coerceObjects h
  | createExtension | updateExtension => rfl
  | createChildren | addChildren | createAndAddEdges =>
    simp only [hkind] at h
    obtain ⟨nested, -, h⟩ := bind_eq_ok.1 h
    exact isList_of_coerceObjects h
  | updateChildren type =>
    obtain ⟨one, all, filter, hone, hshapes⟩ := exists_identifies_of_updateChildren hs hi hkind
    obtain ⟨us, -, hfresh, rfl⟩ := coerced_updateChildren hkind hone hcoerced
    have hnested : i.nestedShape? s = some one :=
      nestedShape?_eq_some.2 ⟨.update, type, by rw [hkind]; rfl, hone⟩
    have hobjects : i.objects (.list us) = us := by
      rw [objects, hkind]
      rfl
    rw [hobjects] at hinside
    exact decide_eq_true ((firstRepeated?_identities fun u hu =>
      (hinside one hnested u hu).exists_identity hshapes).1 hfresh)
  | removeChildren | addEdges | removeEdges =>
    simp only [hkind] at h
    exact forall_of_coerceList h fun _ _ => isString_of_coerceId
  | setEdge =>
    simp only [hkind] at h
    rw [Bool.or_eq_true]
    split at h
    · rw [← Except.ok.inj h]
      exact .inl rfl
    · exact .inr (isString_of_coerceId h)
  | createAndSetEdge =>
    rw [isNoChange, hkind] at hkept
    simpa using hkept

/-- What is in normal form for an input counts as given. -/
theorem isNoChange_of_normal (h : i.Normal s w) : i.isNoChange w = false := by
  have hfits := h.fits
  rw [fits] at hfits
  rw [isNoChange]
  cases hkind : i.kind with
  | createAndSetEdge =>
    rw [hkind] at hfits
    simpa using hfits
  | filter | scalar | combine | valueObject | createExtension | updateExtension | createChildren
  | addChildren | updateChildren | removeChildren | reference | addEdges | removeEdges
  | createAndAddEdges | setEdge => rfl

/-- A value in normal form is coerced to itself, if the input objects in it are. -/
theorem coerce_of_normal (hs : s.Lawful) (hi : s.HasInput i) (h : i.Normal s w)
    (hinside : ∀ nested, i.nestedShape? s = some nested → ∀ u ∈ i.objects w,
      coerceObject s nested u = .ok u) : i.coerce s w = .ok w := by
  have hfits := h.fits
  rw [fits] at hfits
  rw [coerce, coerceWith]
  -- A nested shape exists, and what is said of its objects is said of the value or of its items.
  have hsingle : ∀ {role : Role} {type : TypeDef}, i.kind.nested? = some (role, type) →
      i.kind.isList = false → ∃ nested, s.shape role type = .ok nested ∧
        (if w.isNull then .ok .null else coerceObject s nested w) = .ok w := by
    intro role type hn hlist
    obtain ⟨nested, hmade, -⟩ := hs.exists_nested_shape hi hn
    have hnested := nestedShape?_eq_some.2 ⟨role, type, hn, hmade⟩
    refine ⟨nested, hmade, ?_⟩
    split
    · next hnull => rw [Value.isNull_eq_true.1 hnull]
    · next hnull =>
      refine hinside nested hnested w ?_
      simp [objects, hn, hlist, hnull]
  have hmany : ∀ {role : Role} {type : TypeDef}, i.kind.nested? = some (role, type) →
      i.kind.isList = true → w.isList = true → ∃ nested, s.shape role type = .ok nested ∧
        coerceObjects i.name w (coerceItems s nested w) = .ok w := by
    intro role type hn hlist hw
    obtain ⟨nested, hmade, -⟩ := hs.exists_nested_shape hi hn
    have hnested := nestedShape?_eq_some.2 ⟨role, type, hn, hmade⟩
    refine ⟨nested, hmade, coerceObjects_of_forall hw fun u hu => hinside nested hnested u ?_⟩
    simp [objects, hn, hlist, hu]
  cases hkind : i.kind with
  | filter =>
    rw [hkind] at hfits
    exact coerceId_of_isString hfits
  | scalar type list =>
    rw [hkind] at hfits
    cases list with
    | false => exact coerceScalar_of_admits hfits
    | true => exact coerceList_of_forall hfits fun _ => coerceScalar_of_admits
  | combine type op =>
    simp only [hkind, Bool.and_eq_true, Bool.not_eq_true'] at hfits
    simp only [hfits.1, Bool.false_eq_true, if_false]
    exact coerceScalar_of_admits hfits.2
  | reference type =>
    rw [hkind] at hfits
    exact coerceScalar_of_admits hfits
  | valueObject type list =>
    rw [hkind] at hfits hsingle hmany
    cases list with
    | false =>
      obtain ⟨nested, hmade, hobject⟩ := hsingle rfl rfl
      simp only [hmade]
      exact hobject
    | true =>
      obtain ⟨nested, hmade, hobjects⟩ := hmany rfl rfl hfits
      simp only [hmade]
      exact hobjects
  | createExtension | updateExtension | createAndSetEdge =>
    rw [hkind] at hsingle
    obtain ⟨nested, hmade, hobject⟩ := hsingle rfl rfl
    simp only [hmade]
    exact hobject
  | createChildren | addChildren | createAndAddEdges =>
    rw [hkind] at hfits hmany
    obtain ⟨nested, hmade, hobjects⟩ := hmany rfl rfl hfits
    simp only [hmade]
    exact hobjects
  | updateChildren type =>
    simp only [hkind, Bool.and_eq_true, decide_eq_true_eq] at hfits
    obtain ⟨one, all, filter, hone, hshapes⟩ := exists_identifies_of_updateChildren hs hi hkind
    have hnested : i.nestedShape? s = some one :=
      nestedShape?_eq_some.2 ⟨.update, type, by rw [hkind]; rfl, hone⟩
    cases w with
    | list us =>
      have hobjects : i.objects (.list us) = us := by
        rw [objects, hkind]
        rfl
      have hfresh := (firstRepeated?_identities fun u hu =>
        (h.inside one hnested u (hobjects.symm ▸ hu)).exists_identity hshapes).2 hfits.2
      have hitems : us.mapM (one.coerce s) = .ok us :=
        mapM_eq_ok_self fun u hu => hinside one hnested u (hobjects.symm ▸ hu)
      have hcoerced := coerce_updateChildren hkind hone hitems hfresh
      rw [coerce, coerceWith, hkind] at hcoerced
      exact hcoerced
    | null | bool | int | float | string | object => cases hfits.1
  | removeChildren | addEdges | removeEdges =>
    rw [hkind] at hfits
    exact coerceList_of_forall hfits fun _ => coerceId_of_isString
  | setEdge =>
    simp only [hkind, Bool.or_eq_true] at hfits
    show (if w.isNull then .ok .null else coerceId i.name w) = _
    split
    · next hnull => rw [Value.isNull_eq_true.1 hnull]
    · next hnull => exact coerceId_of_isString (hfits.resolve_left hnull)

end Input

/-! ### Coercion of whole objects -/

instance (u : Value) : Std.Symm (Input.Apart u) where
  symm _ _ h := ⟨h.1.symm, fun hfield hi hj => (h.2 hfield.symm hj hi).symm⟩

namespace Shape

variable {entries coerced : Entries} {e : String × Value}

/-- What is in an object after defaults was there before, or is the default of an input. -/
theorem mem_foldl_fillDefault {inputs : List Input} (h : e ∈ inputs.foldl fillDefault entries) :
    e ∈ entries ∨ ∃ i ∈ inputs, e.1 = i.name ∧ i.default? .create = some e.2 := by
  induction inputs generalizing entries with
  | nil => exact .inl h
  | cons i inputs ih =>
    rcases ih h with h | ⟨j, hj, hdefault⟩
    · rw [fillDefault] at h
      split at h
      · next d hd =>
        split at h
        · next habsent =>
          rcases Entries.mem_insert h with rfl | h
          · refine .inr ⟨i, List.mem_cons_self, rfl, ?_⟩
            rw [Bool.and_eq_true] at habsent
            rw [Input.default?, if_pos habsent.1, hd]
          · exact .inl h
        · exact .inl h
      · exact .inl h
    · exact .inr ⟨j, List.mem_cons_of_mem i hj, hdefault⟩

theorem mem_fillDefaults (h : e ∈ shape.fillDefaults entries) :
    e ∈ entries ∨ ∃ i ∈ shape.inputs, e.1 = i.name ∧ i.default? shape.role = some e.2 := by
  rw [fillDefaults] at h
  split at h
  · next hrole =>
    rw [hrole]
    exact mem_foldl_fillDefault h
  · exact .inl h

/-- Nothing is filled in if nothing is missing. -/
theorem fillDefaults_eq (h : ∀ i ∈ shape.inputs, ∀ d, i.default? shape.role = some d →
    entries.has i.name = true) : shape.fillDefaults entries = entries := by
  rw [fillDefaults]
  split
  · next hrole =>
    rw [hrole] at h
    refine List.foldlRecOn (motive := (· = entries)) shape.inputs fillDefault rfl ?_
    rintro _ rfl i hi
    rw [fillDefault]
    split
    · next d hd =>
      split
      · next habsent =>
        rw [Bool.and_eq_true] at habsent
        rw [h i hi d (by rw [Input.default?, if_pos habsent.1, hd])] at habsent
        cases habsent.2
      · rfl
    · rfl
  · rfl

theorem mem_writers {field : FieldId} {name : String} : name ∈ shape.writers entries field ↔
    ∃ i ∈ shape.inputs, i.field.id = field ∧ i.kind.replaces = true ∧
      entries.has i.name = true ∧ i.name = name := by
  simp [writers, and_assoc]

/-- With distinct names, what replaces one field is told apart by its name. -/
theorem conflict?_eq_none_iff (hnames : (shape.inputs.map (·.name)).Nodup) :
    shape.conflict? entries = none ↔ shape.Compatible entries := by
  have hfew : ∀ names : List String, names.Nodup →
      (¬1 < names.length ↔ ∀ a ∈ names, ∀ b ∈ names, a = b) := by
    intro names hnodup
    rcases names with _ | ⟨a, _ | ⟨b, rest⟩⟩
    · simp
    · simp
    · refine iff_of_false (by simp) fun hsame => ?_
      have hab := hsame a List.mem_cons_self b (List.mem_cons_of_mem a List.mem_cons_self)
      exact (List.nodup_cons.1 hnodup).1 (hab ▸ List.mem_cons_self)
  have hnodup : ∀ field, (shape.writers entries field).Nodup :=
    fun field => hnames.sublist (List.filter_sublist.map _)
  rw [conflict?, List.findSome?_eq_none_iff]
  simp only [ite_eq_right_iff, reduceCtorEq, imp_false]
  constructor
  · intro h i hi j hj hireplaces hjreplaces hfield higiven hjgiven
    refine (hfew _ (hnodup i.field.id)).1 (h i hi) _ ?_ _ ?_
    · exact mem_writers.2 ⟨i, hi, rfl, hireplaces, higiven, rfl⟩
    · exact mem_writers.2 ⟨j, hj, hfield.symm, hjreplaces, hjgiven, rfl⟩
  · intro h i _
    refine (hfew _ (hnodup i.field.id)).2 fun a ha b hb => ?_
    obtain ⟨j, hj, hjfield, hjreplaces, hjgiven, rfl⟩ := mem_writers.1 ha
    obtain ⟨k, hk, hkfield, hkreplaces, hkgiven, rfl⟩ := mem_writers.1 hb
    exact h j hj k hk hjreplaces hkreplaces (hjfield.trans hkfield.symm) hjgiven hkgiven

end Shape

/-- Entries that are coerced to themselves one by one are so together. -/
theorem coerceEntries_self {entries : Entries} (h : ∀ e ∈ entries, ∃ i,
      shape.input? e.1 = some i ∧ i.coerce s e.2 = .ok e.2 ∧ i.isNoChange e.2 = false) :
    coerceEntries s shape entries = .ok entries := by
  induction entries with
  | nil => rfl
  | cons e es ih =>
    obtain ⟨k, v⟩ := e
    obtain ⟨⟨i, hi, hv, hkept⟩, hes⟩ := List.forall_mem_cons.1 h
    refine coerceEntries_cons.2 ⟨i, v, es, hi, hv, ih hes, ?_⟩
    rw [if_neg (by simp [hkept])]

namespace Schema

/-- What identifies an object is called so. -/
theorem Offers.name_of_isFilter {role : Role} {f : FieldDef} (h : s.Offers role f i)
    (hfilter : i.isFilter = true) : i.name = identityName := by
  cases h with
  | filter hidentity =>
    rw [FieldDef.isIdentity, Bool.and_eq_true] at hidentity
    exact beq_iff_eq.1 hidentity.2
  | reference | scalar | combine | valueObject | createExtension | updateExtension
  | createChildren | addChildren | updateChildren | removeChildren | initialEdges | addEdges
  | removeEdges | createAndAddEdges | setEdge | createAndSetEdge => cases hfilter

namespace Lawful

/-- The completed entries of an object are consistent. -/
theorem consistent_of_coerceEntries (hs : s.Lawful) (hnames : s.NamesDistinct)
    (hshape : s.HasShape shape) {entries coerced : Entries}
    (hcoerced : coerceEntries s shape entries = .ok coerced)
    (hcomplete : shape.complete coerced = .ok (.object (shape.fillDefaults coerced))) :
    shape.Consistent (shape.fillDefaults coerced) where
  known e he := by
    rcases Shape.mem_fillDefaults he with he | ⟨i, hi, hname, -⟩
    · obtain ⟨raw, -, i, hi, -⟩ := exists_entry_of_coerceEntries hcoerced he
      exact ⟨i, Shape.mem_of_input? hi, Shape.name_of_input? hi⟩
    · exact ⟨i, hi, hname.symm⟩
  compatible i hi j hj hireplaces hjreplaces hfield higiven hjgiven := by
    by_contra hne
    have hapart := (hs.pairwise_complete hnames hshape hcomplete).forall hi hj
      fun hij => hne (congrArg (·.name) hij)
    rw [Entries.has] at higiven hjgiven
    rcases hapart.2 hfield hireplaces hjreplaces with hnone | hnone
    · rw [show (shape.fillDefaults coerced).get? i.name = none from hnone] at higiven
      cases higiven
    · rw [show (shape.fillDefaults coerced).get? j.name = none from hnone] at hjgiven
      cases hjgiven
  identified i hi hfilter := by
    obtain ⟨-, hidentified, -⟩ := Shape.complete_eq_ok_iff.1 hcomplete
    obtain ⟨first, hfirst⟩ : ∃ first, shape.filter? = some first :=
      Option.isSome_iff_exists.1 (List.find?_isSome.2 ⟨i, hi, hfilter⟩)
    have hname := (hshape.offers (List.mem_of_find?_eq_some hfirst)).2.name_of_isFilter
      (List.find?_some hfirst)
    rw [(hshape.offers hi).2.name_of_isFilter hfilter, ← hname]
    exact hidentified first hfirst
  filled i hi d hd := by
    have hnodup := hnames.nodup hshape
    have hsole := Shape.sole_of_nodup s hnodup (Shape.input?_of_mem hnodup hi)
    rw [Entries.has, hsole.defaults, hd]
    cases coerced.get? i.name <;> rfl

/-- Coerced input objects are in normal form. -/
theorem normal_of_coerceObject (hs : s.Lawful) (hnames : s.NamesDistinct)
    (hdefaults : s.DefaultsNormal) (v : Value) :
    ∀ shape u, s.HasShape shape → coerceObject s shape v = .ok u → s.Normal shape u := by
  induction v using Value.induct_object with
  | plain v hplain =>
    intro shape u _ hu
    cases v with
    | object => cases hplain
    | null | bool | int | float | string | list => cases hu
  | object entries ih =>
    intro shape u hshape hu
    rw [coerceObject] at hu
    obtain ⟨coerced, hcoerced, hcomplete⟩ := bind_eq_ok.1 hu
    obtain ⟨-, -, rfl⟩ := Shape.complete_eq_ok_iff.1 hcomplete
    have hnodup := hnames.nodup hshape
    have hentry : ∀ e ∈ shape.fillDefaults coerced, ∀ i ∈ shape.inputs, i.name = e.1 →
        i.Normal s e.2 := by
      intro e he i hi hname
      have hfound := Shape.input?_of_mem hnodup hi
      rw [hname] at hfound
      rcases Shape.mem_fillDefaults he with he | ⟨j, hj, hjname, hd⟩
      · obtain ⟨raw, hraw, j, hj, hvalue, hkept⟩ := exists_entry_of_coerceEntries hcoerced he
        obtain rfl : i = j := Option.some.inj (hfound.symm.trans hj)
        have hinside : ∀ nested, i.nestedShape? s = some nested → ∀ u ∈ i.objects e.2,
            s.Normal nested u := by
          intro nested hnested u hu
          obtain ⟨role, t, hn, hmade⟩ := Input.nestedShape?_eq_some.1 hnested
          obtain ⟨hhas, -⟩ := (hshape.hasInputs i hi).hasShape hn hmade
          obtain ⟨inner, hinner, hobject⟩ := Input.exists_supplied hvalue hnested hu
          rcases hinner with rfl | hinner
          · exact (ih _ hraw).1 nested u hhas hobject
          · exact (ih _ hraw).2 inner hinner nested u hhas hobject
        exact ⟨Input.fits_of_coerce hs (hshape.hasInputs i hi) hvalue hkept hinside, hinside⟩
      · -- A default is the one of this input, since no other has its name.
        have hsame := Shape.input?_of_mem hnodup hj
        rw [← hjname] at hsame
        obtain rfl : i = j := Option.some.inj (hfound.symm.trans hsame)
        exact hdefaults shape hshape i hi e.2 hd
    exact .object (hs.consistent_of_coerceEntries hnames hshape hcoerced hcomplete)
      (fun e he i hi hname => (hentry e he i hi hname).fits)
      (fun e he i hi hname => (hentry e he i hi hname).inside)

/-- Input objects in normal form are coerced to themselves. -/
theorem coerceObject_of_normal (hs : s.Lawful) (hnames : s.NamesDistinct) (h : s.Normal shape w)
    (hshape : s.HasShape shape) : coerceObject s shape w = .ok w := by
  induction h with
  | @object shape entries consistent fits inside ih =>
    have hnodup := hnames.nodup hshape
    have hentries : coerceEntries s shape entries = .ok entries := by
      refine coerceEntries_self fun e he => ?_
      obtain ⟨i, hi, hname⟩ := consistent.known e he
      have hnormal : i.Normal s e.2 := ⟨fits e he i hi hname, inside e he i hi hname⟩
      have hinput := hshape.hasInputs i hi
      refine ⟨i, hname ▸ Shape.input?_of_mem hnodup hi, ?_, Input.isNoChange_of_normal hnormal⟩
      refine Input.coerce_of_normal hs hinput hnormal fun nested hnested u hu => ?_
      obtain ⟨role, t, hn, hmade⟩ := Input.nestedShape?_eq_some.1 hnested
      exact ih e he i hi hname nested hnested u hu (hinput.hasShape hn hmade).1
    have hfilled : shape.fillDefaults entries = entries :=
      Shape.fillDefaults_eq consistent.filled
    rw [coerceObject, bind_eq_ok]
    refine ⟨entries, hentries, Shape.complete_eq_ok_iff.2 ⟨?_, fun filter hfilter => ?_, ?_⟩⟩
    · exact (Shape.conflict?_eq_none_iff hnodup).2 consistent.compatible
    · rw [hfilled]
      exact consistent.identified filter (List.mem_of_find?_eq_some hfilter)
        (List.find?_some hfilter)
    · rw [hfilled]

end Lawful

/-- Defaults without input objects in them are in normal form if they fit. -/
theorem defaultsNormal_of_plain (h : ∀ t ∈ s.types, ((s.shape .create t).toOption.all fun shape =>
      shape.inputs.all fun i => (i.default? .create).all fun d =>
        i.kind.nested?.isNone && i.fits d) = true) : s.DefaultsNormal := by
  intro shape hshape i hi d hd
  have hmade := hshape.made
  rw [(Input.default?_eq_some hd).1] at hmade hd
  have hall := h shape.type hshape.mem
  rw [hmade, Except.toOption, Option.all_some, List.all_eq_true] at hall
  have hplain := hall i hi
  rw [hd, Option.all_some, Bool.and_eq_true, Option.isNone_iff_eq_none] at hplain
  refine ⟨hplain.2, fun nested hnested => ?_⟩
  rw [Input.nestedShape?, hplain.1] at hnested
  cases hnested

end Schema

/-! ### Accepted schemas -/

/-- **Coercion is a projection onto normal forms.** In an accepted schema whose input names are
distinct and whose defaults are in normal form, a coerced value is in normal form and coerced to
itself, and the values that are coerced to themselves are exactly those in normal form. -/
theorem coercion_projects_onto_normal_forms {decl : SchemaDecl} {a : AcceptedSchema}
    (h : decl.accept = .ok a) (hnames : a.schema.NamesDistinct)
    (hdefaults : a.schema.DefaultsNormal) (ht : t ∈ a.schema.types)
    (hobject : t.kind.isObject = true) (role : Role) :
    ∃ shape, a.schema.shape role t = .ok shape ∧
      (∀ v w, shape.coerce a.schema v = .ok w →
        a.schema.Normal shape w ∧ shape.coerce a.schema w = .ok w) ∧
      ∀ w, a.schema.Normal shape w ↔ shape.coerce a.schema w = .ok w := by
  have hs := SchemaDecl.lawful_of_accept h
  obtain ⟨shape, hmade⟩ := hs.exists_shape ht hobject role
  have hshape : a.schema.HasShape shape := (Schema.hasShape_of_shape ht hmade).1
  have hnormal : ∀ v w, shape.coerce a.schema v = .ok w → a.schema.Normal shape w :=
    fun v w hw => hs.normal_of_coerceObject hnames hdefaults v shape w hshape hw
  have hfixed : ∀ w, a.schema.Normal shape w → shape.coerce a.schema w = .ok w :=
    fun w hw => hs.coerceObject_of_normal hnames hw hshape
  refine ⟨shape, hmade, fun v w hw => ?_, fun w => ⟨hfixed w, hnormal w w⟩⟩
  exact ⟨hnormal v w hw, hfixed w (hnormal v w hw)⟩

theorem defaultsNormal_shop : shop.schema.DefaultsNormal :=
  Schema.defaultsNormal_of_plain (by decide)

/-- A new order of the shop whose customer is a number and whose address has no city. Coercion makes
the number a text and fills in the city, and then nothing is left to do. -/
theorem shop_order_normal : ∃ order ∈ shop.schema.types, order.name = "Order" ∧
    order.kind.isObject = true ∧ shop.schema.NamesDistinct ∧ shop.schema.DefaultsNormal ∧
    ∃ shape w, shop.schema.shape .create order = .ok shape ∧
      shape.coerce shop.schema (.object [("customer", .int 7), ("items", .null),
        ("shipping", .object [("address", .object [])])]) = .ok w ∧
      w = .object [("customer", .string "7"), ("items", .list []),
        ("shipping", .object [("address", .object [("city", .string "Rome")])])] ∧
      shop.schema.Normal shape w ∧ shape.coerce shop.schema w = .ok w := by
  have ht : shop.schema.types.get ⟨8, by decide⟩ ∈ shop.schema.types := List.get_mem _ _
  obtain ⟨shape, hshape, hproject, -⟩ := coercion_projects_onto_normal_forms accept_shopDecl
    namesDistinct_shop defaultsNormal_shop ht rfl .create
  have hevaluated : ∃ shape w, shop.schema.shape .create (shop.schema.types.get ⟨8, by decide⟩) =
      .ok shape ∧ shape.coerce shop.schema (.object [("customer", .int 7), ("items", .null),
        ("shipping", .object [("address", .object [])])]) = .ok w ∧
      w = .object [("customer", .string "7"), ("items", .list []),
        ("shipping", .object [("address", .object [("city", .string "Rome")])])] :=
    ⟨_, _, rfl, rfl, rfl⟩
  obtain ⟨shape', w, hshape', hw, hvalue⟩ := hevaluated
  obtain rfl := Except.ok.inj (hshape.symm.trans hshape')
  obtain ⟨hnormal, hfixed⟩ := hproject _ w hw
  exact ⟨_, ht, rfl, rfl, namesDistinct_shop, defaultsNormal_shop, shape, w, hshape, hw, hvalue,
    hnormal, hfixed⟩

end EntityGraph
