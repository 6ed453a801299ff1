import EntityGraph.Proofs.MemberOrder
import EntityGraph.Proofs.NormalForms

/-!
# Defaults and supplied values

A field of a new object that has a default may be left out. Then the default is stored as it was
declared, while a supplied value is coerced first. So the object without the field is the object
with the default supplied, except that the default stands in it as it was declared. Nothing else
differs: no other field is coerced in another way, and the setter of a field that has a default
conflicts with no other input.

The two agree exactly if the default is coerced to itself, as one in normal form is. Nothing asks
this of a declaration, and `default_kept_as_declared` is an accepted schema in which they differ.

## Main results

* `Shape.fillDefaults_insert` — what is put into an object stays after defaults
* `Schema.Lawful.coerce_insert_default` — coercion with the default supplied
* `omitted_default_as_declared` — omitting and supplying compared, in accepted schemas
-/

namespace EntityGraph

variable {s : Schema} {shape : Shape} {i j : Input} {t : TypeDef} {v w d : Value}
  {entries coerced : Entries} {key : String}

/-! ### Entries -/

namespace Entries

/-- The value put last under a key is the one that stays. -/
theorem insert_insert (entries : Entries) (key : String) (v w : Value) :
    (entries.insert key v).insert key w = entries.insert key w := by
  induction entries with
  | nil => simp [insert]
  | cons e es ih =>
    obtain ⟨k, x⟩ := e
    by_cases hlt : key < k
    · simp [insert, hlt]
    · by_cases hkey : key = k
      · simp [insert, hkey]
      · rw [insert_cons_of_ne hlt (Ne.symm hkey), insert_cons_of_ne hlt (Ne.symm hkey),
          insert_cons_of_ne hlt (Ne.symm hkey), ih]

/-- Putting back what is there changes nothing. -/
theorem Increasing.insert_of_get? (hsorted : entries.Increasing) (h : entries.get? key = some v) :
    entries.insert key v = entries := by
  induction entries with
  | nil => cases h
  | cons e es ih =>
    obtain ⟨k, x⟩ := e
    obtain ⟨hk, hes⟩ := List.pairwise_cons.1 hsorted
    rw [get?_cons] at h
    split at h
    · next hkey =>
      obtain rfl : key = k := beq_iff_eq.1 hkey
      obtain rfl : x = v := Option.some.inj h
      rw [Entries.insert, if_neg (String.lt_irrefl key), if_pos rfl]
    · next hkey =>
      have hlt : k < key := hk (key, v) (mem_of_get? h)
      rw [insert_cons_of_ne (String.lt_asymm hlt), ih hes h]
      rintro rfl
      exact hkey (beq_self_eq_true k)

/-- Coercion keeps the order of keys. -/
theorem Increasing.coerceEntries (hsorted : entries.Increasing)
    (h : EntityGraph.coerceEntries s shape entries = .ok coerced) : coerced.Increasing := by
  induction entries generalizing coerced with
  | nil =>
    rw [EntityGraph.coerceEntries] at h
    rw [← Except.ok.inj h]
    exact .nil
  | cons e es ih =>
    obtain ⟨k, x⟩ := e
    obtain ⟨hk, hes⟩ := List.pairwise_cons.1 hsorted
    obtain ⟨i, w, others, -, -, hothers, rfl⟩ := coerceEntries_cons.1 h
    split
    · exact ih hes hothers
    · refine List.pairwise_cons.2 ⟨fun e he => ?_, ih hes hothers⟩
      obtain ⟨raw, hraw, -⟩ := exists_entry_of_coerceEntries hothers he
      exact hk (e.1, raw) hraw

end Entries

/-! ### Filling in -/

namespace Shape

/-- What is put into an object stays, whether it has a default or not. -/
theorem fillDefault_insert (entries : Entries) (key : String) (v : Value) (i : Input) :
    fillDefault (entries.insert key v) i = (fillDefault entries i).insert key v := by
  rw [fillDefault, fillDefault]
  cases hd : i.field.defaultValue with
  | none => rfl
  | some d =>
    by_cases hkey : i.name = key
    · subst hkey
      have hgiven : (entries.insert i.name v).has i.name = true := by
        rw [Entries.has, Entries.get?_insert_self]
        rfl
      simp only [hgiven, Bool.not_true, Bool.and_false, Bool.false_eq_true, if_false]
      split
      · rw [Entries.insert_insert]
      · rfl
    · have hsame : (entries.insert key v).has i.name = entries.has i.name := by
        rw [Entries.has, Entries.get?_insert_of_ne hkey]
        rfl
      simp only [hsame]
      split
      · rw [Entries.insert_comm entries hkey]
      · rfl

theorem foldl_fillDefault_insert (inputs : List Input) (entries : Entries) (key : String)
    (v : Value) : inputs.foldl fillDefault (entries.insert key v) =
      (inputs.foldl fillDefault entries).insert key v := by
  induction inputs generalizing entries with
  | nil => rfl
  | cons i inputs ih => rw [List.foldl_cons, List.foldl_cons, fillDefault_insert, ih]

theorem fillDefaults_insert (shape : Shape) (entries : Entries) (key : String) (v : Value) :
    shape.fillDefaults (entries.insert key v) = (shape.fillDefaults entries).insert key v := by
  rw [fillDefaults, fillDefaults]
  cases shape.role with
  | create => exact foldl_fillDefault_insert shape.inputs entries key v
  | update | updateAll => rfl

theorem increasing_fillDefaults (shape : Shape) (hsorted : entries.Increasing) :
    (shape.fillDefaults entries).Increasing := by
  rw [fillDefaults]
  split
  · refine List.foldlRecOn shape.inputs fillDefault hsorted fun es hes i _ => ?_
    rw [fillDefault]
    split
    · split
      · exact hes.insert _ _
      · exact hes
    · exact hes
  · exact hsorted

/-- A coerced object has its keys in order if the supplied one has. -/
theorem increasing_of_coerce {filled : Entries} (hsorted : entries.Increasing)
    (h : shape.coerce s (.object entries) = .ok (.object filled)) : filled.Increasing := by
  rw [coerce, coerceObject] at h
  obtain ⟨coerced, hcoerced, hcomplete⟩ := bind_eq_ok.1 h
  obtain ⟨-, -, hfilled⟩ := complete_eq_ok_iff.1 hcomplete
  rw [Value.object.inj hfilled]
  exact shape.increasing_fillDefaults (hsorted.coerceEntries hcoerced)

end Shape

/-! ### Supplying a default -/

/-- A plain setter always counts as given. -/
theorem Input.isNoChange_of_isSetter (i : Input) (h : i.kind.isSetter = true) (w : Value) :
    i.isNoChange w = false := by
  obtain ⟨name, f, kind⟩ := i
  cases kind with
  | createAndSetEdge => cases h
  | filter | scalar | combine | valueObject | createExtension | updateExtension | createChildren
  | addChildren | updateChildren | removeChildren | reference | addEdges | removeEdges
  | createAndAddEdges | setEdge => rfl

namespace Schema

/-- A plain setter may be given with everything else. -/
theorem Lawful.compatible_insert (hs : s.Lawful) (hnames : s.NamesDistinct)
    (hshape : s.HasShape shape) (hrole : shape.role = .create) (hi : i ∈ shape.inputs)
    (hsetter : i.kind.isSetter = true) :
    shape.Compatible (coerced.insert i.name w) ↔ shape.Compatible coerced := by
  have hnodup := hnames.nodup hshape
  have hhas : ∀ j ∈ shape.inputs, j ≠ i → (coerced.insert i.name w).has j.name =
      coerced.has j.name := by
    intro j hj hne
    have hname : j.name ≠ i.name := fun h => hne (List.inj_on_of_nodup_map hnodup hj hi h)
    rw [Entries.has, Entries.get?_insert_of_ne hname]
    rfl
  -- Another input of a field that one of the two replaces is not the setter, which is alone.
  have hapart : ∀ j ∈ shape.inputs, ∀ k ∈ shape.inputs, j.field.id = k.field.id → j.name ≠ k.name →
      j ≠ i ∧ k ≠ i := by
    intro j hj k hk hfield hne
    have hsame := hshape.field_eq hs.built.numbered hj hk hfield
    constructor
    · rintro rfl
      exact hne (congrArg (·.name)
        (hnames.eq_of_field hshape hrole hi hsetter hk hsame.symm).symm)
    · rintro rfl
      exact hne (congrArg (·.name) (hnames.eq_of_field hshape hrole hi hsetter hj hsame))
  constructor
  · intro h j hj k hk hjreplaces hkreplaces hfield hjgiven hkgiven
    by_contra hne
    obtain ⟨hji, hki⟩ := hapart j hj k hk hfield hne
    rw [← hhas j hj hji] at hjgiven
    rw [← hhas k hk hki] at hkgiven
    exact hne (h j hj k hk hjreplaces hkreplaces hfield hjgiven hkgiven)
  · intro h j hj k hk hjreplaces hkreplaces hfield hjgiven hkgiven
    by_contra hne
    obtain ⟨hji, hki⟩ := hapart j hj k hk hfield hne
    rw [hhas j hj hji] at hjgiven
    rw [hhas k hk hki] at hkgiven
    exact hne (h j hj k hk hjreplaces hkreplaces hfield hjgiven hkgiven)

/-- Nothing identifies a new object. -/
theorem HasShape.filter?_of_create (hshape : s.HasShape shape) (hrole : shape.role = .create) :
    shape.filter? = none := by
  rw [Shape.filter?, List.find?_eq_none]
  intro i hi
  have hoffers := (hshape.offers hi).2
  rw [hrole] at hoffers
  simp [hoffers.isFilter_of_create]

namespace Lawful

/-- An object with the default supplied is coerced if it is without, and the default is. It gets the
coerced default in place of the declared one. -/
theorem coerce_insert_default (hs : s.Lawful) (hnames : s.NamesDistinct)
    (hshape : s.HasShape shape) (hi : i ∈ shape.inputs) (hd : i.default? shape.role = some d)
    (hsorted : entries.Increasing) (habsent : entries.get? i.name = none) :
    shape.coerce s (.object (entries.insert i.name d)) = .ok w ↔
      ∃ (d' : Value) (filled : Entries), i.coerce s d = .ok d' ∧
        shape.coerce s (.object entries) = .ok (.object filled) ∧
        filled.get? i.name = some d ∧ w = .object (filled.insert i.name d') := by
  obtain ⟨hrole, hsetter⟩ := Input.default?_eq_some hd
  have hnodup := hnames.nodup hshape
  have hfound := Shape.input?_of_mem hnodup hi
  have hkept : ∀ x, i.isNoChange x = false := i.isNoChange_of_isSetter hsetter
  have hcomplete : ∀ {others : Entries} {u : Value}, shape.complete others = .ok u ↔
      shape.Compatible others ∧ u = .object (shape.fillDefaults others) := by
    intro others u
    rw [Shape.complete_eq_ok_iff, Shape.conflict?_eq_none_iff hnodup,
      hshape.filter?_of_create hrole]
    simp
  have hcoerce : ∀ {es : Entries} {u : Value}, shape.coerce s (.object es) = .ok u ↔
      ∃ others, coerceEntries s shape es = .ok others ∧ shape.Compatible others ∧
        u = .object (shape.fillDefaults others) := by
    intro es u
    rw [Shape.coerce, coerceObject, bind_eq_ok]
    simp only [hcomplete]
  have hdefault : ∀ others, coerceEntries s shape entries = .ok others →
      (shape.fillDefaults others).get? i.name = some d := by
    intro others hothers
    rw [(Shape.sole_of_nodup s hnodup hfound).defaults, get?_of_coerceEntries hothers habsent, hd]
    rfl
  simp only [hcoerce, coerceEntries_insert hsorted habsent hfound hkept]
  constructor
  · rintro ⟨_, ⟨d', others, hd', hothers, rfl⟩, hcompatible, rfl⟩
    rw [hs.compatible_insert hnames hshape hrole hi hsetter] at hcompatible
    refine ⟨d', shape.fillDefaults others, hd', ⟨others, hothers, hcompatible, rfl⟩, ?_, ?_⟩
    · exact hdefault others hothers
    · rw [Shape.fillDefaults_insert]
  · rintro ⟨d', _, hd', ⟨others, hothers, hcompatible, ⟨⟩⟩, -, rfl⟩
    refine ⟨_, ⟨d', others, hd', hothers, rfl⟩, ?_, ?_⟩
    · exact (hs.compatible_insert hnames hshape hrole hi hsetter).2 hcompatible
    · rw [Shape.fillDefaults_insert]

/-- A default in normal form is coerced to itself. -/
theorem coerce_default_of_normal (hs : s.Lawful) (hnames : s.NamesDistinct)
    (hshape : s.HasShape shape) (hi : i ∈ shape.inputs) (h : i.Normal s d) :
    i.coerce s d = .ok d := by
  have hinput := hshape.hasInputs i hi
  refine Input.coerce_of_normal hs hinput h fun nested hnested u hu => ?_
  obtain ⟨role, t, hn, hmade⟩ := Input.nestedShape?_eq_some.1 hnested
  exact hs.coerceObject_of_normal hnames (h.inside nested hnested u hu)
    (hinput.hasShape hn hmade).1

end Lawful

end Schema

/-! ### Accepted schemas -/

/-- **An omitted default is stored as it was declared.** In an accepted schema with distinct names,
a new object with the default of a setter supplied is coerced exactly if it is without, and the
default is coerced too. The two then differ only in that the first has the coerced default and the
second the declared one. They are equal exactly if the default is coerced to itself, and one in
normal form is. -/
theorem omitted_default_as_declared {decl : SchemaDecl} {a : AcceptedSchema}
    (h : decl.accept = .ok a) (hnames : a.schema.NamesDistinct) (ht : t ∈ a.schema.types)
    (hobject : t.kind.isObject = true) :
    ∃ shape, a.schema.shape .create t = .ok shape ∧
      ∀ i ∈ shape.inputs, i.kind.isSetter = true → ∀ d, i.field.defaultValue = some d →
        ∀ entries : Entries, entries.Increasing → entries.get? i.name = none →
          (∀ w, shape.coerce a.schema (.object (entries.insert i.name d)) = .ok w ↔
            ∃ (d' : Value) (filled : Entries), i.coerce a.schema d = .ok d' ∧
              shape.coerce a.schema (.object entries) = .ok (.object filled) ∧
              filled.get? i.name = some d ∧ w = .object (filled.insert i.name d')) ∧
          (∀ w, shape.coerce a.schema (.object (entries.insert i.name d)) = .ok w →
            (shape.coerce a.schema (.object entries) = .ok w ↔ i.coerce a.schema d = .ok d)) ∧
          (i.Normal a.schema d → i.coerce a.schema d = .ok d) := by
  have hs := SchemaDecl.lawful_of_accept h
  obtain ⟨shape, hmade⟩ := hs.exists_shape ht hobject .create
  obtain ⟨hshape, -⟩ := Schema.hasShape_of_shape ht hmade
  refine ⟨shape, hmade, fun i hi hsetter d hd entries hsorted habsent => ?_⟩
  have hdefault : i.default? shape.role = some d := by
    rw [Schema.role_of_shape hmade, Input.default?, if_pos hsetter, hd]
  have hinsert := fun w =>
    hs.coerce_insert_default (w := w) hnames hshape hi hdefault hsorted habsent
  refine ⟨hinsert, fun w hw => ?_, hs.coerce_default_of_normal hnames hshape hi⟩
  obtain ⟨d', filled, hd', hfilled, hget, rfl⟩ := (hinsert w).1 hw
  rw [hfilled, hd', Except.ok.injEq, Except.ok.injEq, Value.object.injEq]
  constructor
  · intro hsame
    rw [hsame, Entries.get?_insert_self] at hget
    exact Option.some.inj hget
  · rintro rfl
    exact ((Shape.increasing_of_coerce hsorted hfilled).insert_of_get? hget).symm

/-- Tickets whose code is an identity with a number as its default. -/
def ticketDecl : SchemaDecl where
  profiles := [.named defaultProfileName]
  types :=
    [(TypeDecl.named "Ticket" .rootEntity)
        |>.withField (.named "row" "String")
        |>.withField ((FieldDecl.named "code" "ID").withDefault (.int 7))
        |>.withField (FieldDecl.named "seats" "Int").asList]

def ticket : AcceptedSchema := ⟨(Schema.ofDecl ticketDecl).toOption.getD .initial, by decide⟩

theorem accept_ticketDecl : ticketDecl.accept = .ok ticket := rfl

/-- A ticket is created with a row and no seats. If its code is supplied too it is stored as text,
and if it is omitted as the number of the declaration, so the two are not the same. -/
theorem ticket_omits_code : ticket.schema.NamesDistinct ∧ ∃ t ∈ ticket.schema.types,
    t.kind.isObject = true ∧ ∃ shape i, ticket.schema.shape .create t = .ok shape ∧
      i ∈ shape.inputs ∧ i.kind.isSetter = true ∧ i.field.defaultValue = some (.int 7) ∧
      i.coerce ticket.schema (.int 7) = .ok (.string "7") ∧
      shape.coerce ticket.schema (.object (Entries.insert [("row", .string "C"), ("seats", .null)]
          i.name (.int 7))) =
        .ok (.object [("code", .string "7"), ("row", .string "C"), ("seats", .list [])]) ∧
      ∃ filled : Entries,
        shape.coerce ticket.schema (.object [("row", .string "C"), ("seats", .null)]) =
          .ok (.object filled) ∧ filled.get? i.name = some (.int 7) ∧
        filled.insert i.name (.string "7") =
          [("code", .string "7"), ("row", .string "C"), ("seats", .list [])] ∧
        filled ≠ [("code", .string "7"), ("row", .string "C"), ("seats", .list [])] := by
  have hnames : ticket.schema.NamesDistinct := by decide
  have ht : ticket.schema.types.get ⟨7, by decide⟩ ∈ ticket.schema.types := List.get_mem _ _
  obtain ⟨shape, hshape, homit⟩ := omitted_default_as_declared accept_ticketDecl hnames ht rfl
  have hevaluated : ∃ shape row i seats,
      ticket.schema.shape .create (ticket.schema.types.get ⟨7, by decide⟩) = .ok shape ∧
      shape.inputs = [row, i, seats] ∧ i.kind.isSetter = true ∧
      i.field.defaultValue = some (.int 7) ∧
      Entries.get? [("row", .string "C"), ("seats", .null)] i.name = none ∧
      i.coerce ticket.schema (.int 7) = .ok (.string "7") ∧
      shape.coerce ticket.schema (.object (Entries.insert [("row", .string "C"), ("seats", .null)]
          i.name (.int 7))) =
        .ok (.object [("code", .string "7"), ("row", .string "C"), ("seats", .list [])]) :=
    ⟨_, _, _, _, rfl, rfl, rfl, rfl, rfl, rfl, rfl⟩
  obtain ⟨shape', row, i, seats, hshape', hinputs, hsetter, hd, habsent, hcoerced, hsupplied⟩ :=
    hevaluated
  obtain rfl := Except.ok.inj (hshape.symm.trans hshape')
  have hi : i ∈ shape.inputs := by simp [hinputs]
  have hsorted : Entries.Increasing [("row", .string "C"), ("seats", .null)] :=
    List.pairwise_pair.2 (by decide)
  obtain ⟨hinsert, hequal, -⟩ := homit i hi hsetter _ hd _ hsorted habsent
  obtain ⟨d', filled, hd', homitted, hget, hw⟩ := (hinsert _).1 hsupplied
  obtain rfl := Except.ok.inj (hcoerced.symm.trans hd')
  refine ⟨hnames, _, ht, rfl, shape, i, hshape, hi, hsetter, hd, hcoerced, hsupplied, filled,
    homitted, hget, (Value.object.inj hw).symm, ?_⟩
  rintro rfl
  have hsame := (hequal _ hsupplied).1 homitted
  rw [hcoerced] at hsame
  cases hsame

/-- Vouchers whose code is an identity with a number as its default. -/
def voucherDecl : SchemaDecl where
  profiles := [.named defaultProfileName]
  types :=
    [(TypeDecl.named "Voucher" .rootEntity)
      |>.withField ((FieldDecl.named "code" "ID").withDefault (.int 7))]

def voucher : AcceptedSchema := ⟨(Schema.ofDecl voucherDecl).toOption.getD .initial, by decide⟩

/-- Vouchers are accepted. The default supplied is stored as text, and omitted as a number. -/
theorem default_kept_as_declared : voucherDecl.accept = .ok voucher ∧
    voucher.schema.NamesDistinct ∧ ∃ t ∈ voucher.schema.types, t.kind.isObject = true ∧
      ∃ shape i, voucher.schema.shape .create t = .ok shape ∧ shape.inputs = [i] ∧
        i.name = "code" ∧ i.kind.isSetter = true ∧ i.field.defaultValue = some (.int 7) ∧
        shape.coerce voucher.schema (.object [("code", .int 7)]) =
          .ok (.object [("code", .string "7")]) ∧
        shape.coerce voucher.schema (.object []) = .ok (.object [("code", .int 7)]) ∧
        shape.coerce voucher.schema (.object []) ≠ .ok (.object [("code", .string "7")]) := by
  have ht : voucher.schema.types.get ⟨7, by decide⟩ ∈ voucher.schema.types := List.get_mem _ _
  have hevaluated : ∃ shape i,
      voucher.schema.shape .create (voucher.schema.types.get ⟨7, by decide⟩) = .ok shape ∧
      shape.inputs = [i] ∧ i.name = "code" ∧ i.kind.isSetter = true ∧
      i.field.defaultValue = some (.int 7) ∧
      shape.coerce voucher.schema (.object [("code", .int 7)]) =
        .ok (.object [("code", .string "7")]) ∧
      shape.coerce voucher.schema (.object []) = .ok (.object [("code", .int 7)]) :=
    ⟨_, _, rfl, rfl, rfl, rfl, rfl, rfl, rfl⟩
  obtain ⟨shape, i, hshape, hinputs, hname, hsetter, hd, hsupplied, homitted⟩ := hevaluated
  refine ⟨rfl, by decide, _, ht, rfl, shape, i, hshape, hinputs, hname, hsetter, hd, hsupplied,
    homitted, ?_⟩
  rw [homitted]
  intro hsame
  cases hsame

end EntityGraph
