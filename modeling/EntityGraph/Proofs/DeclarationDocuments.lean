import EntityGraph.Decimal.Shortest
import EntityGraph.Proofs.JsonText
import EntityGraph.Schema.DeclJson

/-!
# Declarations and their documents

A declaration is read back from the document that is written for it, keyed or positional. All
records are written through `RecordForm.record` and read through `Json.record?`, so one lemma on the
two serves all of them, and each record adds only what its parts are. Most parts are read back
whatever they hold. A default value is not: `null` is read as no default, a float has to be finite
and an object has to be sorted. Every default value that was read satisfies this.

The text of the document is read back as well. Here the bound on nesting matters, since a default
value may be nested as deeply as the reader admits. The record of its field stands inside four other
containers, in the document that was read as in the one that is written, so the bound is kept.

## Main definitions

* `SchemaDecl.defaults` — all default values of a declaration
* `Json.Fits` — a document whose text is read back inside a given number of containers

## Main results

* `Json.record?_record` — a record is read back in either form
* `SchemaDecl.ofJson?_toJson` — a declaration is read back from its documents
* `SchemaDecl.exists_of_ofJson?` — what default values were read from
* `declarations_round_trip` — what a text declares is read back from its documents and their texts
-/

namespace EntityGraph

namespace Json

/-! ### Records -/

section Record

variable {parts : List (String × Json)}

theorem filter_key_of_nodup (h : (parts.map (·.1)).Nodup) {m : String × Json} (hm : m ∈ parts) :
    parts.filter (·.1 == m.1) = [m] := by
  induction parts with
  | nil => cases hm
  | cons p ps ih =>
    obtain ⟨hp, hps⟩ := List.nodup_cons.1 h
    rcases List.mem_cons.1 hm with rfl | hm
    · have hnone : ps.filter (·.1 == m.1) = [] := by
        refine List.filter_eq_nil_iff.2 fun q hq heq => hp ?_
        exact List.mem_map.2 ⟨q, hq, beq_iff_eq.1 heq⟩
      rw [List.filter_cons_of_pos (by simp), hnone]
    · have hne : p.1 ≠ m.1 := fun heq => hp (List.mem_map.2 ⟨m, hm, heq.symm⟩)
      rw [List.filter_cons_of_neg (by simpa using hne), ih hps hm]

theorem part?_of_nodup (h : (parts.map (·.1)).Nodup) {m : String × Json} (hm : m ∈ parts) :
    part? parts m.1 = some (some m.2) := by
  rw [part?, valuesOf, filter_key_of_nodup h hm]
  rfl

/-- A record is read back in either form, part by part. -/
theorem record?_record (form : RecordForm) {keys : List String} (hkeys : parts.map (·.1) = keys)
    (hnodup : keys.Nodup) : record? keys (form.record parts) = some (parts.map (some ·.2)) := by
  subst hkeys
  cases form with
  | keyed =>
    rw [RecordForm.record, record?, List.mapM_map]
    exact (mapM_congr fun m hm => part?_of_nodup hnodup hm).trans List.mapM_pure
  | positional =>
    rw [RecordForm.record, record?, if_pos (by simp)]
    simp

end Record

theorem list?_ofList {α : Type} {decode : Json → Option α} {encode : α → Json} {as : List α}
    (h : ∀ a ∈ as, decode (encode a) = some a) : list? decode (ofList encode as) = some as :=
  mapM_map_eq_some h

@[simp] theorem list?_ofList_string (texts : List String) :
    list? string? (ofList .string texts) = some texts :=
  list?_ofList fun _ _ => rfl

theorem optional?_ofOption {α : Type} {decode : Json → Option α} {encode : α → Json} {o : Option α}
    (h : ∀ a, o = some a → encode a ≠ .null ∧ decode (encode a) = some a) :
    optional? decode (some (ofOption encode o)) = some o := by
  cases o with
  | none => rfl
  | some a =>
    obtain ⟨hnull, hdecode⟩ := h a rfl
    rw [ofOption, optional?, hdecode, Option.map_some]
    exact hnull

@[simp] theorem optional?_ofOption_string (o : Option String) :
    optional? string? (some (ofOption .string o)) = some o :=
  optional?_ofOption fun _ _ => ⟨by simp, rfl⟩

@[simp] theorem word?_toNat (n : UInt64) : word? (.int n.toNat) = some n := by
  have h : (n.toNat : Int) < UInt64.size := by exact_mod_cast n.toNat_lt
  rw [word?, if_pos ⟨by omega, h⟩]
  simp

@[simp] theorem default?_some {α : Type} (missing : α) (decode : Json → Option α) (j : Json) :
    default? missing decode (some j) = decode j := by
  rw [default?]

@[simp] theorem required?_some {α : Type} (decode : Json → Option α) (j : Json) :
    required? decode (some j) = decode j := by
  rw [required?]

end Json

theorem RecordForm.record_ne_null (form : RecordForm) (parts : List (String × Json)) :
    form.record parts ≠ .null := by
  cases form <;> simp [record]

/-! ### Reading back -/

@[simp] theorem Location.ofJson?_toJson (form : RecordForm) (l : Location) :
    ofJson? (l.toJson form) = some l := by
  rw [ofJson?, toJson, Json.record?_record form]
  · simp
  · rfl
  · decide

@[simp] theorem Roles.ofJson?_toJson (form : RecordForm) (r : Roles) :
    ofJson? (r.toJson form) = some r := by
  rw [ofJson?, toJson, Json.record?_record form]
  · simp
  · rfl
  · decide

@[simp] theorem Permissions.ofJson?_toJson (form : RecordForm) (p : Permissions) :
    ofJson? (p.toJson form) = some p := by
  have hroles : Json.optional? Roles.ofJson? (some (Json.ofOption (Roles.toJson form) p.roles)) =
      some p.roles :=
    Json.optional?_ofOption fun r _ => ⟨form.record_ne_null _, r.ofJson?_toJson form⟩
  rw [ofJson?, toJson, Json.record?_record form]
  · simp [hroles]
  · rfl
  · decide

@[simp] theorem Permissions.optional?_ofOption (form : RecordForm) (o : Option Permissions) :
    Json.optional? ofJson? (some (Json.ofOption (toJson form) o)) = some o :=
  Json.optional?_ofOption fun p _ => ⟨form.record_ne_null _, p.ofJson?_toJson form⟩

@[simp] theorem Grant.ofJson?_toJson (form : RecordForm) (g : Grant) :
    ofJson? (g.toJson form) = some g := by
  rw [ofJson?, toJson, Json.record?_record form]
  · simp [Json.name?]
  · rfl
  · decide

@[simp] theorem Profile.ofJson?_toJson (form : RecordForm) (p : Profile) :
    ofJson? (p.toJson form) = some p := by
  have hgrants : Json.list? Grant.ofJson? (Json.ofList (Grant.toJson form) p.grants) =
      some p.grants :=
    Json.list?_ofList fun g _ => g.ofJson?_toJson form
  rw [ofJson?, toJson, Json.record?_record form]
  · simp [hgrants, Json.string?]
  · rfl
  · decide

/-- What a default value is if it came from a document: not `null`, and read back from its own. -/
def Value.Declared (v : Value) : Prop := v.toJson ≠ .null ∧ Value.ofJson? v.toJson = some v

theorem FieldDecl.ofJson?_toJson (form : RecordForm) {f : FieldDecl}
    (h : ∀ v, f.defaultValue = some v → v.Declared) : ofJson? (f.toJson form) = some f := by
  have hdefault := Json.optional?_ofOption h
  rw [ofJson?, toJson, Json.record?_record form]
  · simp [hdefault, Json.bool?, Json.string?]
  · rfl
  · decide

/-- The default values of a type. -/
def TypeDecl.defaults (t : TypeDecl) : List Value := t.fields.filterMap (·.defaultValue)

/-- The default values of all types. -/
def SchemaDecl.defaults (s : SchemaDecl) : List Value := s.types.flatMap (·.defaults)

theorem TypeDecl.ofJson?_toJson (form : RecordForm) {t : TypeDecl}
    (h : ∀ v ∈ t.defaults, v.Declared) : ofJson? (t.toJson form) = some t := by
  have hfields : Json.list? FieldDecl.ofJson? (Json.ofList (FieldDecl.toJson form) t.fields) =
      some t.fields :=
    Json.list?_ofList fun f hf => f.ofJson?_toJson form fun v hv =>
      h v (List.mem_filterMap.2 ⟨f, hf, hv⟩)
  rw [ofJson?, toJson, Json.record?_record form]
  · simp [hfields, Json.string?, Json.name?]
  · rfl
  · decide

/-- A declaration is read back from its document in either form. -/
theorem SchemaDecl.ofJson?_toJson (form : RecordForm) {s : SchemaDecl}
    (h : ∀ v ∈ s.defaults, v.Declared) : ofJson? (s.toJson form) = some s := by
  have htypes : Json.list? TypeDecl.ofJson? (Json.ofList (TypeDecl.toJson form) s.types) =
      some s.types :=
    Json.list?_ofList fun t ht => t.ofJson?_toJson form fun v hv =>
      h v (List.mem_flatMap.2 ⟨t, ht, hv⟩)
  have hprofiles : Json.list? Profile.ofJson? (Json.ofList (Profile.toJson form) s.profiles) =
      some s.profiles :=
    Json.list?_ofList fun p _ => p.ofJson?_toJson form
  rw [ofJson?, toJson, Json.record?_record form]
  · simp [htypes, hprofiles]
  · rfl
  · decide

/-! ### Where default values come from -/

namespace Json

theorem nesting_lt_of_mem_array {js : List Json} {j : Json} (h : j ∈ js) :
    j.nesting < (array js).nesting :=
  Nat.lt_succ_of_le (nesting_array_le.1 (Nat.le_refl _) j h)

theorem nesting_lt_of_mem_object {ms : List (String × Json)} {m : String × Json} (h : m ∈ ms) :
    m.2.nesting < (object ms).nesting :=
  Nat.lt_succ_of_le (nesting_object_le.1 (Nat.le_refl _) m h)

theorem nesting_lt_of_record? {keys : List String} {j : Json} {parts : List (Option Json)}
    (h : j.record? keys = some parts) {i : Json} (hi : some i ∈ parts) : i.nesting < j.nesting := by
  cases j with
  | object ms =>
    obtain ⟨key, -, hkey⟩ := exists_of_mem_mapM_some h hi
    have hvalues : valuesOf key ms = [i] := by
      rw [part?] at hkey
      split at hkey <;> simp_all
    have hmem : i ∈ valuesOf key ms := by simp [hvalues]
    obtain ⟨m, hm, rfl⟩ := List.mem_map.1 hmem
    exact nesting_lt_of_mem_object (List.mem_of_mem_filter hm)
  | array js =>
    rw [record?] at h
    split at h
    · obtain rfl := Option.some.inj h
      refine nesting_lt_of_mem_array ?_
      simpa using hi
    · cases h
  | null | bool | int | float | string | void => cases h

theorem exists_of_mem_list? {α : Type} {decode : Json → Option α} {o : Option Json} {as : List α}
    (h : default? [] (list? decode) o = some as) {a : α} (ha : a ∈ as) :
    ∃ j i : Json, o = some j ∧ i.nesting < j.nesting ∧ decode i = some a := by
  cases o with
  | none =>
    obtain rfl : [] = as := Option.some.inj h
    cases ha
  | some j =>
    cases j with
    | array js =>
      obtain ⟨i, hi, hdecode⟩ := exists_of_mem_mapM_some h ha
      exact ⟨_, i, rfl, nesting_lt_of_mem_array hi, hdecode⟩
    | null | bool | int | float | string | object | void => cases h

theorem exists_of_optional? {α : Type} {decode : Json → Option α} {o : Option Json} {a : α}
    (h : optional? decode o = some (some a)) :
    ∃ i : Json, o = some i ∧ i ≠ .null ∧ decode i = some a := by
  rw [optional?.eq_def] at h
  split at h
  · cases h
  · next i hnull =>
    obtain ⟨b, hb, heq⟩ := Option.map_eq_some_iff.1 h
    obtain rfl := Option.some.inj heq
    exact ⟨i, rfl, hnull, hb⟩
  · cases h

end Json

theorem FieldDecl.exists_of_ofJson? {j : Json} {f : FieldDecl} (h : ofJson? j = some f) {v : Value}
    (hv : f.defaultValue = some v) :
    ∃ i : Json, i.nesting < j.nesting ∧ i ≠ .null ∧ Value.ofJson? i = some v := by
  obtain ⟨parts, hparts, h⟩ := Option.bind_eq_some_iff.1 h
  split at h
  · iterate 6 obtain ⟨_, -, h⟩ := Option.bind_eq_some_iff.1 h
    obtain ⟨value, hvalue, h⟩ := Option.bind_eq_some_iff.1 h
    iterate 3 obtain ⟨_, -, h⟩ := Option.bind_eq_some_iff.1 h
    obtain rfl := Option.some.inj h
    obtain rfl : value = some v := hv
    obtain ⟨i, rfl, hnull, hi⟩ := Json.exists_of_optional? hvalue
    exact ⟨i, Json.nesting_lt_of_record? hparts (by simp), hnull, hi⟩
  · cases h

theorem TypeDecl.exists_of_ofJson? {j : Json} {t : TypeDecl} (h : ofJson? j = some t) {v : Value}
    (hv : v ∈ t.defaults) :
    ∃ i : Json, i.nesting + 2 < j.nesting ∧ i ≠ .null ∧ Value.ofJson? i = some v := by
  obtain ⟨parts, hparts, h⟩ := Option.bind_eq_some_iff.1 h
  split at h
  · iterate 2 obtain ⟨_, -, h⟩ := Option.bind_eq_some_iff.1 h
    obtain ⟨fields, hfields, h⟩ := Option.bind_eq_some_iff.1 h
    iterate 4 obtain ⟨_, -, h⟩ := Option.bind_eq_some_iff.1 h
    obtain rfl := Option.some.inj h
    obtain ⟨f, hf, hv⟩ := List.mem_filterMap.1 hv
    obtain ⟨k, l, rfl, hl, hf⟩ := Json.exists_of_mem_list? hfields hf
    obtain ⟨i, hi, hnull, hread⟩ := FieldDecl.exists_of_ofJson? hf hv
    have hk := Json.nesting_lt_of_record? hparts (i := k) (by simp)
    exact ⟨i, by omega, hnull, hread⟩
  · cases h

/-- A default value was read from a document inside five containers. -/
theorem SchemaDecl.exists_of_ofJson? {j : Json} {s : SchemaDecl} (h : ofJson? j = some s)
    {v : Value} (hv : v ∈ s.defaults) :
    ∃ i : Json, i.nesting + 4 < j.nesting ∧ i ≠ .null ∧ Value.ofJson? i = some v := by
  obtain ⟨parts, hparts, h⟩ := Option.bind_eq_some_iff.1 h
  split at h
  · obtain ⟨types, htypes, h⟩ := Option.bind_eq_some_iff.1 h
    obtain ⟨_, -, h⟩ := Option.bind_eq_some_iff.1 h
    obtain rfl := Option.some.inj h
    obtain ⟨t, ht, hv⟩ := List.mem_flatMap.1 hv
    obtain ⟨k, l, rfl, hl, ht⟩ := Json.exists_of_mem_list? htypes ht
    obtain ⟨i, hi, hnull, hread⟩ := TypeDecl.exists_of_ofJson? ht hv
    have hk := Json.nesting_lt_of_record? hparts (i := k) (by simp)
    exact ⟨i, by omega, hnull, hread⟩
  · cases h

/-! ### Documents of default values -/

namespace Value

theorem eq_null_of_ofJson? {j : Json} (h : ofJson? j = some .null) : j = .null := by
  cases j with
  | null => rfl
  | bool | string | void => cases h
  | int n =>
    rw [ofJson?, ofInt?, ofFloat?] at h
    split at h
    · cases h
    · split at h <;> cases h
  | float x =>
    rw [ofJson?, ofFloat?] at h
    split at h <;> cases h
  | array js =>
    rw [ofJson?_array] at h
    obtain ⟨_, -, h⟩ := Option.map_eq_some_iff.1 h
    cases h
  | object ms =>
    rw [ofJson?_object] at h
    obtain ⟨_, -, h⟩ := Option.map_eq_some_iff.1 h
    cases h

theorem declared_of_ofJson? {j : Json} {v : Value} (h : ofJson? j = some v) (hnull : j ≠ .null) :
    v.Declared := by
  have hread := ofJson?_toJson (sorted_of_ofJson? h) (finite_of_ofJson? h)
  refine ⟨fun htoJson => hnull ?_, hread⟩
  rw [htoJson] at hread
  obtain rfl : Value.null = v := Option.some.inj hread
  exact eq_null_of_ofJson? h

/-- The document of a value is not nested more deeply than the one it was read from. -/
theorem nesting_toJson_le {j : Json} {v : Value} (h : ofJson? j = some v) :
    v.toJson.nesting ≤ j.nesting := by
  refine ofJson?_induct (P := fun j v => v.toJson.nesting ≤ j.nesting) ?_ ?_ ?_ h
  · intro j v hlist hobject _
    cases v with
    | list => cases hlist
    | object => cases hobject
    | null | bool | int | string => exact Nat.zero_le _
    | float x =>
      rw [toJson]
      split <;> exact Nat.zero_le _
  · intro js vs hvs
    rw [toJson_list]
    refine Json.nesting_array_le.2 (List.forall_mem_map.2 fun v hv => ?_)
    obtain ⟨j, hj, hle⟩ := hvs v hv
    exact hle.trans (Json.nesting_array_le.1 (Nat.le_refl _) j hj)
  · intro ms es _ hes
    rw [toJson_object]
    refine Json.nesting_object_le.2 (List.forall_mem_map.2 fun e he => ?_)
    obtain ⟨m, hm, hle⟩ := hes e he
    exact hle.trans (Json.nesting_object_le.1 (Nat.le_refl _) m hm)

theorem legible_toJson {number : Float → String} {v : Value}
    (h : ∀ w ∈ v.nodes, ∀ x, w = .float x → Json.read? (number x) = some (.float x)) :
    v.toJson.Legible number := by
  induction v using Value.induct with
  | null => exact .null
  | bool b => exact .bool b
  | int n =>
    have hsize : (2 : Int) ^ 63 ≤ UInt64.size := by decide
    exact .int ⟨Int64.minValue_le_toInt n, Int.lt_of_lt_of_le (Int64.toInt_lt n) hsize⟩
  | string s => exact .string s
  | float x =>
    rw [toJson]
    split
    · exact .float (h (.float x) (by simp [nodes]) x rfl)
    · exact .null
  | list vs ih =>
    rw [toJson_list]
    exact .array (List.forall_mem_map.2 fun v hv => ih v hv ((forall_nodes_list.1 h).2 v hv))
  | object es ih =>
    rw [toJson_object]
    exact .object (List.forall_mem_map.2 fun e he => ih e he ((forall_nodes_object.1 h).2 e he))

end Value

/-! ### Texts of declarations -/

/-- The document is legible, and at most `n` containers stand inside each other. -/
def Json.Fits (number : Float → String) (n : Nat) (j : Json) : Prop :=
  j.Legible number ∧ j.nesting ≤ n

section Fits

variable {number : Float → String} {n : Nat}

@[simp] theorem Json.fits_string (s : String) : (Json.string s).Fits number n :=
  ⟨.string s, Nat.zero_le n⟩

@[simp] theorem Json.fits_bool (b : Bool) : (Json.bool b).Fits number n :=
  ⟨.bool b, Nat.zero_le n⟩

@[simp] theorem Json.fits_word (w : UInt64) : (Json.int w.toNat).Fits number n := by
  have hmin : Int64.minValue.toInt ≤ 0 := by decide
  refine ⟨.int ⟨by omega, ?_⟩, Nat.zero_le n⟩
  exact_mod_cast w.toNat_lt

@[simp] theorem Json.fits_ofOption {α : Type} {encode : α → Json} {o : Option α} :
    (Json.ofOption encode o).Fits number n ↔ ∀ a, o = some a → (encode a).Fits number n := by
  cases o with
  | none =>
    have hnull : Json.null.Fits number n := ⟨.null, Nat.zero_le n⟩
    simpa [Json.ofOption] using hnull
  | some a => simp [Json.ofOption]

theorem Json.fits_array {js : List Json} (h : ∀ j ∈ js, j.Fits number n) :
    (Json.array js).Fits number (n + 1) :=
  ⟨.array fun j hj => (h j hj).1, Json.nesting_array_le.2 fun j hj => (h j hj).2⟩

theorem Json.fits_ofList {α : Type} {encode : α → Json} {as : List α}
    (h : ∀ a ∈ as, (encode a).Fits number n) : (Json.ofList encode as).Fits number (n + 1) :=
  Json.fits_array (List.forall_mem_map.2 h)

@[simp] theorem Json.fits_texts (texts : List String) :
    (Json.ofList .string texts).Fits number (n + 1) :=
  Json.fits_ofList fun s _ => Json.fits_string s

theorem RecordForm.fits_record (form : RecordForm) {parts : List (String × Json)}
    (h : ∀ m ∈ parts, m.2.Fits number n) : (form.record parts).Fits number (n + 1) := by
  cases form with
  | keyed => exact ⟨.object fun m hm => (h m hm).1, Json.nesting_object_le.2 fun m hm => (h m hm).2⟩
  | positional => exact Json.fits_array (List.forall_mem_map.2 h)

@[simp] theorem Location.fits_toJson (form : RecordForm) (l : Location) :
    (l.toJson form).Fits number (n + 1) :=
  form.fits_record (by simp)

@[simp] theorem Roles.fits_toJson (form : RecordForm) (r : Roles) :
    (r.toJson form).Fits number (n + 2) :=
  form.fits_record (by simp)

@[simp] theorem Permissions.fits_toJson (form : RecordForm) (p : Permissions) :
    (p.toJson form).Fits number (n + 3) :=
  form.fits_record (by simp)

theorem Grant.fits_toJson (form : RecordForm) (g : Grant) : (g.toJson form).Fits number (n + 2) :=
  form.fits_record (by simp)

theorem Profile.fits_toJson (form : RecordForm) (p : Profile) :
    (p.toJson form).Fits number (n + 4) := by
  have hgrants : (Json.ofList (Grant.toJson form) p.grants).Fits number (n + 3) :=
    Json.fits_ofList fun g _ => g.fits_toJson form
  exact form.fits_record (by simp [hgrants])

theorem FieldDecl.fits_toJson (form : RecordForm) {f : FieldDecl}
    (h : ∀ v, f.defaultValue = some v → v.toJson.Fits number (n + 3)) :
    (f.toJson form).Fits number (n + 4) :=
  form.fits_record (by simpa using h)

theorem TypeDecl.fits_toJson (form : RecordForm) {t : TypeDecl}
    (h : ∀ v ∈ t.defaults, v.toJson.Fits number (n + 3)) : (t.toJson form).Fits number (n + 6) := by
  have hfields : (Json.ofList (FieldDecl.toJson form) t.fields).Fits number (n + 5) :=
    Json.fits_ofList fun f hf => f.fits_toJson form fun v hv =>
      h v (List.mem_filterMap.2 ⟨f, hf, hv⟩)
  exact form.fits_record (by simp [hfields])

theorem SchemaDecl.fits_toJson (form : RecordForm) {s : SchemaDecl}
    (h : ∀ v ∈ s.defaults, v.toJson.Fits number (n + 3)) :
    (s.toJson form).Fits number (n + 8) := by
  have htypes : (Json.ofList (TypeDecl.toJson form) s.types).Fits number (n + 7) :=
    Json.fits_ofList fun t ht => t.fits_toJson form fun v hv => h v (List.mem_flatMap.2 ⟨t, ht, hv⟩)
  have hprofiles : (Json.ofList (Profile.toJson form) s.profiles).Fits number (n + 7) :=
    Json.fits_ofList fun p _ => p.fits_toJson form
  exact form.fits_record (by simp [htypes, hprofiles])

end Fits

/-- **Declarations are read back.** Whatever a text declares is read back from its own document, in
the keyed form and in the positional one. It is also read back from the text of that document, as
long as each float of a default value is written as a text that reads as that float. -/
theorem declarations_round_trip {text : String} {s : SchemaDecl}
    (h : SchemaDecl.read? text = some s) (form : RecordForm) :
    SchemaDecl.ofJson? (s.toJson form) = some s ∧
      ∀ number : Float → String,
        (∀ v ∈ s.defaults, ∀ x, Value.float x ∈ v.nodes →
          Json.read? (number x) = some (.float x)) →
        SchemaDecl.read? ((s.toJson form).write number) = some s := by
  obtain ⟨j, hj, hs⟩ := Option.bind_eq_some_iff.1 h
  have hnesting := Json.nesting_of_read? hj
  have hdocument : SchemaDecl.ofJson? (s.toJson form) = some s := by
    refine SchemaDecl.ofJson?_toJson form fun v hv => ?_
    obtain ⟨i, -, hnull, hi⟩ := SchemaDecl.exists_of_ofJson? hs hv
    exact Value.declared_of_ofJson? hi hnull
  refine ⟨hdocument, fun number hnumber => ?_⟩
  have hfits : (s.toJson form).Fits number Json.nestingLimit := by
    refine SchemaDecl.fits_toJson form fun v hv => ⟨Value.legible_toJson ?_, ?_⟩
    · rintro w hw x rfl
      exact hnumber v hv x hw
    · -- Five containers stand around a default value, in the document it was read from as well.
      obtain ⟨i, hi, -, hread⟩ := SchemaDecl.exists_of_ofJson? hs hv
      have hle := Value.nesting_toJson_le hread
      rw [Json.nestingLimit] at hnesting
      omega
  rw [SchemaDecl.read?, Json.read?_write hfits.1 hfits.2]
  exact hdocument

/-- A declaration as it may be written: one field by position, the other by keys in an order of its
own with a key that is not looked at, and default values with floats and a `null` in them. -/
def priceDocument : Json :=
  .object [("types", .array [.object [
    ("kind", .string "ROOT_ENTITY"),
    ("fields", .array [
      .array [.string "price", .string "Float", .bool false, .bool false, .bool false, .null,
        .float 2.5],
      .object [("unit", .string "cm"), ("type", .string "JSON"), ("name", .string "sizes"),
        ("defaultValue", .object [("b", .int (-1)), ("a", .array [.float 2.5, .null])])]]),
    ("name", .string "Item")]])]

/-- What it declares. -/
def priceDecl : SchemaDecl where
  types := [{
    name := "Item"
    kind := .rootEntity
    fields := [
      { FieldDecl.named "price" "Float" with defaultValue := some (.float 2.5) },
      { FieldDecl.named "sizes" "JSON" with
        defaultValue := some (.object [("a", .list [.float 2.5, .null]), ("b", .int (-1))]) }]
    keyField := none
    values := []
    permissions := none
    location := .unknown }]
  profiles := []

theorem legible_priceDocument : priceDocument.Legible plainText := by
  have hfloat : (Json.float 2.5).Legible plainText := .float rfl
  have hint : (Json.int (-1)).Legible plainText := .int (by decide)
  simp [priceDocument, hfloat, hint]

/-- The prices are read from their text, and read back from the text of the record that lists its
parts by position. -/
theorem price_read_back :
    SchemaDecl.read? (priceDocument.write plainText) = some priceDecl ∧
      SchemaDecl.read? ((priceDecl.toJson .positional).write plainText) = some priceDecl := by
  have hread : SchemaDecl.read? (priceDocument.write plainText) = some priceDecl := by
    rw [SchemaDecl.read?, Json.read?_write legible_priceDocument (by decide)]
    rfl
  have hfloat : Json.read? (plainText 2.5) = some (.float 2.5) := rfl
  refine ⟨hread, (declarations_round_trip hread .positional).2 plainText ?_⟩
  simp [priceDecl, FieldDecl.named, SchemaDecl.defaults, TypeDecl.defaults, Value.nodes,
    Value.itemNodes, Value.entryNodes, hfloat]

end EntityGraph
