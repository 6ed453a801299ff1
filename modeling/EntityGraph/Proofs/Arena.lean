import EntityGraph.Proofs.Numbering
import EntityGraph.Schema.Arena
import Mathlib.Data.List.Find
import Mathlib.Data.List.Nodup

/-!
# Tables that represent schemas

The tables that calls build are shown to be those of the schema that the same calls build. Every
schema has one set of tables that represents it, and each call takes the tables of a schema to the
tables of the next one, as long as numbers fit. So after any row of calls the tables are known, and
what has to stay in step in them can be read off the schema.

A type that is entered goes through states that represent no schema: its entry is there before its
fields are, and lists none of them. Only the effect of all steps together is stated, in `withType`.
It is known whether or not numbers fit. Tables that are too long still grow by one type at a time,
and a call that fails still leaves them alone.

## Main definitions

* `Arena.withType` — the tables with one more type
* `Schema.arena` — the tables that represent a schema
* `Arena.Fits` — numbers are large enough for all places
* `Arena.InStep` — the tables are in step
* `Model.Complete`, `Model.Stores` — everything is filled in, and is what the schema says

## Main results

* `Arena.addType_of_ok`, `Arena.addType_of_error` — what entering a type does
* `Schema.perform_arena`, `Schema.run_arena` — calls on tables and on the schemas they represent
* `Schema.Built.inStep_arena` — the tables of a schema are in step
* `calls_keep_arena` — the tables are in step after every row of calls
* `calls_store_schema` — and hold the schema that the calls build
-/

namespace EntityGraph

variable {α β : Type}

/-! ### Names -/

namespace NameIndex

/-- A name that is inserted is found under its new number only if it was not there. -/
theorem get?_orInsert (index : NameIndex α) (name other : String) (a : α) :
    (index.orInsert name a).get? other =
      (index.get? other).or (if name = other then some a else none) := by
  rw [orInsert]
  split
  · next hthere =>
    by_cases hname : name = other
    · obtain ⟨b, hb⟩ := Option.isSome_iff_exists.1 hthere
      rw [← hname, hb, Option.some_or]
    · rw [if_neg hname, Option.or_none]
  · rw [get?, List.lookup_append]
    by_cases hname : name = other
    · simp [hname, get?]
    · simp [get?, List.lookup_cons, hname, beq_false_of_ne (Ne.symm hname)]

/-- In an index of a list, a name has the number of the first member that carries it. -/
theorem get?_foldl_orInsert (name : β → String) (number : β → α) (xs : List β)
    (index : NameIndex α) (key : String) :
    (xs.foldl (fun index x => index.orInsert (name x) (number x)) index).get? key =
      (index.get? key).or ((xs.find? (name · == key)).map number) := by
  induction xs generalizing index with
  | nil => simp
  | cons x xs ih =>
    rw [List.foldl_cons, ih, get?_orInsert, Option.or_assoc, List.find?_cons]
    by_cases hname : name x = key
    · simp [hname]
    · simp [hname, beq_false_of_ne hname]

end NameIndex

/-! ### Steps -/

namespace Arena

/-- The entries of the fields of a type, of which the first one gets the given place. -/
def slots (owner : TypeId) (first : Nat) (drafts : List FieldDraft) : List FieldSlot :=
  (drafts.zipIdx first).map fun (d, n) => ⟨d.define owner ⟨storedNumber n⟩, none⟩

/-- The number that the next type gets. -/
def nextType (a : Arena) : TypeId := ⟨storedNumber a.types.length⟩

/-- The tables with one more type. -/
def withType (a : Arena) (decl : TypeDecl) (drafts : List FieldDraft) : Arena :=
  let fields := slots a.nextType a.fields.length drafts
  { types := (a.types ++ [{ decl.slot with id := a.nextType }]).modify a.nextType.index
      fun t => { t with fields := fields.map fun f : FieldSlot => f.id }
    fields := a.fields ++ fields
    typeNames := a.typeNames.orInsert decl.name a.nextType
    profiles := a.profiles }

/-- Fields are entered one after the other, and their numbers come out in that order. -/
theorem run_pushFields (owner : TypeId) (drafts : List FieldDraft) (a : Arena) :
    (drafts.mapM (pushField owner)).run a =
      ((slots owner a.fields.length drafts).map fun f : FieldSlot => f.id,
        { a with fields := a.fields ++ slots owner a.fields.length drafts }) := by
  induction drafts generalizing a with
  | nil =>
    rw [slots, List.zipIdx_nil, List.map_nil, List.append_nil]
    rfl
  | cons d drafts ih =>
    have hfirst : (pushField owner d).run a = (⟨storedNumber a.fields.length⟩, { a with
        fields := a.fields ++ [⟨d.define owner ⟨storedNumber a.fields.length⟩, none⟩] }) := rfl
    have hrest := ih { a with
      fields := a.fields ++ [⟨d.define owner ⟨storedNumber a.fields.length⟩, none⟩] }
    rw [List.length_append, List.append_assoc] at hrest
    rw [List.mapM_cons, StateT.run_bind, hfirst]
    show StateT.run (drafts.mapM (pushField owner) >>= _) _ = _
    rw [StateT.run_bind, hrest]
    rfl

theorem run_enterDrafts (decl : TypeDecl) (drafts : List FieldDraft) (a : Arena) :
    (enterDrafts decl drafts).run a = (a.nextType, a.withType decl drafts) := by
  rw [enterDrafts, StateT.run_bind]
  show StateT.run (drafts.mapM (pushField a.nextType) >>= _) _ = _
  rw [StateT.run_bind, run_pushFields]
  rfl

/-- A type whose operators all exist is entered. -/
theorem addType_of_ok {decl : TypeDecl} {drafts : List FieldDraft} (h : decl.drafts = .ok drafts)
    (a : Arena) : a.addType decl = (.ok a.nextType, a.withType decl drafts) := by
  rw [addType, enterType, h]
  show (Except.ok (StateT.run (enterDrafts decl drafts) a).1,
    (StateT.run (enterDrafts decl drafts) a).2) = _
  rw [run_enterDrafts]

/-- Operators are looked up first, so an unknown one leaves the tables as they were. -/
theorem addType_of_error {decl : TypeDecl} {e : BuildError} (h : decl.drafts = .error e)
    (a : Arena) : a.addType decl = (.error e, a) := by
  rw [addType, enterType, h]
  rfl

/-- A call adds a profile, enters a type, or fails and changes nothing. -/
theorem perform_cases (a : Arena) (call : BuildCall) :
    (∃ profile, call.addition = .inr profile ∧ a.perform call = (.ok none, a.addProfile profile)) ∨
    (∃ decl drafts, call.addition = .inl decl ∧ decl.drafts = .ok drafts ∧
      a.perform call = (.ok (some a.nextType), a.withType decl drafts)) ∨
    (∃ decl e, call.addition = .inl decl ∧ decl.drafts = .error e ∧
      a.perform call = (.error e, a)) := by
  rw [perform]
  cases call.addition with
  | inr profile => exact .inl ⟨profile, rfl, rfl⟩
  | inl decl =>
    cases hdrafts : decl.drafts with
    | ok drafts =>
      refine .inr (.inl ⟨decl, drafts, rfl, hdrafts, ?_⟩)
      simp only [addType_of_ok hdrafts]
      rfl
    | error e =>
      refine .inr (.inr ⟨decl, e, rfl, hdrafts, ?_⟩)
      simp only [addType_of_error hdrafts]
      rfl

theorem perform_of_error {a : Arena} {call : BuildCall} {e : BuildError}
    (h : (a.perform call).1 = .error e) : (a.perform call).2 = a := by
  obtain ⟨profile, -, hcall⟩ | ⟨decl, drafts, -, -, hcall⟩ | ⟨decl, e, -, -, hcall⟩ :=
    perform_cases a call
  · rw [hcall] at h
    cases h
  · rw [hcall] at h
    cases h
  · rw [hcall]

/-! ### Room for numbers -/

/-- Every place has a number of its own. -/
structure Fits (a : Arena) : Prop where
  types : a.types.length ≤ UInt32.size
  fields : a.fields.length ≤ UInt32.size

@[simp] theorem length_slots (owner : TypeId) (first : Nat) (drafts : List FieldDraft) :
    (slots owner first drafts).length = drafts.length := by
  simp [slots]

@[simp] theorem length_types_withType (a : Arena) (decl : TypeDecl) (drafts : List FieldDraft) :
    (a.withType decl drafts).types.length = a.types.length + 1 := by
  simp [withType]

@[simp] theorem length_fields_withType (a : Arena) (decl : TypeDecl) (drafts : List FieldDraft) :
    (a.withType decl drafts).fields.length = a.fields.length + drafts.length := by
  simp [withType]

theorem Fits.of_perform {a : Arena} {call : BuildCall} (h : (a.perform call).2.Fits) : a.Fits := by
  obtain ⟨profile, -, hcall⟩ | ⟨decl, drafts, -, -, hcall⟩ | ⟨decl, e, -, -, hcall⟩ :=
    perform_cases a call
  · rw [hcall] at h
    exact ⟨h.types, h.fields⟩
  · rw [hcall] at h
    have htypes := h.types
    have hfields := h.fields
    rw [length_types_withType] at htypes
    rw [length_fields_withType] at hfields
    exact ⟨by omega, by omega⟩
  · rwa [hcall] at h

theorem run_cons (a : Arena) (call : BuildCall) (calls : List BuildCall) :
    a.run (call :: calls) = ((a.perform call).1 :: ((a.perform call).2.run calls).1,
      ((a.perform call).2.run calls).2) := rfl

/-- Tables only grow, so if numbers fit at the end they fit all along. -/
theorem Fits.of_run {a : Arena} {calls : List BuildCall} (h : (a.run calls).2.Fits) : a.Fits := by
  induction calls generalizing a with
  | nil => exact h
  | cons call calls ih => exact (ih h).of_perform

theorem storedNumber_of_lt {place : Nat} (h : place < UInt32.size) : storedNumber place = place :=
  Nat.mod_eq_of_lt h

/-- If numbers fit, the entries of fields hold the fields as they are defined. -/
theorem slots_eq {owner : TypeId} {first : Nat} {drafts : List FieldDraft}
    (h : first + drafts.length ≤ UInt32.size) :
    slots owner first drafts = (defineFields owner first drafts).map (⟨·, none⟩) := by
  rw [slots, defineFields, List.map_map]
  refine List.map_congr_left ?_
  rintro ⟨d, n⟩ hmem
  have hn : n < first + drafts.length := List.snd_lt_add_of_mem_zipIdx hmem
  simp only [Function.comp_apply, storedNumber_of_lt (Nat.lt_of_lt_of_le hn h)]

end Arena

/-! ### Representation -/

/-- The entry of a type whose key is not known. -/
def TypeDef.slot (t : TypeDef) : TypeSlot where
  id := t.id
  name := t.name
  kind := t.kind
  fields := t.fields.map (·.id)
  keyName := t.keyName
  keyField := none
  values := t.values
  permissions := t.permissions
  isBuiltin := t.isBuiltin
  location := t.location

namespace Schema

/-- The tables that represent a schema. -/
def arena (s : Schema) : Arena where
  types := s.types.map (·.slot)
  fields := s.fields.map (⟨·, none⟩)
  typeNames := s.types.foldl (fun index t => index.orInsert t.name t.id) .empty
  profiles := s.profiles

theorem arena_initial : initial.arena = Arena.new := rfl

theorem modify_append_length (xs : List α) (x : α) (f : α → α) :
    (xs ++ [x]).modify xs.length f = xs ++ [f x] := by
  induction xs with
  | nil => rfl
  | cons y ys ih => exact congrArg (y :: ·) ih

theorem arena_append (s : Schema) (t : TypeDef) : arena { s with types := s.types ++ [t] } =
    { types := s.arena.types ++ [t.slot]
      fields := s.arena.fields ++ t.fields.map (⟨·, none⟩)
      typeNames := s.arena.typeNames.orInsert t.name t.id
      profiles := s.profiles } := by
  simp [arena, fields]

theorem nextType_arena {s : Schema} (h : s.arena.types.length < UInt32.size) :
    s.arena.nextType = s.nextType := by
  rw [Arena.nextType, Arena.storedNumber_of_lt h, arena, List.length_map]
  rfl

/-- Entering a type takes the tables of a schema to those of the schema with that type. -/
theorem withType_arena {s : Schema} {decl : TypeDecl} {drafts : List FieldDraft}
    (htypes : s.arena.types.length < UInt32.size)
    (hfields : s.arena.fields.length + drafts.length ≤ UInt32.size) :
    s.arena.withType decl drafts =
      arena { s with types := s.types ++ [decl.define s.nextType s.nextField drafts] } := by
  have hindex : s.nextType.index = s.arena.types.length := (List.length_map _).symm
  have hfirst : s.arena.fields.length = s.nextField := List.length_map _
  rw [Arena.withType, Arena.slots_eq hfields, nextType_arena htypes, arena_append]
  simp only [hindex, modify_append_length, List.map_map, hfirst]
  rfl

theorem perform_of_profile {s : Schema} {call : BuildCall} {profile : Profile}
    (h : call.addition = .inr profile) : s.perform call = (.ok none, s.addProfile profile) := by
  rw [perform, h]

theorem perform_of_ok {s : Schema} {call : BuildCall} {decl : TypeDecl} {drafts : List FieldDraft}
    (h : call.addition = .inl decl) (hdrafts : decl.drafts = .ok drafts) :
    s.perform call = (.ok (some s.nextType),
      { s with types := s.types ++ [decl.define s.nextType s.nextField drafts] }) := by
  simp only [perform, h, addType_eq_ok.2 ⟨drafts, hdrafts, rfl⟩]

theorem perform_of_drafts_error {s : Schema} {call : BuildCall} {decl : TypeDecl} {e : BuildError}
    (h : call.addition = .inl decl) (hdrafts : decl.drafts = .error e) :
    s.perform call = (.error e, s) := by
  have hadd : s.addType decl = .error e := by
    rw [addType, hdrafts]
    rfl
  simp only [perform, h, hadd]

/-- A call on the tables of a schema gives the tables of the schema after the same call. -/
theorem perform_arena {s : Schema} {call : BuildCall} (hfits : (s.arena.perform call).2.Fits) :
    s.arena.perform call = ((s.perform call).1, (s.perform call).2.arena) := by
  obtain ⟨profile, hcall, hperform⟩ | ⟨decl, drafts, hcall, hdrafts, hperform⟩ |
    ⟨decl, e, hcall, hdrafts, hperform⟩ := s.arena.perform_cases call
  · rw [hperform, perform_of_profile hcall]
    rfl
  · rw [hperform] at hfits
    have htypes := hfits.types
    have hfields := hfits.fields
    rw [Arena.length_types_withType] at htypes
    rw [Arena.length_fields_withType] at hfields
    rw [hperform, perform_of_ok hcall hdrafts, withType_arena htypes hfields, nextType_arena htypes]
  · rw [hperform, perform_of_drafts_error hcall hdrafts]

theorem Built.perform {s : Schema} (h : s.Built) (call : BuildCall) : (s.perform call).2.Built := by
  cases hcall : call.addition with
  | inr profile =>
    rw [perform_of_profile hcall]
    exact h.addProfile profile
  | inl decl =>
    cases hdrafts : decl.drafts with
    | ok drafts =>
      rw [perform_of_ok hcall hdrafts]
      exact h.addType (addType_eq_ok.2 ⟨drafts, hdrafts, rfl⟩)
    | error e =>
      rw [perform_of_drafts_error hcall hdrafts]
      exact h

theorem Built.run {s : Schema} (h : s.Built) (calls : List BuildCall) : (s.run calls).2.Built := by
  induction calls generalizing s with
  | nil => exact h
  | cons call calls ih => exact ih (h.perform call)

/-- Calls in a row on the tables of a schema give the tables of the schema after the same calls. -/
theorem run_arena {s : Schema} {calls : List BuildCall} (hfits : (s.arena.run calls).2.Fits) :
    s.arena.run calls = ((s.run calls).1, (s.run calls).2.arena) := by
  induction calls generalizing s with
  | nil => rfl
  | cons call calls ih =>
    rw [Arena.run_cons] at hfits ⊢
    have hstep := perform_arena (Arena.Fits.of_run hfits)
    rw [hstep] at hfits ⊢
    rw [ih hfits]
    rfl

end Schema

/-! ### First places -/

/-- The first place in a list whose member satisfies `p`. -/
def FirstAt (p : α → Prop) (xs : List α) (i : Nat) : Prop :=
  (∃ x, xs[i]? = some x ∧ p x) ∧ ∀ k < i, ∀ x, xs[k]? = some x → ¬p x

theorem find?_eq_some_iff_firstAt {p : α → Bool} {xs : List α} {x : α} :
    xs.find? p = some x ↔ ∃ i, xs[i]? = some x ∧ FirstAt (p · = true) xs i := by
  rw [List.find?_eq_some_iff_getElem]
  constructor
  · rintro ⟨hp, i, hi, hx, hbefore⟩
    have hget : xs[i]? = some x := List.getElem?_eq_some_iff.2 ⟨hi, hx⟩
    refine ⟨i, hget, ⟨x, hget, hp⟩, fun k hk y hy => ?_⟩
    obtain ⟨-, rfl⟩ := List.getElem?_eq_some_iff.1 hy
    simpa using hbefore k hk
  · rintro ⟨i, hx, ⟨y, hy, hp⟩, hbefore⟩
    obtain rfl : x = y := Option.some.inj (hx.symm.trans hy)
    obtain ⟨hi, rfl⟩ := List.getElem?_eq_some_iff.1 hx
    refine ⟨hp, i, hi, rfl, fun k hk => ?_⟩
    simpa using hbefore k hk _ (List.getElem?_eq_getElem (Nat.lt_trans hk hi))

theorem firstAt_map {p : β → Prop} {f : α → β} {xs : List α} {i : Nat} :
    FirstAt p (xs.map f) i ↔ FirstAt (fun x => p (f x)) xs i := by
  simp [FirstAt]

/-! ### Tables in step -/

/-- The tables of types and fields, the fields that types list and the index of names are in
step. -/
structure Arena.InStep (a : Arena) : Prop where
  /-- The number of a type is its place. -/
  type_id : ∀ (i : Nat) (t : TypeSlot), a.types[i]? = some t → t.id = ⟨i⟩
  /-- The number of a field is its place. -/
  field_id : ∀ (j : Nat) (f : FieldSlot), a.fields[j]? = some f → f.id = ⟨j⟩
  /-- Every number that a type lists is that of a field. -/
  listed : ∀ t ∈ a.types, (a.fieldsOf t).map (fun f => f.id) = t.fields
  /-- A field is listed once by the type that declares it, and by no other. -/
  listed_once : ∀ (i j : Nat) (t : TypeSlot) (f : FieldSlot), a.types[i]? = some t →
    a.fields[j]? = some f → t.fields.count ⟨j⟩ = if f.owner = ⟨i⟩ then 1 else 0
  /-- A field is declared by one of the types. -/
  owned : ∀ f ∈ a.fields, ∃ t, a.types[f.owner.index]? = some t
  /-- A type lists its fields in the order of their numbers. -/
  increasing : ∀ t ∈ a.types, (t.fields.map (·.index)).Pairwise (· < ·)
  /-- The system fields stand in front, and only entities have them. -/
  system : ∀ t ∈ a.types, ∃ front declared, a.fieldsOf t = front ++ declared ∧
    front.map (fun f => f.name) = (if t.kind = .rootEntity ∨ t.kind = .childEntity then
      ["id", "createdAt", "updatedAt"] else []) ∧
    (∀ f ∈ front, f.isSystem = true) ∧ ∀ f ∈ declared, f.isSystem = false
  /-- A name has the number of the first type that carries it. -/
  name : ∀ (name : String) (i : Nat),
    a.typeNames.get? name = some ⟨i⟩ ↔ FirstAt (·.name = name) a.types i

namespace Schema

namespace Numbered

variable {s : Schema} {t : TypeDef} {f : FieldDef}

theorem type_id (h : s.Numbered) {i : Nat} (ht : s.types[i]? = some t) : t.id = ⟨i⟩ := by
  have hindex : t.id.index = 0 + i := h.types.number_of_getElem? ht
  rw [← Nat.zero_add i, ← hindex]

theorem field_id (h : s.Numbered) {j : Nat} (hf : s.fields[j]? = some f) : f.id = ⟨j⟩ := by
  have hindex : f.id.index = 0 + j := h.fields.number_of_getElem? hf
  rw [← Nat.zero_add j, ← hindex]

/-- The fields of a type are a stretch of the table of fields, which is in order. -/
theorem pairwise_fields (h : s.Numbered) (ht : t ∈ s.types) :
    (t.fields.map (·.id.index)).Pairwise (· < ·) := by
  have hsub : t.fields.Sublist s.fields := by
    rw [Schema.fields, List.flatMap_def]
    exact List.sublist_flatten_of_mem (List.mem_map_of_mem ht)
  have hall : (s.fields.map (·.id.index)).Pairwise (· < ·) := by
    rw [h.fields]
    exact List.pairwise_lt_range'
  exact hall.sublist (hsub.map _)

theorem mem_fields_iff_owner (h : s.Numbered) (ht : t ∈ s.types) (hf : f ∈ s.fields) :
    f ∈ t.fields ↔ f.owner = t.id :=
  ⟨h.owner t ht f, fun howner => h.mem_fields_of_owner ht hf howner.symm⟩

theorem count_fields (h : s.Numbered) (ht : t ∈ s.types) (hf : f ∈ s.fields) :
    (t.fields.map (·.id)).count f.id = if f.owner = t.id then 1 else 0 := by
  have hnodup : (t.fields.map (·.id)).Nodup := by
    refine List.Nodup.of_map FieldId.index ?_
    rw [List.map_map]
    exact (h.pairwise_fields ht).imp fun hlt => Nat.ne_of_lt hlt
  have hmem : f.id ∈ t.fields.map (·.id) ↔ f.owner = t.id := by
    rw [← h.mem_fields_iff_owner ht hf, List.mem_map]
    constructor
    · rintro ⟨g, hg, hid⟩
      rwa [← h.field_eq_of_id (mem_fields ht hg) hf hid]
    · exact fun hf' => ⟨f, hf', rfl⟩
  rw [hnodup.count]
  exact if_congr hmem rfl rfl

/-- A look-up by name finds a number exactly if the type at that place is the first with the
name. -/
theorem map_id_type?_eq_some_iff (h : s.Numbered) {name : String} {i : Nat} :
    (s.type? name).map (·.id) = some ⟨i⟩ ↔ FirstAt (·.name = name) s.types i := by
  rw [Option.map_eq_some_iff]
  constructor
  · rintro ⟨t, ht, hid⟩
    obtain ⟨k, hk, hfirst⟩ := find?_eq_some_iff_firstAt.1 ht
    obtain rfl : k = i := congrArg TypeId.index ((h.type_id hk).symm.trans hid)
    simpa using hfirst
  · intro hfirst
    obtain ⟨⟨t, ht, -⟩, -⟩ := id hfirst
    refine ⟨t, find?_eq_some_iff_firstAt.2 ⟨i, ht, ?_⟩, h.type_id ht⟩
    simpa using hfirst

end Numbered

variable {s : Schema} {t : TypeDef}

theorem Numbered.fieldAt?_arena (h : s.Numbered) {f : FieldDef} (hf : f ∈ s.fields) :
    s.arena.fieldAt? f.id = some ⟨f, none⟩ := by
  rw [Arena.fieldAt?, arena, List.getElem?_map]
  exact congrArg (Option.map _) (h.fieldAt?_id hf)

/-- The fields that the entry of a type lists are those of the type. -/
theorem Numbered.fieldsOf_arena (h : s.Numbered) (ht : t ∈ s.types) :
    s.arena.fieldsOf t.slot = t.fields.map (⟨·, none⟩) := by
  rw [Arena.fieldsOf, TypeDef.slot, List.filterMap_map, ← List.filterMap_eq_map]
  exact List.filterMap_congr fun f hf => h.fieldAt?_arena (mem_fields ht hf)

theorem typeNames_arena (s : Schema) (name : String) :
    s.arena.typeNames.get? name = (s.type? name).map (·.id) :=
  NameIndex.get?_foldl_orInsert (fun t : TypeDef => t.name) (·.id) s.types .empty name

/-- The tables of every schema that can be built are in step. -/
theorem Built.inStep_arena (h : s.Built) : s.arena.InStep where
  type_id i t ht := by
    rw [arena, List.getElem?_map] at ht
    obtain ⟨u, hu, rfl⟩ := Option.map_eq_some_iff.1 ht
    exact h.numbered.type_id hu
  field_id j f hf := by
    rw [arena, List.getElem?_map] at hf
    obtain ⟨g, hg, rfl⟩ := Option.map_eq_some_iff.1 hf
    exact h.numbered.field_id hg
  listed t ht := by
    obtain ⟨u, hu, rfl⟩ := List.mem_map.1 ht
    rw [h.numbered.fieldsOf_arena hu, List.map_map]
    rfl
  listed_once i j t f ht hf := by
    rw [arena, List.getElem?_map] at ht hf
    obtain ⟨u, hu, rfl⟩ := Option.map_eq_some_iff.1 ht
    obtain ⟨g, hg, rfl⟩ := Option.map_eq_some_iff.1 hf
    rw [← h.numbered.type_id hu, ← h.numbered.field_id hg]
    exact h.numbered.count_fields (List.mem_of_getElem? hu) (List.mem_of_getElem? hg)
  owned f hf := by
    obtain ⟨g, hg, rfl⟩ := List.mem_map.1 hf
    obtain ⟨t, ht, hgt⟩ := exists_type_of_mem_fields hg
    have hfound : s.typeAt? g.owner = some t := by
      rw [h.numbered.owner t ht g hgt, h.numbered.typeAt?_id ht]
    refine ⟨t.slot, ?_⟩
    rw [arena, List.getElem?_map]
    exact congrArg (Option.map _) hfound
  increasing t ht := by
    obtain ⟨u, hu, rfl⟩ := List.mem_map.1 ht
    rw [TypeDef.slot, List.map_map]
    exact h.numbered.pairwise_fields hu
  system t ht := by
    obtain ⟨u, hu, rfl⟩ := List.mem_map.1 ht
    obtain ⟨front, declared, hfields, hnames, hsystem, hdeclared⟩ := h.fields_eq hu
    refine ⟨front.map (FieldSlot.mk · none), declared.map (FieldSlot.mk · none), ?_, ?_, ?_, ?_⟩
    · rw [h.numbered.fieldsOf_arena hu, hfields, List.map_append]
    · rw [List.map_map]
      refine hnames.trans ?_
      rw [TypeDef.slot]
      cases u.kind <;> rfl
    · exact List.forall_mem_map.2 hsystem
    · exact List.forall_mem_map.2 hdeclared
  name name i := by
    rw [typeNames_arena, h.numbered.map_id_type?_eq_some_iff, arena, firstAt_map]
    rfl

end Schema

/-! ### Complete tables -/

/-- The tables are in step, and everything is filled in. -/
structure Model.Complete (m : Model) : Prop where
  inStep : m.InStep
  /-- The type of a field is looked up by the name that the field gives. -/
  resolved : ∀ f ∈ m.fields, f.resolved = m.typeNames.get? f.typeName
  /-- So it is the first of all types with that name. -/
  resolved_first : ∀ f ∈ m.fields, ∀ i : Nat,
    f.resolved = some ⟨i⟩ ↔ FirstAt (·.name = f.typeName) m.types i
  /-- The key of a type is the first of the fields that it lists with the declared name. -/
  key : ∀ t ∈ m.types, ∀ id : FieldId, t.keyField = some id ↔
    ∃ key, t.keyName = some key ∧ ∃ k : Nat, t.fields[k]? = some id ∧
      FirstAt (fun id => ∃ f, m.fieldAt? id = some f ∧ f.name = key) t.fields k

namespace Arena

variable {a : Arena} {t : TypeSlot}

theorem fieldAt?_build (a : Arena) (id : FieldId) :
    a.build.fieldAt? id = (a.fieldAt? id).map a.resolve := List.getElem?_map

theorem fieldsOf_build (a : Arena) (t : TypeSlot) :
    a.build.fieldsOf (a.findKey t) = (a.fieldsOf t).map a.resolve := by
  rw [fieldsOf, fieldsOf, List.map_filterMap]
  exact List.filterMap_congr fun id _ => a.fieldAt?_build id

/-- Filling in numbers keeps the tables in step. -/
theorem InStep.build (h : a.InStep) : a.build.InStep where
  type_id i t ht := by
    rw [Arena.build, List.getElem?_map] at ht
    obtain ⟨u, hu, rfl⟩ := Option.map_eq_some_iff.1 ht
    exact h.type_id i u hu
  field_id j f hf := by
    rw [Arena.build, List.getElem?_map] at hf
    obtain ⟨g, hg, rfl⟩ := Option.map_eq_some_iff.1 hf
    exact h.field_id j g hg
  listed t ht := by
    obtain ⟨u, hu, rfl⟩ := List.mem_map.1 ht
    rw [fieldsOf_build, List.map_map]
    exact h.listed u hu
  listed_once i j t f ht hf := by
    rw [Arena.build, List.getElem?_map] at ht hf
    obtain ⟨u, hu, rfl⟩ := Option.map_eq_some_iff.1 ht
    obtain ⟨g, hg, rfl⟩ := Option.map_eq_some_iff.1 hf
    exact h.listed_once i j u g hu hg
  owned f hf := by
    obtain ⟨g, hg, rfl⟩ := List.mem_map.1 hf
    obtain ⟨t, ht⟩ := h.owned g hg
    refine ⟨a.findKey t, ?_⟩
    rw [Arena.build, List.getElem?_map]
    exact congrArg (Option.map _) ht
  increasing t ht := by
    obtain ⟨u, hu, rfl⟩ := List.mem_map.1 ht
    exact h.increasing u hu
  system t ht := by
    obtain ⟨u, hu, rfl⟩ := List.mem_map.1 ht
    obtain ⟨front, declared, hfields, hnames, hsystem, hdeclared⟩ := h.system u hu
    refine ⟨front.map a.resolve, declared.map a.resolve, ?_, ?_, ?_, ?_⟩
    · rw [fieldsOf_build, hfields, List.map_append]
    · rw [List.map_map]
      exact hnames
    · exact List.forall_mem_map.2 hsystem
    · exact List.forall_mem_map.2 hdeclared
  name name i := by
    rw [Arena.build, firstAt_map]
    exact h.name name i

theorem InStep.complete (h : a.InStep) : a.build.Complete where
  inStep := h.build
  resolved f hf := by
    obtain ⟨g, -, rfl⟩ := List.mem_map.1 hf
    rfl
  resolved_first f hf i := by
    obtain ⟨g, -, rfl⟩ := List.mem_map.1 hf
    exact h.build.name g.typeName i
  key t ht id := by
    obtain ⟨u, -, rfl⟩ := List.mem_map.1 ht
    have hnamed : ∀ (key : String) (id : FieldId), (a.fieldAt? id).any (·.name == key) = true ↔
        ∃ f, a.build.fieldAt? id = some f ∧ f.name = key := by
      intro key id
      rw [fieldAt?_build]
      cases a.fieldAt? id with
      | none => simp
      | some f => simp [resolve]
    rw [findKey, Option.bind_eq_some_iff]
    simp only [find?_eq_some_iff_firstAt, hnamed]

end Arena

/-- The tables hold the schema, and what is filled in in them is what the schema finds. -/
structure Model.Stores (m : Model) (s : Schema) : Prop where
  schema : m.schema = s
  typeNames : ∀ name, m.typeNames.get? name = (s.type? name).map (·.id)
  resolved : ∀ f ∈ m.fields, f.resolved = s.targetId? f.toFieldDef
  key : m.types.map (·.keyField) = s.types.map fun t => t.keyField?.map (·.id)
  profile : ∀ name, m.profile? name = s.profile? name

namespace Schema

variable {s : Schema} {t : TypeDef}

/-- In a list with its places, the first member with a property stands at its place. -/
theorem find?_zipIdx (p : α → Bool) (xs : List α) :
    ((xs.zipIdx.find? (p ·.1)).map (·.2)).bind (xs[·]?) = xs.find? p := by
  have hfirst : xs.find? p = (xs.zipIdx.find? (p ·.1)).map (·.1) := by
    conv_lhs => rw [← List.zipIdx_map_fst 0 xs]
    exact List.find?_map
  cases hfound : xs.zipIdx.find? (p ·.1) with
  | none => rw [hfirst, hfound]; rfl
  | some pair =>
    obtain ⟨x, i⟩ := pair
    have hplace : xs[i]? = some x :=
      List.mem_zipIdx_iff_getElem?.1 (List.mem_of_find?_eq_some hfound)
    rw [hfirst, hfound]
    exact hplace

theorem Numbered.keyField_findKey (h : s.Numbered) (ht : t ∈ s.types) :
    (s.arena.findKey t.slot).keyField = t.keyField?.map (·.id) := by
  have hnamed : ∀ (key : String), ∀ f ∈ t.fields,
      (s.arena.fieldAt? f.id).any (·.name == key) = (f.name == key) := by
    intro key f hf
    rw [h.fieldAt?_arena (mem_fields ht hf)]
    rfl
  rw [TypeDef.keyField?, Option.map_bind]
  show t.keyName.bind _ = t.keyName.bind _
  congr 1
  funext key
  show (t.fields.map (·.id)).find? _ = (t.field? key).map (·.id)
  rw [List.find?_map, TypeDef.field?]
  congr 1
  exact List.find?_congr (hnamed key)

/-- Complete tables of a schema hold the schema. -/
theorem Numbered.stores_arena (h : s.Numbered) : s.arena.build.Stores s where
  schema := by
    have htypes : s.arena.build.schema.types = s.types := by
      show ((s.types.map (·.slot)).map s.arena.findKey).map _ = s.types
      rw [List.map_map, List.map_map]
      refine (List.map_congr_left fun t ht => ?_).trans (List.map_id _)
      have hfields : (s.arena.build.fieldsOf (s.arena.findKey t.slot)).map (·.toFieldDef) =
          t.fields := by
        rw [Arena.fieldsOf_build, h.fieldsOf_arena ht, List.map_map, List.map_map]
        exact List.map_id _
      simp only [Function.comp_apply, hfields]
      rfl
    exact congrArg (Schema.mk · s.profiles) htypes
  typeNames := s.typeNames_arena
  resolved f hf := by
    obtain ⟨g, -, rfl⟩ := List.mem_map.1 hf
    exact s.typeNames_arena g.typeName
  key := by
    show ((s.types.map (·.slot)).map s.arena.findKey).map _ = _
    rw [List.map_map, List.map_map]
    exact List.map_congr_left fun t ht => h.keyField_findKey ht
  profile name := by
    have hindex : s.arena.build.profileNames.get? name =
        (s.profiles.zipIdx.find? (·.1.name == name)).map (·.2) :=
      NameIndex.get?_foldl_orInsert (fun pair : Profile × Nat => pair.1.name) (·.2) _ .empty name
    rw [Model.profile?, hindex]
    exact find?_zipIdx (·.name == name) s.profiles

end Schema

/-- **The tables stay in step.** As long as numbers fit, the tables are in step after every row of
calls, whether they fail or not, and everything is filled in when they are complete. A call that
fails leaves them as they were. -/
theorem calls_keep_arena (calls : List BuildCall) (hfits : (Arena.new.run calls).2.Fits) :
    (Arena.new.run calls).2.InStep ∧ (Arena.new.run calls).2.build.Complete ∧
      ∀ (call : BuildCall) (e : BuildError),
        ((Arena.new.run calls).2.perform call).1 = .error e →
        ((Arena.new.run calls).2.perform call).2 = (Arena.new.run calls).2 := by
  rw [← Schema.arena_initial] at hfits ⊢
  have hinStep : (Schema.initial.arena.run calls).2.InStep := by
    rw [Schema.run_arena hfits]
    exact (Schema.Built.initial.run calls).inStep_arena
  exact ⟨hinStep, hinStep.complete, fun _ _ => Arena.perform_of_error⟩

/-- Calls that declare a type twice, refer to a type before it is there, and fail once. -/
def libraryCalls : List BuildCall :=
  [.declare "Book" .rootEntity [.field (.named "title" "String"),
      .field ((FieldDecl.named "author" "Person").asReference), .key "title"],
    .declare "Loan" .childEntity [.field ((FieldDecl.named "days" "Int").withCalc "POWER")],
    .addProfile (.named defaultProfileName),
    .addType (.ofParts "Person" .rootEntity [.field (.named "name" "String"), .key "name"]),
    .declare "Book" .valueObject [.field (.named "pages" "Int")]]

/-- After the calls of the library, the author of a book is the type with number eight, its key is
the field with number three, the name `Book` means the first of its two types, and one more call
that fails changes nothing. -/
theorem library_calls_keep_arena : ∃ a, (Arena.new.run libraryCalls).2 = a ∧
    a.InStep ∧ a.build.Complete ∧ a.types.length = 10 ∧ a.fields.length = 10 ∧
    (a.build.fieldAt? ⟨4⟩).bind (·.resolved) = some ⟨8⟩ ∧
    (a.build.types[7]?).bind (·.keyField) = some ⟨3⟩ ∧ a.typeNames.get? "Book" = some ⟨7⟩ ∧
    ∃ call e, (a.perform call).1 = .error e ∧ (a.perform call).2 = a := by
  have hfits : (Arena.new.run libraryCalls).2.Fits := ⟨by decide, by decide⟩
  obtain ⟨hinStep, hcomplete, hfail⟩ := calls_keep_arena libraryCalls hfits
  refine ⟨_, rfl, hinStep, hcomplete, rfl, rfl, rfl, rfl, rfl, ?_⟩
  have herror : ∃ e, ((Arena.new.run libraryCalls).2.perform
      (.declare "Loan" .childEntity [.field ((FieldDecl.named "days" "Int").withCalc "POWER")])).1
        = .error e := ⟨_, rfl⟩
  obtain ⟨e, he⟩ := herror
  exact ⟨_, e, he, hfail _ e he⟩

/-- **The tables hold the schema.** As long as numbers fit, calls get the same answers from tables
and from schemas, and the complete tables hold the schema that the calls build. -/
theorem calls_store_schema (calls : List BuildCall) (hfits : (Arena.new.run calls).2.Fits) :
    (Arena.new.run calls).1 = (Schema.initial.run calls).1 ∧
      (Arena.new.run calls).2.build.Stores (Schema.initial.run calls).2 := by
  rw [← Schema.arena_initial] at hfits ⊢
  rw [Schema.run_arena hfits]
  exact ⟨rfl, (Schema.Built.initial.run calls).numbered.stores_arena⟩

end EntityGraph
