import EntityGraph.Proofs.Outcome
import EntityGraph.Schema.Build

/-!
# Numbers of types and fields

Numbers are handed out in order and never reused, so they are the places in the lists of types and
fields, and looking a number up gives back what carries it. This holds for every schema that can be
built, accepted or not.

The same induction tells where types come from. A type is one of the built-in scalars, which have
no fields, or it was defined from a declaration. In the second case its system fields are plain
single values of built-in scalars, and everything else about a field is as it was declared.

## Main definitions

* `Schema.Built` — the schemas that grow from the one that declares nothing
* `NumberedFrom` — the numbers of a list are consecutive
* `Schema.Numbered` — numbers are places, and fields know their types

## Main results

* `Schema.Built.numbered` — every schema that can be built is numbered
* `Schema.Numbered.typeAt?_id`, `Schema.Numbered.fieldAt?_id` — look-up by number
* `Schema.Built.target?_system` — the types of system fields
-/

namespace EntityGraph

/-- Schemas that grow from the one that declares nothing, one type or profile at a time. -/
inductive Schema.Built : Schema → Prop
  | initial : Built .initial
  | addProfile {s : Schema} (profile : Profile) : Built s → Built (s.addProfile profile)
  | addType {s s' : Schema} {decl : TypeDecl} : Built s → s.addType decl = .ok s' → Built s'

/-! ### Consecutive numbers -/

/-- The numbers of a list are consecutive and start at `n`. -/
def NumberedFrom {α : Type} (number : α → Nat) (n : Nat) (xs : List α) : Prop :=
  xs.map number = List.range' n xs.length

namespace NumberedFrom

variable {α : Type} {number : α → Nat} {n : Nat} {xs ys : List α}

theorem append (hx : NumberedFrom number n xs) (hy : NumberedFrom number (n + xs.length) ys) :
    NumberedFrom number n (xs ++ ys) := by
  rw [NumberedFrom] at hx hy ⊢
  rw [List.map_append, hx, hy, List.length_append, List.range'_append_1]

theorem singleton (x : α) (h : number x = n) : NumberedFrom number n [x] := by
  simp [NumberedFrom, h]

theorem number_of_getElem? (h : NumberedFrom number n xs) {i : Nat} {x : α} (hx : xs[i]? = some x) :
    number x = n + i := by
  have hi : i < xs.length := (List.getElem?_eq_some_iff.1 hx).1
  have hmap : (xs.map number)[i]? = some (number x) := by rw [List.getElem?_map, hx]; rfl
  rw [h, List.getElem?_range' hi] at hmap
  simpa using (Option.some.inj hmap).symm

/-- In a list that is numbered from zero, the number of a member is its place. -/
theorem getElem?_number (h : NumberedFrom number 0 xs) {x : α} (hx : x ∈ xs) :
    xs[number x]? = some x := by
  obtain ⟨i, hi⟩ := List.mem_iff_getElem?.1 hx
  rw [h.number_of_getElem? hi, Nat.zero_add, hi]

end NumberedFrom

theorem numberedFrom_defineFields (owner : TypeId) (first : Nat) (drafts : List FieldDraft) :
    NumberedFrom (fun f : FieldDef => f.id.index) first (defineFields owner first drafts) := by
  rw [NumberedFrom, length_defineFields, defineFields, List.map_map]
  -- The number of a field is the second component of the pair that it is defined from.
  exact List.zipIdx_map_snd first drafts

theorem mem_defineFields {owner : TypeId} {first : Nat} {drafts : List FieldDraft} {f : FieldDef}
    (h : f ∈ defineFields owner first drafts) : ∃ d ∈ drafts, f = d.define owner f.id := by
  obtain ⟨⟨d, n⟩, hmem, rfl⟩ := List.mem_map.1 h
  exact ⟨d, List.fst_mem_of_mem_zipIdx hmem, rfl⟩

/-! ### Steps -/

namespace Schema

/-- A type is added by defining it at the end of the list. -/
theorem addType_eq_ok {s s' : Schema} {decl : TypeDecl} :
    s.addType decl = .ok s' ↔ ∃ drafts, decl.drafts = .ok drafts ∧
      s' = { s with types := s.types ++ [decl.define s.nextType s.nextField drafts] } := by
  rw [addType, bind_eq_ok]
  simp only [pure, Except.pure, Except.ok.injEq]
  constructor
  · rintro ⟨drafts, h, rfl⟩
    exact ⟨drafts, h, rfl⟩
  · rintro ⟨drafts, h, rfl⟩
    exact ⟨drafts, h, rfl⟩

theorem built_of_ofDecl {decl : SchemaDecl} {s : Schema} (h : ofDecl decl = .ok s) : s.Built := by
  have hprofiles : ∀ (profiles : List Profile) (s : Schema), s.Built →
      (profiles.foldl Schema.addProfile s).Built := by
    intro profiles
    induction profiles with
    | nil => exact fun s hs => hs
    | cons p ps ih => exact fun s hs => ih _ (hs.addProfile p)
  have htypes : ∀ (types : List TypeDecl) (s s' : Schema), s.Built →
      types.foldlM Schema.addType s = .ok s' → s'.Built := by
    intro types
    induction types with
    | nil =>
      intro s s' hs h
      obtain rfl : s = s' := by simpa [pure, Except.pure] using h
      exact hs
    | cons t ts ih =>
      intro s s' hs h
      rw [List.foldlM_cons] at h
      obtain ⟨mid, hmid, h⟩ := bind_eq_ok.1 h
      exact ih mid s' (hs.addType hmid) h
  exact htypes decl.types _ s (hprofiles decl.profiles _ .initial) h

/-! ### Numbers are places -/

/-- Types and fields are numbered by their places, and fields know the types that declare them. -/
structure Numbered (s : Schema) : Prop where
  types : NumberedFrom (fun t : TypeDef => t.id.index) 0 s.types
  fields : NumberedFrom (fun f : FieldDef => f.id.index) 0 s.fields
  owner : ∀ t ∈ s.types, ∀ f ∈ t.fields, f.owner = t.id

theorem numbered_initial : initial.Numbered where
  types := rfl
  fields := rfl
  owner := by simp [initial, builtinScalars, builtin]

theorem Numbered.addProfile {s : Schema} (h : s.Numbered) (profile : Profile) :
    (s.addProfile profile).Numbered := ⟨h.types, h.fields, h.owner⟩

theorem Numbered.addType {s s' : Schema} {decl : TypeDecl} (h : s.Numbered)
    (hadd : s.addType decl = .ok s') : s'.Numbered := by
  obtain ⟨drafts, -, rfl⟩ := addType_eq_ok.1 hadd
  refine ⟨?_, ?_, ?_⟩
  · exact h.types.append (.singleton _ (by simp [TypeDecl.define, nextType]))
  · have hnew := numberedFrom_defineFields s.nextType s.nextField drafts
    rw [Schema.fields, List.flatMap_append, List.flatMap_singleton]
    refine h.fields.append ?_
    rwa [Nat.zero_add]
  · intro t ht f hf
    rcases List.mem_append.1 ht with ht | ht
    · exact h.owner t ht f hf
    · obtain rfl := List.mem_singleton.1 ht
      obtain ⟨d, -, hd⟩ := mem_defineFields hf
      rw [hd]
      rfl

/-- Every schema that can be built is numbered. -/
theorem Built.numbered {s : Schema} (h : s.Built) : s.Numbered := by
  induction h with
  | initial => exact numbered_initial
  | addProfile profile _ ih => exact ih.addProfile profile
  | addType _ hadd ih => exact ih.addType hadd

namespace Numbered

variable {s : Schema} {t u : TypeDef} {f g : FieldDef}

theorem typeAt?_id (h : s.Numbered) (ht : t ∈ s.types) : s.typeAt? t.id = some t :=
  h.types.getElem?_number ht

theorem fieldAt?_id (h : s.Numbered) (hf : f ∈ s.fields) : s.fieldAt? f.id = some f :=
  h.fields.getElem?_number hf

theorem type_eq_of_id (h : s.Numbered) (ht : t ∈ s.types) (hu : u ∈ s.types) (hid : t.id = u.id) :
    t = u := by
  have htu : some t = some u := by rw [← h.typeAt?_id ht, ← h.typeAt?_id hu, hid]
  exact Option.some.inj htu

theorem field_eq_of_id (h : s.Numbered) (hf : f ∈ s.fields) (hg : g ∈ s.fields)
    (hid : f.id = g.id) : f = g := by
  have hfg : some f = some g := by rw [← h.fieldAt?_id hf, ← h.fieldAt?_id hg, hid]
  exact Option.some.inj hfg

end Numbered

theorem mem_fields {s : Schema} {t : TypeDef} {f : FieldDef} (ht : t ∈ s.types)
    (hf : f ∈ t.fields) : f ∈ s.fields := List.mem_flatMap.2 ⟨t, ht, hf⟩

theorem exists_type_of_mem_fields {s : Schema} {f : FieldDef} (hf : f ∈ s.fields) :
    ∃ t ∈ s.types, f ∈ t.fields := List.mem_flatMap.1 hf

/-- A field is among the fields of the type whose number it carries. -/
theorem Numbered.mem_fields_of_owner {s : Schema} (h : s.Numbered) {t : TypeDef} {f : FieldDef}
    (ht : t ∈ s.types) (hf : f ∈ s.fields) (hid : t.id = f.owner) : f ∈ t.fields := by
  obtain ⟨u, hu, hfu⟩ := exists_type_of_mem_fields hf
  rwa [h.type_eq_of_id ht hu (hid.trans (h.owner u hu f hfu))]

end Schema

/-! ### Where types come from -/

/-- A type that was defined from a declaration. -/
def TypeDef.Drafted (t : TypeDef) : Prop :=
  ∃ decl drafts first, TypeDecl.drafts decl = .ok drafts ∧ t = decl.define t.id first drafts

/-- The drafts of a declaration are those of the system fields and of the declared fields. -/
theorem TypeDecl.mem_drafts {decl : TypeDecl} {drafts : List FieldDraft}
    (h : decl.drafts = .ok drafts) {d : FieldDraft} (hd : d ∈ drafts) :
    (d.isSystem = true ∧ decl.kind.isEntity = true ∧ d.operators = [] ∧
        d.decl ∈ systemFields decl.location) ∨
      (d.isSystem = false ∧ d.decl ∈ decl.fields ∧
        d.decl.operators decl.name = .ok d.operators) := by
  rw [TypeDecl.drafts] at h
  obtain ⟨declared, hdeclared, h⟩ := bind_eq_ok.1 h
  obtain rfl : _ = drafts := by simpa [pure, Except.pure] using h
  rcases List.mem_append.1 hd with hd | hd
  · obtain ⟨f, hf, rfl⟩ := List.mem_map.1 hd
    cases hentity : decl.kind.isEntity with
    | false => simp [hentity] at hf
    | true => exact .inl ⟨rfl, rfl, rfl, by simpa [hentity] using hf⟩
  · obtain ⟨f, hf, hfd⟩ := exists_of_mem_mapM hdeclared hd
    obtain ⟨operators, hoperators, hfd⟩ := bind_eq_ok.1 hfd
    obtain rfl : FieldDraft.mk f operators false = d := by simpa [pure, Except.pure] using hfd
    exact .inr ⟨rfl, hf, hoperators⟩

theorem defineFields_append (owner : TypeId) (first : Nat) (xs ys : List FieldDraft) :
    defineFields owner first (xs ++ ys) =
      defineFields owner first xs ++ defineFields owner (first + xs.length) ys := by
  simp [defineFields, List.zipIdx_append]

/-- The system fields of a declared type stand in front, and only entities have them. -/
theorem TypeDef.Drafted.fields_eq {t : TypeDef} (h : t.Drafted) :
    ∃ system declared, t.fields = system ++ declared ∧
      system.map (·.name) =
        (if t.kind.isEntity then [identityName, "createdAt", "updatedAt"] else []) ∧
      (∀ f ∈ system, f.isSystem = true) ∧ ∀ f ∈ declared, f.isSystem = false := by
  obtain ⟨decl, drafts, first, hdrafts, ht⟩ := h
  rw [TypeDecl.drafts] at hdrafts
  obtain ⟨declared, hdeclared, hdrafts⟩ := bind_eq_ok.1 hdrafts
  obtain rfl : _ = drafts := by simpa [pure, Except.pure] using hdrafts
  refine ⟨_, _, by rw [ht]; exact defineFields_append _ _ _ _, ?_, ?_, ?_⟩
  · rw [ht]
    show List.map _ (defineFields _ _ (List.map _ (if decl.kind.isEntity then _ else _))) =
      if decl.kind.isEntity then _ else _
    cases decl.kind.isEntity with
    | true => rfl
    | false => rfl
  · intro f hf
    obtain ⟨d, hd, hfd⟩ := mem_defineFields hf
    obtain ⟨decl', -, rfl⟩ := List.mem_map.1 hd
    rw [hfd]
    rfl
  · intro f hf
    obtain ⟨d, hd, hfd⟩ := mem_defineFields hf
    obtain ⟨decl', -, hd⟩ := exists_of_mem_mapM hdeclared hd
    obtain ⟨operators, -, hd⟩ := bind_eq_ok.1 hd
    rw [hfd, ← Except.ok.inj hd]
    rfl

/-- What the store maintains of an entity: one plain value of a built-in scalar. -/
structure FieldDef.Maintained (f : FieldDef) : Prop where
  single : f.isList = false
  noReference : f.isReference = false
  noRelation : f.isRelation = false
  noOperators : f.operators = []
  scalar : f.typeName = "ID" ∨ f.typeName = "DateTime"

theorem TypeDef.Drafted.maintained {t : TypeDef} (h : t.Drafted) {f : FieldDef}
    (hf : f ∈ t.fields) (hsystem : f.isSystem = true) : f.Maintained := by
  obtain ⟨decl, drafts, first, hdrafts, ht⟩ := h
  rw [ht] at hf
  obtain ⟨d, hd, hfd⟩ := mem_defineFields hf
  rw [hfd] at hsystem ⊢
  rcases TypeDecl.mem_drafts hdrafts hd with ⟨-, -, hoperators, hd⟩ | ⟨hno, -, -⟩
  · simp only [systemFields, List.mem_cons, List.not_mem_nil, or_false] at hd
    rcases hd with hd | hd | hd <;>
      constructor <;> simp [FieldDraft.define, hd, hoperators, FieldDecl.named, FieldDecl.located]
  · rw [FieldDraft.define, hno] at hsystem
    cases hsystem

namespace Schema.Built

variable {s : Schema} {t : TypeDef} {f : FieldDef}

/-- The built-in scalars stay in front. -/
theorem types_eq (h : s.Built) : ∃ declared, s.types = Schema.initial.types ++ declared := by
  induction h with
  | initial => exact ⟨[], by simp⟩
  | addProfile _ _ ih => exact ih
  | addType _ hadd ih =>
    obtain ⟨drafts, -, rfl⟩ := addType_eq_ok.1 hadd
    obtain ⟨declared, hdeclared⟩ := ih
    exact ⟨declared ++ [_], by rw [← List.append_assoc, ← hdeclared]⟩

theorem origin (h : s.Built) (ht : t ∈ s.types) : t ∈ Schema.initial.types ∨ t.Drafted := by
  induction h with
  | initial => exact .inl ht
  | addProfile _ _ ih => exact ih ht
  | addType _ hadd ih =>
    obtain ⟨drafts, hdrafts, rfl⟩ := addType_eq_ok.1 hadd
    rcases List.mem_append.1 ht with ht | ht
    · exact ih ht
    · rw [List.mem_singleton.1 ht]
      exact .inr ⟨_, drafts, _, hdrafts, rfl⟩

theorem eq_builtin_of_mem_initial (ht : t ∈ Schema.initial.types) :
    ∃ index name, t = builtin index name := by
  obtain ⟨index, hindex, rfl⟩ := List.mem_mapIdx.1 ht
  exact ⟨index, _, rfl⟩

/-- A type with fields is declared. -/
theorem not_isBuiltin (h : s.Built) (ht : t ∈ s.types) (hf : f ∈ t.fields) :
    t.isBuiltin = false := by
  rcases h.origin ht with ht | ⟨decl, drafts, first, -, ht⟩
  · obtain ⟨index, name, rfl⟩ := eq_builtin_of_mem_initial ht
    cases hf
  · rw [ht]
    rfl

theorem maintained (h : s.Built) (ht : t ∈ s.types) (hf : f ∈ t.fields)
    (hsystem : f.isSystem = true) : f.Maintained := by
  rcases h.origin ht with ht | ht
  · obtain ⟨index, name, rfl⟩ := eq_builtin_of_mem_initial ht
    cases hf
  · exact ht.maintained hf hsystem

/-- The system fields of a type stand in front, and only entities have them. -/
theorem fields_eq (h : s.Built) (ht : t ∈ s.types) :
    ∃ system declared, t.fields = system ++ declared ∧
      system.map (·.name) =
        (if t.kind.isEntity then [identityName, "createdAt", "updatedAt"] else []) ∧
      (∀ f ∈ system, f.isSystem = true) ∧ ∀ f ∈ declared, f.isSystem = false := by
  rcases h.origin ht with ht | ht
  · obtain ⟨index, name, rfl⟩ := eq_builtin_of_mem_initial ht
    exact ⟨[], [], rfl, rfl, by simp, by simp⟩
  · exact ht.fields_eq

/-- A name that a built-in scalar has means that scalar. -/
theorem type?_initial (h : s.Built) {name : String} (ht : Schema.initial.type? name = some t) :
    s.type? name = some t := by
  obtain ⟨declared, hs⟩ := h.types_eq
  have hfound : Schema.initial.types.find? (·.name == name) = some t := ht
  rw [type?, hs, List.find?_append, hfound]
  rfl

/-- The type of a system field is a built-in scalar. -/
theorem target?_system (h : s.Built) (ht : t ∈ s.types) (hf : f ∈ t.fields)
    (hsystem : f.isSystem = true) : ∃ u, s.target? f = some u ∧ u.kind = .scalar := by
  rcases (h.maintained ht hf hsystem).scalar with hname | hname
  · refine ⟨builtin 0 "ID", ?_, rfl⟩
    rw [target?, hname]
    exact h.type?_initial rfl
  · refine ⟨builtin 5 "DateTime", ?_, rfl⟩
    rw [target?, hname]
    exact h.type?_initial rfl

end Schema.Built

end EntityGraph
