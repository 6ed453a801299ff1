import EntityGraph.Proofs.Validity
import Mathlib.Data.List.Perm.Basic

/-!
# Declarations in another order

The same schema can be declared in many ways: types, profiles and the fields of a type come in some
order, and numbers are handed out in this order. Two schemas are *alike* if they differ only in it.
Fields may then have other numbers, and types other numbers and their fields in another order.

A declaration can be built in one order exactly if it can be built in the other, and the schemas are
alike.

## Main definitions

* `Rearranged` — the members of two lists are related, each list in an order of its own
* `SchemaDecl.Reordered` — the same declarations in another order
* `FieldDef.Alike`, `TypeDef.Alike`, `Schema.Alike` — the same up to numbers and order

## Main results

* `Rearranged.find?` — a name that is nobody else's finds related members
* `SchemaDecl.Reordered.exists_alike` — declarations in another order build schemas that are alike
-/

namespace EntityGraph

variable {α β γ δ : Type}

/-! ### Lists in another order -/

/-- The members of one list are related to those of the other, which is in an order of its own. -/
def Rearranged (R : α → β → Prop) (xs : List α) (ys : List β) : Prop :=
  ∃ us, List.Forall₂ R xs us ∧ us.Perm ys

theorem forall₂_imp_mem {R S : α → β → Prop} {xs : List α} {ys : List β}
    (h : List.Forall₂ R xs ys) (himp : ∀ x ∈ xs, ∀ y ∈ ys, R x y → S x y) :
    List.Forall₂ S xs ys := by
  induction h with
  | nil => exact .nil
  | @cons x y xs ys hxy _ ih =>
    refine .cons (himp x List.mem_cons_self y List.mem_cons_self hxy) (ih fun x' hx' y' hy' => ?_)
    exact himp x' (List.mem_cons_of_mem x hx') y' (List.mem_cons_of_mem y hy')

theorem forall₂_trans {R : α → β → Prop} {S : β → γ → Prop} {xs : List α} {ys : List β}
    {zs : List γ} (h : List.Forall₂ R xs ys) (h' : List.Forall₂ S ys zs) :
    List.Forall₂ (fun x z => ∃ y, R x y ∧ S y z) xs zs := by
  induction h generalizing zs with
  | nil =>
    cases h'
    exact .nil
  | cons hxy _ ih =>
    cases h' with
    | cons hyz h' => exact .cons ⟨_, hxy, hyz⟩ (ih h')

namespace Rearranged

variable {R : α → β → Prop} {S : β → γ → Prop} {xs xs' : List α} {ys ys' : List β} {zs : List γ}

theorem of_perm {xs ys : List α} (h : xs.Perm ys) : Rearranged (· = ·) xs ys :=
  ⟨xs, List.forall₂_same.2 fun _ _ => rfl, h⟩

theorem of_forall₂ (h : List.Forall₂ R xs ys) : Rearranged R xs ys := ⟨ys, h, .refl ys⟩

theorem imp {S : α → β → Prop} (h : Rearranged R xs ys)
    (himp : ∀ x ∈ xs, ∀ y ∈ ys, R x y → S x y) : Rearranged S xs ys := by
  obtain ⟨us, hus, hperm⟩ := h
  exact ⟨us, forall₂_imp_mem hus fun x hx u hu => himp x hx u (hperm.mem_iff.1 hu), hperm⟩

theorem symm (h : Rearranged R xs ys) : Rearranged (fun y x => R x y) ys xs := by
  obtain ⟨us, hus, hperm⟩ := h
  exact List.perm_comp_forall₂ hperm.symm hus.flip

theorem trans (h : Rearranged R xs ys) (h' : Rearranged S ys zs) :
    Rearranged (fun x z => ∃ y, R x y ∧ S y z) xs zs := by
  obtain ⟨us, hus, hperm⟩ := h
  obtain ⟨vs, hvs, hperm'⟩ := h'
  obtain ⟨ws, hws, hperm''⟩ := List.perm_comp_forall₂ hperm hvs
  exact ⟨ws, forall₂_trans hus hws, hperm''.trans hperm'⟩

theorem append (h : Rearranged R xs ys) (h' : Rearranged R xs' ys') :
    Rearranged R (xs ++ xs') (ys ++ ys') := by
  obtain ⟨us, hus, hperm⟩ := h
  obtain ⟨vs, hvs, hperm'⟩ := h'
  exact ⟨us ++ vs, List.rel_append hus hvs, hperm.append hperm'⟩

theorem filter {p : α → Bool} {q : β → Bool} (h : Rearranged R xs ys)
    (hpq : ∀ x ∈ xs, ∀ y ∈ ys, R x y → p x = q y) : Rearranged R (xs.filter p) (ys.filter q) := by
  have hboth : Rearranged (fun x y => R x y ∧ p x = q y) xs ys :=
    h.imp fun x hx y hy hxy => ⟨hxy, hpq x hx y hy hxy⟩
  obtain ⟨us, hus, hperm⟩ := hboth
  have hiff : ∀ x y, R x y ∧ p x = q y → (p x = true ↔ q y = true) := by
    rintro x y ⟨-, heq⟩
    rw [heq]
  have hfiltered : Rearranged _ (xs.filter p) (ys.filter q) :=
    ⟨us.filter q, List.rel_filter hiff hus, hperm.filter q⟩
  exact hfiltered.imp fun _ _ _ _ hxy => hxy.1

theorem flatMap_perm {f : α → List γ} {g : β → List γ} (h : Rearranged R xs ys)
    (hfg : ∀ x ∈ xs, ∀ y ∈ ys, R x y → (f x).Perm (g y)) :
    (xs.flatMap f).Perm (ys.flatMap g) := by
  obtain ⟨us, hus, hperm⟩ := h.imp hfg
  refine List.Perm.trans ?_ (hperm.flatMap_right g)
  clear hperm h hfg
  induction hus with
  | nil => exact .refl _
  | cons hxy _ ih =>
    rw [List.flatMap_cons, List.flatMap_cons]
    exact hxy.append ih

theorem map_perm {f : α → γ} {g : β → γ} (h : Rearranged R xs ys)
    (hfg : ∀ x y, R x y → f x = g y) : (xs.map f).Perm (ys.map g) := by
  rw [List.map_eq_flatMap, List.map_eq_flatMap]
  refine h.flatMap_perm fun x _ y _ hxy => ?_
  rw [hfg x y hxy]

theorem length_eq (h : Rearranged R xs ys) : xs.length = ys.length := by
  obtain ⟨us, hus, hperm⟩ := h
  exact hus.length_eq.trans hperm.length_eq

theorem eq_singleton {x : α} (h : Rearranged R [x] ys) : ∃ y, ys = [y] ∧ R x y := by
  obtain ⟨us, hus, hperm⟩ := h
  cases hus with
  | cons hxy hus =>
    cases hus
    exact ⟨_, List.perm_singleton.1 hperm.symm, hxy⟩

theorem exists_right (h : Rearranged R xs ys) {x : α} (hx : x ∈ xs) : ∃ y ∈ ys, R x y := by
  obtain ⟨us, hus, hperm⟩ := h
  obtain ⟨u, hu, hxu⟩ := exists_of_forall₂_of_mem hus.flip hx
  exact ⟨u, hperm.mem_iff.1 hu, hxu⟩

theorem exists_left (h : Rearranged R xs ys) {y : β} (hy : y ∈ ys) : ∃ x ∈ xs, R x y :=
  h.symm.exists_right hy

/-- If names are nobody else's, both lists find related members under a name, or none. -/
theorem find? {name : α → String} {name' : β → String} (h : Rearranged R xs ys)
    (hname : ∀ x y, R x y → name x = name' y) (hnodup : (xs.map name).Nodup) (a : String) :
    (xs.find? (name · == a) = none ∧ ys.find? (name' · == a) = none) ∨
      ∃ x y, xs.find? (name · == a) = some x ∧ ys.find? (name' · == a) = some y ∧ R x y := by
  cases hy : ys.find? (name' · == a) with
  | none =>
    refine .inl ⟨List.find?_eq_none.2 fun x hx => ?_, rfl⟩
    obtain ⟨y, hy', hxy⟩ := h.exists_right hx
    rw [hname x y hxy]
    exact List.find?_eq_none.1 hy y hy'
  | some y =>
    obtain ⟨x, hx, hxy⟩ := h.exists_left (List.mem_of_find?_eq_some hy)
    have hya : name' y = a := by simpa using List.find?_some hy
    have hxa : name x = a := (hname x y hxy).trans hya
    refine .inr ⟨x, y, ?_, rfl, hxy⟩
    rw [← hxa]
    exact find?_name_of_nodup hnodup hx

end Rearranged

/-! ### Declarations -/

/-- The same type with its fields in another order. -/
def TypeDecl.Reordered (t t' : TypeDecl) : Prop :=
  ∃ fields, t.fields.Perm fields ∧ t' = { t with fields }

/-- The same types, up to the order of their fields, and the same profiles in another order. -/
structure SchemaDecl.Reordered (d d' : SchemaDecl) : Prop where
  types : Rearranged TypeDecl.Reordered d.types d'.types
  profiles : d.profiles.Perm d'.profiles

theorem TypeDecl.Reordered.symm {t t' : TypeDecl} (h : t.Reordered t') : t'.Reordered t := by
  obtain ⟨fields, hperm, rfl⟩ := h
  exact ⟨t.fields, hperm.symm, rfl⟩

theorem SchemaDecl.Reordered.symm {d d' : SchemaDecl} (h : d.Reordered d') : d'.Reordered d :=
  ⟨h.types.symm.imp fun _ _ _ _ ht => ht.symm, h.profiles.symm⟩

/-! ### Schemas -/

/-- The same field, perhaps with another number and with another number of its owner. -/
structure FieldDef.Alike (f g : FieldDef) : Prop where
  name : f.name = g.name
  typeName : f.typeName = g.typeName
  isList : f.isList = g.isList
  isReference : f.isReference = g.isReference
  isRelation : f.isRelation = g.isRelation
  isSystem : f.isSystem = g.isSystem
  inverseOf : f.inverseOf = g.inverseOf
  defaultValue : f.defaultValue = g.defaultValue
  operators : f.operators = g.operators
  permissions : f.permissions = g.permissions
  location : f.location = g.location

/-- The same type, perhaps with another number and with its fields in another order. -/
structure TypeDef.Alike (t u : TypeDef) : Prop where
  name : t.name = u.name
  kind : t.kind = u.kind
  keyName : t.keyName = u.keyName
  values : t.values = u.values
  permissions : t.permissions = u.permissions
  isBuiltin : t.isBuiltin = u.isBuiltin
  location : t.location = u.location
  fields : Rearranged FieldDef.Alike t.fields u.fields

/-- The same types and profiles, perhaps in another order. -/
structure Schema.Alike (s s' : Schema) : Prop where
  types : Rearranged TypeDef.Alike s.types s'.types
  profiles : s.profiles.Perm s'.profiles

theorem FieldDef.Alike.refl (f : FieldDef) : f.Alike f :=
  ⟨rfl, rfl, rfl, rfl, rfl, rfl, rfl, rfl, rfl, rfl, rfl⟩

theorem TypeDef.Alike.refl (t : TypeDef) : t.Alike t :=
  ⟨rfl, rfl, rfl, rfl, rfl, rfl, rfl, .of_forall₂ (List.forall₂_same.2 fun f _ => .refl f)⟩

/-! ### Building -/

/-- Computations succeed in every order, with the same results. -/
theorem exists_mapM_perm {ε : Type} {f : α → Except ε β} {xs xs' : List α} {ys : List β}
    (hperm : xs.Perm xs') (h : xs.mapM f = .ok ys) :
    ∃ ys', xs'.mapM f = .ok ys' ∧ ys.Perm ys' := by
  have hxs := forall₂_of_mapM_eq_ok h
  obtain ⟨ys', hys'⟩ : ∃ ys', xs'.mapM f = .ok ys' := by
    refine exists_mapM_eq_ok fun x hx => ?_
    obtain ⟨y, -, hy⟩ := exists_of_forall₂_of_mem hxs.flip (hperm.mem_iff.2 hx)
    exact ⟨y, hy⟩
  have hunique : Relator.RightUnique fun x y => f x = .ok y :=
    fun x y z hy hz => Except.ok.inj (hy.symm.trans hz)
  exact ⟨ys', hys', List.rel_perm_imp hunique hxs (forall₂_of_mapM_eq_ok hys') hperm⟩

theorem TypeDecl.Reordered.exists_drafts {t t' : TypeDecl} (h : t.Reordered t')
    {drafts : List FieldDraft} (hdrafts : t.drafts = .ok drafts) :
    ∃ drafts', t'.drafts = .ok drafts' ∧ drafts.Perm drafts' := by
  obtain ⟨fields, hperm, rfl⟩ := h
  rw [TypeDecl.drafts] at hdrafts
  obtain ⟨declared, hdeclared, hdrafts⟩ := bind_eq_ok.1 hdrafts
  obtain rfl : _ = drafts := Except.ok.inj hdrafts
  obtain ⟨declared', hdeclared', hperm'⟩ := exists_mapM_perm hperm hdeclared
  exact ⟨_, bind_eq_ok.2 ⟨declared', hdeclared', rfl⟩, hperm'.append_left _⟩

theorem forall₂_defineFields (owner : TypeId) (first : Nat) (drafts : List FieldDraft) :
    List.Forall₂ (fun d f => f = d.define owner f.id) drafts (defineFields owner first drafts) := by
  induction drafts generalizing first with
  | nil => exact .nil
  | cons d ds ih => exact .cons rfl (ih (first + 1))

/-- The type was defined from the declaration. -/
def TypeDecl.Defines (decl : TypeDecl) (t : TypeDef) : Prop :=
  ∃ drafts first, decl.drafts = .ok drafts ∧ t = decl.define t.id first drafts

theorem TypeDecl.Reordered.alike {decl decl' : TypeDecl} (h : decl.Reordered decl') {t t' : TypeDef}
    (ht : decl.Defines t) (ht' : decl'.Defines t') : t.Alike t' := by
  obtain ⟨drafts, first, hdrafts, ht⟩ := ht
  obtain ⟨drafts', first', hdrafts', ht'⟩ := ht'
  obtain ⟨drafts'', hdrafts'', hperm⟩ := h.exists_drafts hdrafts
  obtain rfl : drafts' = drafts'' := Except.ok.inj (hdrafts'.symm.trans hdrafts'')
  obtain ⟨fields, -, rfl⟩ := h
  rw [ht, ht']
  refine ⟨rfl, rfl, rfl, rfl, rfl, rfl, rfl, ?_⟩
  -- From a field to its draft, to the same draft in its other place, and to the field there.
  have hfields := (Rearranged.of_forall₂ (forall₂_defineFields t.id first drafts)).symm.trans
    ((Rearranged.of_perm hperm).trans (.of_forall₂ (forall₂_defineFields t'.id first' drafts')))
  refine hfields.imp fun f _ f' _ hchain => ?_
  obtain ⟨d, hf, _, rfl, hf'⟩ := hchain
  rw [hf, hf']
  exact ⟨rfl, rfl, rfl, rfl, rfl, rfl, rfl, rfl, rfl, rfl, rfl⟩

namespace Schema

theorem foldl_addProfile (profiles : List Profile) (s : Schema) :
    profiles.foldl addProfile s = { s with profiles := s.profiles ++ profiles } := by
  induction profiles generalizing s with
  | nil => simp
  | cons p ps ih =>
    rw [List.foldl_cons, ih]
    simp [addProfile]

/-- Adding types leaves the types that were there, and defines one for each declaration. -/
theorem forall₂_of_foldlM_addType {types : List TypeDecl} {s s' : Schema}
    (h : types.foldlM addType s = .ok s') : s'.profiles = s.profiles ∧ ∃ declared,
      s'.types = s.types ++ declared ∧ List.Forall₂ TypeDecl.Defines types declared := by
  induction types generalizing s with
  | nil =>
    obtain rfl : s = s' := Except.ok.inj h
    exact ⟨rfl, [], (List.append_nil _).symm, .nil⟩
  | cons t ts ih =>
    rw [List.foldlM_cons] at h
    obtain ⟨mid, hmid, h⟩ := bind_eq_ok.1 h
    obtain ⟨drafts, hdrafts, rfl⟩ := addType_eq_ok.1 hmid
    obtain ⟨hprofiles, declared, htypes, hdefines⟩ := ih h
    have hdefined : t.Defines (t.define s.nextType s.nextField drafts) :=
      ⟨drafts, s.nextField, hdrafts, rfl⟩
    refine ⟨hprofiles, _, ?_, .cons hdefined hdefines⟩
    rw [htypes, List.append_assoc, List.singleton_append]

/-- Types can be added if their operator names can be looked up. -/
theorem exists_foldlM_addType {types : List TypeDecl}
    (h : ∀ t ∈ types, ∃ drafts, t.drafts = .ok drafts) (s : Schema) :
    ∃ s', types.foldlM addType s = .ok s' := by
  induction types generalizing s with
  | nil => exact ⟨s, rfl⟩
  | cons t ts ih =>
    obtain ⟨⟨drafts, hdrafts⟩, hts⟩ := List.forall_mem_cons.1 h
    obtain ⟨s', hs'⟩ := ih hts _
    rw [List.foldlM_cons]
    exact ⟨s', bind_eq_ok.2 ⟨_, addType_eq_ok.2 ⟨drafts, hdrafts, rfl⟩, hs'⟩⟩

/-- What a declaration builds: the built-in scalars, one type for each that is declared, and the
profiles. -/
theorem forall₂_of_ofDecl {d : SchemaDecl} {s : Schema} (h : ofDecl d = .ok s) :
    s.profiles = d.profiles ∧ ∃ declared, s.types = initial.types ++ declared ∧
      List.Forall₂ TypeDecl.Defines d.types declared := by
  rw [ofDecl, foldl_addProfile] at h
  exact forall₂_of_foldlM_addType h

end Schema

/-- Declarations in another order build schemas that are alike. -/
theorem SchemaDecl.Reordered.exists_alike {d d' : SchemaDecl} (h : d.Reordered d') {s : Schema}
    (hs : Schema.ofDecl d = .ok s) : ∃ s', Schema.ofDecl d' = .ok s' ∧ s.Alike s' := by
  obtain ⟨hprofiles, declared, htypes, hdefines⟩ := Schema.forall₂_of_ofDecl hs
  obtain ⟨s', hs'⟩ : ∃ s', Schema.ofDecl d' = .ok s' := by
    refine Schema.exists_foldlM_addType (fun decl' hdecl' => ?_) _
    obtain ⟨decl, hdecl, hreordered⟩ := h.types.exists_left hdecl'
    obtain ⟨t, -, drafts, first, hdrafts, -⟩ := exists_of_forall₂_of_mem hdefines.flip hdecl
    obtain ⟨drafts', hdrafts', -⟩ := hreordered.exists_drafts hdrafts
    exact ⟨drafts', hdrafts'⟩
  obtain ⟨hprofiles', declared', htypes', hdefines'⟩ := Schema.forall₂_of_ofDecl hs'
  refine ⟨s', hs', ?_, ?_⟩
  · rw [htypes, htypes']
    have hinitial : Rearranged TypeDef.Alike Schema.initial.types Schema.initial.types :=
      .of_forall₂ (List.forall₂_same.2 fun t _ => .refl t)
    -- From a type to its declaration, to the reordered one, and to the type that it defines.
    have hdeclared := (Rearranged.of_forall₂ hdefines).symm.trans
      (h.types.trans (.of_forall₂ hdefines'))
    refine hinitial.append (hdeclared.imp fun t _ t' _ hchain => ?_)
    obtain ⟨decl, hdecl, decl', hreordered, hdecl'⟩ := hchain
    exact hreordered.alike hdecl hdecl'
  · rw [hprofiles, hprofiles']
    exact h.profiles

end EntityGraph
