import EntityGraph.Proofs.Outcome
import EntityGraph.Value.Json

/-!
# Values and their documents

What is read from a document has its objects in order and its floats finite, and a value of this
kind is read back from its own document. The order is that of `Entries.insert`, through which every
object is read: into a sorted object it puts a new key at its place, and a key beyond all others at
the end.

## Main definitions

* `Value.nodes` — a value and everything in it
* `Value.Finite` — every float in a value is finite

## Main results

* `Json.induct` — induction on a document through its items and members
* `Value.ofJson?_toJson` — a sorted and finite value is read back from its document
* `Value.sorted_of_ofJson?`, `Value.finite_of_ofJson?` — what is read is sorted and finite
-/

namespace EntityGraph

/-- Induction on a document: a property of all items passes to the array, and of all members to the
object. -/
theorem Json.induct {P : Json → Prop}
    (null : P .null) (bool : ∀ b, P (.bool b)) (int : ∀ n, P (.int n)) (float : ∀ x, P (.float x))
    (string : ∀ s, P (.string s)) (void : P .void)
    (array : ∀ items : List Json, (∀ j ∈ items, P j) → P (.array items))
    (object : ∀ members : List (String × Json), (∀ m ∈ members, P m.2) → P (.object members)) :
    ∀ j, P j := by
  intro j
  refine @Json.rec P (fun js => ∀ j ∈ js, P j) (fun ms => ∀ m ∈ ms, P m.2) (fun m => P m.2)
    null bool int float string array object void ?_ ?_ ?_ ?_ ?_ j
  · intro j h
    simp at h
  · intro j js hj hjs k hk
    rcases List.mem_cons.1 hk with rfl | hk
    · exact hj
    · exact hjs k hk
  · intro m h
    simp at h
  · intro m ms hm hms n hn
    rcases List.mem_cons.1 hn with rfl | hn
    · exact hm
    · exact hms n hn
  · intro _ j hj
    exact hj

/-! ### Lists that are read item by item -/

section MapM

variable {α β : Type}

/-- What is written item by item is read back item by item. -/
theorem mapM_map_eq_some {f : β → Option α} {g : α → β} {xs : List α}
    (h : ∀ x ∈ xs, f (g x) = some x) : (xs.map g).mapM f = some xs := by
  induction xs with
  | nil => rfl
  | cons x xs ih =>
    obtain ⟨hx, hxs⟩ := List.forall_mem_cons.1 h
    rw [List.map_cons, List.mapM_cons, hx, ih hxs]
    rfl

theorem mapM_congr {m : Type → Type} [Monad m] [LawfulMonad m] {f g : α → m β} {xs : List α}
    (h : ∀ x ∈ xs, f x = g x) : xs.mapM f = xs.mapM g := by
  induction xs with
  | nil => rfl
  | cons x xs ih =>
    obtain ⟨hx, hxs⟩ := List.forall_mem_cons.1 h
    rw [List.mapM_cons, List.mapM_cons, hx, ih hxs]

theorem forall₂_of_mapM_eq_some {f : α → Option β} {xs : List α} {ys : List β}
    (h : xs.mapM f = some ys) : List.Forall₂ (fun x y => f x = some y) xs ys := by
  induction xs generalizing ys with
  | nil =>
    obtain rfl : [] = ys := by simpa [pure] using h
    exact .nil
  | cons x xs ih =>
    rw [List.mapM_cons] at h
    obtain ⟨y, hy, h⟩ := Option.bind_eq_some_iff.1 h
    obtain ⟨rest, hrest, h⟩ := Option.bind_eq_some_iff.1 h
    obtain rfl : y :: rest = ys := by simpa [pure] using h
    exact .cons hy (ih hrest)

theorem exists_of_mem_mapM_some {f : α → Option β} {xs : List α} {ys : List β}
    (h : xs.mapM f = some ys) {y : β} (hy : y ∈ ys) : ∃ x ∈ xs, f x = some y :=
  exists_of_forall₂_of_mem (forall₂_of_mapM_eq_some h) hy

end MapM

namespace Entries

variable {es : Entries} {key : String} {value : Value}

/-- The keys are in strictly increasing order. -/
def Increasing (es : Entries) : Prop := es.Pairwise (·.1 < ·.1)

/-- A key beyond all others is put at the end. -/
theorem insert_eq_append (h : ∀ e ∈ es, e.1 < key) :
    es.insert key value = es ++ [(key, value)] := by
  induction es with
  | nil => rfl
  | cons e es ih =>
    obtain ⟨k, v⟩ := e
    obtain ⟨hk, hes⟩ := List.forall_mem_cons.1 h
    rw [insert, if_neg (String.lt_asymm hk), if_neg, ih hes, List.cons_append]
    rintro rfl
    exact String.lt_irrefl key hk

/-- The entries after putting pairs into them, one after the other. -/
def insertAll (es : Entries) (pairs : List (String × Value)) : Entries :=
  pairs.foldl (fun es p => es.insert p.1 p.2) es

/-- Pairs that continue the order of the entries are put behind them. -/
theorem insertAll_eq_append {pairs : List (String × Value)} (h : Increasing (es ++ pairs)) :
    insertAll es pairs = es ++ pairs := by
  induction pairs generalizing es with
  | nil => exact (List.append_nil es).symm
  | cons p ps ih =>
    have hbefore : ∀ e ∈ es, e.1 < p.1 := fun e he =>
      (List.pairwise_append.1 h).2.2 e he p List.mem_cons_self
    have happend : es ++ p :: ps = es ++ [p] ++ ps := by simp
    rw [happend] at h ⊢
    rw [← ih h, ← insert_eq_append hbefore]
    rfl

/-- Entries that are in order already are taken as they are. -/
theorem ofPairs_eq (h : Increasing es) : ofPairs es = es := insertAll_eq_append h

theorem mem_insert {e : String × Value} (h : e ∈ es.insert key value) :
    e = (key, value) ∨ e ∈ es := by
  induction es with
  | nil => exact .inl (List.mem_singleton.1 h)
  | cons d es ih =>
    obtain ⟨k, v⟩ := d
    rw [insert] at h
    split at h
    · exact List.mem_cons.1 h
    · split at h
      · rcases List.mem_cons.1 h with h | h
        · exact .inl h
        · exact .inr (List.mem_cons_of_mem _ h)
      · rcases List.mem_cons.1 h with rfl | h
        · exact .inr List.mem_cons_self
        · exact (ih h).imp_right (List.mem_cons_of_mem _)

theorem Increasing.insert (h : Increasing es) (key : String) (value : Value) :
    Increasing (es.insert key value) := by
  induction es with
  | nil => exact List.pairwise_singleton _ _
  | cons d es ih =>
    obtain ⟨k, v⟩ := d
    obtain ⟨hk, hes⟩ := List.pairwise_cons.1 h
    rw [Entries.insert]
    split
    · next hlt =>
      refine List.pairwise_cons.2 ⟨fun e he => ?_, h⟩
      rcases List.mem_cons.1 he with rfl | he
      · exact hlt
      · exact String.lt_trans hlt (hk e he)
    · next hge =>
      split
      · next heq =>
        subst heq
        exact List.pairwise_cons.2 ⟨hk, hes⟩
      · next hne =>
        refine List.pairwise_cons.2 ⟨fun e he => ?_, ih hes⟩
        rcases mem_insert he with rfl | he
        · -- Neither smaller nor equal, so the new key is greater.
          by_contra hlt
          exact hne (String.le_antisymm (String.not_lt.1 hlt) (String.not_lt.1 hge))
        · exact hk e he

theorem Increasing.insertAll (h : Increasing es) (pairs : List (String × Value)) :
    Increasing (es.insertAll pairs) := by
  induction pairs generalizing es with
  | nil => exact h
  | cons p ps ih => exact ih (h.insert p.1 p.2)

theorem increasing_ofPairs (pairs : List (String × Value)) : Increasing (ofPairs pairs) :=
  Increasing.insertAll .nil pairs

theorem mem_insertAll {pairs : List (String × Value)} {e : String × Value}
    (h : e ∈ es.insertAll pairs) : e ∈ es ∨ e ∈ pairs := by
  induction pairs generalizing es with
  | nil => exact .inl h
  | cons p ps ih =>
    rcases ih h with h | h
    · rcases mem_insert h with rfl | h
      · exact .inr List.mem_cons_self
      · exact .inl h
    · exact .inr (List.mem_cons_of_mem p h)

theorem mem_ofPairs {pairs : List (String × Value)} {e : String × Value} (h : e ∈ ofPairs pairs) :
    e ∈ pairs :=
  (mem_insertAll h).resolve_left List.not_mem_nil

end Entries

namespace Value

/-! ### Everything in a value -/

mutual

/-- A value and everything in it. -/
def nodes : Value → List Value
  | .list items => .list items :: itemNodes items
  | .object entries => .object entries :: entryNodes entries
  | v => [v]

/-- The items and everything in them. -/
def itemNodes : List Value → List Value
  | [] => []
  | v :: vs => nodes v ++ itemNodes vs

/-- The values of entries and everything in them. -/
def entryNodes : List (String × Value) → List Value
  | [] => []
  | (_, v) :: rest => nodes v ++ entryNodes rest

end

theorem itemNodes_eq (vs : List Value) : itemNodes vs = vs.flatMap nodes := by
  induction vs with
  | nil => rfl
  | cons v vs ih => rw [itemNodes, ih, List.flatMap_cons]

theorem entryNodes_eq (es : Entries) : entryNodes es = es.flatMap (·.2.nodes) := by
  induction es with
  | nil => rfl
  | cons e es ih =>
    obtain ⟨k, v⟩ := e
    rw [entryNodes, ih, List.flatMap_cons]

theorem forall_nodes_list {P : Value → Prop} {vs : List Value} :
    (∀ w ∈ (list vs).nodes, P w) ↔ P (list vs) ∧ ∀ v ∈ vs, ∀ w ∈ v.nodes, P w := by
  rw [nodes, itemNodes_eq, List.forall_mem_cons, List.forall_mem_flatMap]

theorem forall_nodes_object {P : Value → Prop} {es : Entries} :
    (∀ w ∈ (object es).nodes, P w) ↔ P (object es) ∧ ∀ e ∈ es, ∀ w ∈ e.2.nodes, P w := by
  rw [nodes, entryNodes_eq, List.forall_mem_cons, List.forall_mem_flatMap]

/-- Every float in the value is finite. -/
def Finite (v : Value) : Prop := ∀ w ∈ v.nodes, ∀ x, w = .float x → x.isFinite = true

/-! ### Sorted values -/

theorem sorted_list {vs : List Value} : (list vs).Sorted ↔ ∀ v ∈ vs, v.Sorted := by
  rw [Sorted]
  induction vs with
  | nil => simp [SortedItems]
  | cons v vs ih => rw [SortedItems, ih, List.forall_mem_cons]

theorem sorted_object {es : Entries} :
    (object es).Sorted ↔ Entries.Increasing es ∧ ∀ e ∈ es, e.2.Sorted := by
  rw [Sorted]
  refine and_congr Iff.rfl ?_
  induction es with
  | nil => simp [SortedEntries]
  | cons e es ih =>
    obtain ⟨k, v⟩ := e
    rw [SortedEntries, ih, List.forall_mem_cons]

/-! ### Documents of lists and objects -/

theorem toJson_list (vs : List Value) : (list vs).toJson = .array (vs.map toJson) := by
  rw [toJson]
  congr 1
  induction vs with
  | nil => rfl
  | cons v vs ih => rw [toJsonItems, ih, List.map_cons]

theorem toJson_object (es : Entries) :
    (object es).toJson = .object (es.map fun e => (e.1, e.2.toJson)) := by
  rw [toJson]
  congr 1
  induction es with
  | nil => rfl
  | cons e es ih =>
    obtain ⟨k, v⟩ := e
    rw [toJsonEntries, ih, List.map_cons]

/-- The value of a member, under its key. -/
def ofMember? (m : String × Json) : Option (String × Value) := (ofJson? m.2).map (m.1, ·)

theorem ofJson?_array (js : List Json) : ofJson? (.array js) = (js.mapM ofJson?).map .list := by
  rw [ofJson?]
  congr 1
  induction js with
  | nil => rfl
  | cons j js ih => rw [ofJsonItems?, ih, List.mapM_cons]

theorem ofJson?_object (ms : List (String × Json)) :
    ofJson? (.object ms) = (ms.mapM ofMember?).map fun es => .object (Entries.ofPairs es) := by
  rw [ofJson?]
  congr 1
  induction ms with
  | nil => rfl
  | cons m ms ih =>
    obtain ⟨k, j⟩ := m
    rw [ofJsonMembers?, ih, List.mapM_cons, ofMember?]
    cases ofJson? j <;> rfl

theorem ofInt?_toInt (n : Int64) : ofInt? n.toInt = some (.int n) := by
  rw [ofInt?, if_pos ⟨Int64.minValue_le_toInt n, Int64.toInt_le n⟩, Int64.ofInt_toInt]

/-- A sorted and finite value is read back from its document. -/
theorem ofJson?_toJson {v : Value} (hsorted : v.Sorted) (hfinite : v.Finite) :
    ofJson? v.toJson = some v := by
  induction v using Value.induct with
  | null | bool | string => rfl
  | int n => exact ofInt?_toInt n
  | float x =>
    have hx : x.isFinite = true := hfinite (.float x) (by simp [nodes]) x rfl
    rw [toJson, if_pos hx, ofJson?, ofFloat?, if_pos hx]
  | list vs ih =>
    have hitems : ∀ v ∈ vs, ofJson? v.toJson = some v := fun v hv =>
      ih v hv (sorted_list.1 hsorted v hv) ((forall_nodes_list.1 hfinite).2 v hv)
    rw [toJson_list, ofJson?_array, mapM_map_eq_some hitems]
    rfl
  | object es ih =>
    obtain ⟨hincreasing, hsorted⟩ := sorted_object.1 hsorted
    have hentries : ∀ e ∈ es, ofMember? (e.1, e.2.toJson) = some e := by
      intro e he
      rw [ofMember?, ih e he (hsorted e he) ((forall_nodes_object.1 hfinite).2 e he)]
      rfl
    rw [toJson_object, ofJson?_object, mapM_map_eq_some hentries, Option.map_some,
      Entries.ofPairs_eq hincreasing]

/-! ### What is read -/

theorem plain_of_ofFloat? {x : Float} {v : Value} (h : ofFloat? x = some v) :
    v.isList = false ∧ v.isObject = false ∧ v.Finite := by
  rw [ofFloat?] at h
  split at h
  · next hx =>
    obtain rfl := Option.some.inj h
    refine ⟨rfl, rfl, ?_⟩
    simp [Finite, nodes, hx]
  · cases h

/-- Induction on what is read from a document: single values are finite, and objects are in order
and take their entries from the members. -/
theorem ofJson?_induct {P : Json → Value → Prop}
    (plain : ∀ j v, v.isList = false → v.isObject = false → v.Finite → P j v)
    (list : ∀ js vs, (∀ v ∈ vs, ∃ j ∈ js, P j v) → P (.array js) (.list vs))
    (object : ∀ ms es, Entries.Increasing es → (∀ e ∈ es, ∃ m ∈ ms, P m.2 e.2) →
      P (.object ms) (.object es))
    {j : Json} {v : Value} (h : ofJson? j = some v) : P j v := by
  have single : ∀ w : Value, w.nodes = [w] → (∀ x, w ≠ .float x) → w.Finite := by
    intro w hw hne u hu x hx
    rw [hw, List.mem_singleton] at hu
    exact absurd (hu.symm.trans hx) (hne x)
  induction j using Json.induct generalizing v with
  | void => cases h
  | null =>
    obtain rfl : Value.null = v := Option.some.inj h
    exact plain _ _ rfl rfl (single _ rfl (by simp))
  | bool b =>
    obtain rfl : Value.bool b = v := Option.some.inj h
    exact plain _ _ rfl rfl (single _ rfl (by simp))
  | string s =>
    obtain rfl : Value.string s = v := Option.some.inj h
    exact plain _ _ rfl rfl (single _ rfl (by simp))
  | float x =>
    obtain ⟨hlist, hobject, hfinite⟩ := plain_of_ofFloat? h
    exact plain _ _ hlist hobject hfinite
  | int n =>
    rw [ofJson?, ofInt?] at h
    split at h
    · obtain rfl := Option.some.inj h
      exact plain _ _ rfl rfl (single _ rfl (by simp))
    · obtain ⟨hlist, hobject, hfinite⟩ := plain_of_ofFloat? h
      exact plain _ _ hlist hobject hfinite
  | array js ih =>
    rw [ofJson?_array] at h
    obtain ⟨vs, hvs, rfl⟩ := Option.map_eq_some_iff.1 h
    refine list js vs fun v hv => ?_
    obtain ⟨j, hj, hjv⟩ := exists_of_mem_mapM_some hvs hv
    exact ⟨j, hj, ih j hj hjv⟩
  | object ms ih =>
    rw [ofJson?_object] at h
    obtain ⟨pairs, hpairs, rfl⟩ := Option.map_eq_some_iff.1 h
    refine object ms _ (Entries.increasing_ofPairs pairs) fun e he => ?_
    obtain ⟨m, hm, hme⟩ := exists_of_mem_mapM_some hpairs (Entries.mem_ofPairs he)
    obtain ⟨v, hv, rfl⟩ := Option.map_eq_some_iff.1 hme
    exact ⟨m, hm, ih m hm hv⟩

theorem sorted_of_ofJson? {j : Json} {v : Value} (h : ofJson? j = some v) : v.Sorted := by
  refine ofJson?_induct (P := fun _ v => v.Sorted) ?_ ?_ ?_ h
  · intro _ v hlist hobject _
    cases v with
    | list => cases hlist
    | object => cases hobject
    | null | bool | int | float | string => trivial
  · intro js vs hvs
    refine sorted_list.2 fun v hv => ?_
    obtain ⟨_, _, hsorted⟩ := hvs v hv
    exact hsorted
  · intro ms es hincreasing hes
    refine sorted_object.2 ⟨hincreasing, fun e he => ?_⟩
    obtain ⟨_, _, hsorted⟩ := hes e he
    exact hsorted

theorem finite_of_ofJson? {j : Json} {v : Value} (h : ofJson? j = some v) : v.Finite := by
  refine ofJson?_induct (P := fun _ v => v.Finite) ?_ ?_ ?_ h
  · exact fun _ _ _ _ hfinite => hfinite
  · intro js vs hvs
    refine forall_nodes_list.2 ⟨by simp, fun v hv => ?_⟩
    obtain ⟨_, _, hfinite⟩ := hvs v hv
    exact hfinite
  · intro ms es _ hes
    refine forall_nodes_object.2 ⟨by simp, fun e he => ?_⟩
    obtain ⟨_, _, hfinite⟩ := hes e he
    exact hfinite

end Value

end EntityGraph
