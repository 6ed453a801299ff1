import EntityGraph.Plan.Json
import EntityGraph.Proofs.ValueDocuments
import Mathlib.Data.String.Basic

/-!
# The order of members

The members of an object are in no particular order as far as JSON goes, so two documents are the
same if they agree once the members of every object are sorted. Sorting is stable, which keeps
repeated members in their order, and reading depends on no other order: values sort their entries
themselves, and the parts of a plan are looked up by their keys.

## Main definitions

* `Json.sorted` — the document with the members of every object in the order of their keys

## Main results

* `Value.ofJson?_sorted`, `Plan.ofJson?_sorted` — reading does not depend on the order of members
-/

namespace EntityGraph

namespace Json

/-! ### Sorted documents -/

/-- Puts a member in front of the first whose key is not smaller. -/
def putMember (key : String) (j : Json) : List (String × Json) → List (String × Json)
  | [] => [(key, j)]
  | (k, i) :: rest =>
    if key ≤ k then (key, j) :: (k, i) :: rest else (k, i) :: putMember key j rest

mutual

/-- The document with the members of every object in the order of their keys. -/
def sorted : Json → Json
  | .array items => .array (sortedItems items)
  | .object members => .object (sortedMembers members)
  | j => j

/-- The items, each of them sorted. -/
def sortedItems : List Json → List Json
  | [] => []
  | j :: rest => sorted j :: sortedItems rest

/-- The members in the order of their keys, each of them sorted. -/
def sortedMembers : List (String × Json) → List (String × Json)
  | [] => []
  | (key, j) :: rest => putMember key (sorted j) (sortedMembers rest)

end

theorem sortedItems_eq (js : List Json) : sortedItems js = js.map sorted := by
  induction js with
  | nil => rfl
  | cons j js ih => rw [sortedItems, ih, List.map_cons]

theorem lookup_putMember (key k : String) (j : Json) (ms : List (String × Json)) :
    (putMember k j ms).lookup key = ((k, j) :: ms).lookup key := by
  induction ms with
  | nil => rfl
  | cons m ms ih =>
    obtain ⟨l, i⟩ := m
    rw [putMember]
    split
    · rfl
    · next hle =>
      -- The member moves past one with another key, so at most one of the two is looked up.
      have hne : l ≠ k := by
        rintro rfl
        exact hle (String.le_refl l)
      rw [List.lookup_cons, ih]
      grind

/-- Looking up a key in sorted members gives the member sorted. -/
theorem lookup_sortedMembers (key : String) (ms : List (String × Json)) :
    (sortedMembers ms).lookup key = (ms.lookup key).map sorted := by
  induction ms with
  | nil => rfl
  | cons m ms ih =>
    obtain ⟨k, j⟩ := m
    rw [sortedMembers, lookup_putMember, List.lookup_cons, List.lookup_cons, ih]
    split <;> rfl

theorem length_putMember (k : String) (j : Json) (ms : List (String × Json)) :
    (putMember k j ms).length = ms.length + 1 := by
  induction ms with
  | nil => rfl
  | cons m ms ih =>
    obtain ⟨l, i⟩ := m
    rw [putMember]
    split <;> simp [ih]

theorem length_sortedMembers (ms : List (String × Json)) :
    (sortedMembers ms).length = ms.length := by
  induction ms with
  | nil => rfl
  | cons m ms ih => rw [sortedMembers, length_putMember, ih, List.length_cons]

/-- Sorting keeps an object with one member apart from all others. -/
theorem sortedMembers_cases (ms : List (String × Json)) :
    (∃ k j, ms = [(k, j)] ∧ sortedMembers ms = [(k, sorted j)]) ∨
      (ms.length ≠ 1 ∧ (sortedMembers ms).length ≠ 1) := by
  rcases ms with _ | ⟨⟨k, j⟩, _ | ⟨m, ms⟩⟩
  · exact .inr ⟨by simp, by simp [sortedMembers]⟩
  · exact .inl ⟨k, j, rfl, rfl⟩
  · exact .inr ⟨by simp, by rw [length_sortedMembers]; simp⟩

/-! ### Parts of documents -/

@[simp] theorem get?_sorted (key : String) (j : Json) :
    get? key j.sorted = (get? key j).map sorted := by
  cases j with
  | object ms => exact lookup_sortedMembers key ms
  | null | bool | int | float | string | array | void => rfl

theorem bind_get?_sorted {α : Type} (key : String) (j : Json) (f : Json → Option α) :
    (get? key j.sorted >>= f) = get? key j >>= fun part => f part.sorted := by
  rw [get?_sorted]
  cases get? key j <;> rfl

@[simp] theorem nat?_sorted (j : Json) : nat? j.sorted = nat? j := by
  cases j <;> rfl

@[simp] theorem string?_sorted (j : Json) : string? j.sorted = string? j := by
  cases j <;> rfl

@[simp] theorem bool?_sorted (j : Json) : bool? j.sorted = bool? j := by
  cases j <;> rfl

theorem sorted_eq_null {j : Json} : j.sorted = .null ↔ j = .null := by
  cases j <;> simp [sorted]

theorem name?_eq_none {α : Type} (names : List (String × α)) {ms : List (String × Json)}
    (h : ms.length ≠ 1) : name? names (.object ms) = none := by
  rcases ms with _ | ⟨m, _ | ⟨m', ms⟩⟩
  · rfl
  · exact absurd rfl h
  · obtain ⟨k, j⟩ := m
    cases j <;> rfl

@[simp] theorem name?_sorted {α : Type} (names : List (String × α)) (j : Json) :
    name? names j.sorted = name? names j := by
  cases j with
  | object ms =>
    rw [sorted]
    obtain ⟨k, j, rfl, hsorted⟩ | ⟨hms, hsorted⟩ := sortedMembers_cases ms
    · rw [hsorted]
      cases j <;> rfl
    · rw [name?_eq_none names hms, name?_eq_none names hsorted]
  | null | bool | int | float | string | array | void => rfl

theorem optional?_sorted {α : Type} {decode : Json → Option α}
    (h : ∀ j, decode j.sorted = decode j) (o : Option Json) :
    optional? decode (o.map sorted) = optional? decode o := by
  rcases o with _ | j
  · rfl
  · have hdecode : (decode j.sorted).map some = (decode j).map some := by rw [h]
    cases j <;> first | rfl | exact hdecode

end Json

/-! ### Values -/

namespace Entries

/-- Values under different keys are put in either order. -/
theorem insert_comm (es : Entries) {k k' : String} (h : k ≠ k') (v v' : Value) :
    (es.insert k v).insert k' v' = (es.insert k' v').insert k v := by
  induction es with
  | nil =>
    rcases lt_trichotomy k k' with hlt | rfl | hlt
    · simp [insert, hlt, hlt.not_gt, h.symm]
    · exact absurd rfl h
    · simp [insert, hlt, hlt.not_gt, h]
  | cons e es ih =>
    obtain ⟨l, w⟩ := e
    grind [insert, String.lt_trans, String.lt_irrefl, String.not_lt, String.le_antisymm]

end Entries

namespace Value

/-- The entries after putting the values of members into them, one after the other. -/
def readInto (es : Entries) (ms : List (String × Json)) : Option Entries :=
  (ms.mapM ofMember?).map es.insertAll

theorem ofJson?_object_eq (ms : List (String × Json)) :
    ofJson? (.object ms) = (readInto [] ms).map .object := by
  rw [ofJson?_object, readInto, Option.map_map]
  rfl

theorem readInto_cons (es : Entries) (k : String) (j : Json) (ms : List (String × Json)) :
    readInto es ((k, j) :: ms) = (ofJson? j).bind fun v => readInto (es.insert k v) ms := by
  rw [readInto, List.mapM_cons, ofMember?]
  cases ofJson? j with
  | none => rfl
  | some v =>
    show Option.map _ (Option.bind (ms.mapM ofMember?) _) = _
    cases hms : ms.mapM ofMember? <;> simp [readInto, hms, Entries.insertAll]

theorem readInto_putMember (es : Entries) (k : String) (j : Json) (ms : List (String × Json)) :
    readInto es (Json.putMember k j ms) = readInto es ((k, j) :: ms) := by
  induction ms generalizing es with
  | nil => rfl
  | cons m ms ih =>
    obtain ⟨l, i⟩ := m
    rw [Json.putMember]
    split
    · rfl
    · next hle =>
      have hne : l ≠ k := by
        rintro rfl
        exact hle (String.le_refl l)
      simp only [readInto_cons, ih]
      cases ofJson? i <;> cases ofJson? j <;> simp [Entries.insert_comm es hne]

/-- Reading a value does not depend on the order of members. -/
@[simp] theorem ofJson?_sorted (j : Json) : ofJson? j.sorted = ofJson? j := by
  induction j using Json.induct with
  | null | bool | int | float | string | void => rfl
  | array js ih =>
    rw [Json.sorted, Json.sortedItems_eq, ofJson?_array, ofJson?_array]
    congr 1
    rw [List.mapM_map]
    exact mapM_congr ih
  | object ms ih =>
    rw [Json.sorted, ofJson?_object_eq, ofJson?_object_eq]
    congr 1
    generalize ([] : Entries) = es
    induction ms generalizing es with
    | nil => rfl
    | cons m ms ih' =>
      obtain ⟨k, j⟩ := m
      obtain ⟨hj, hms⟩ := List.forall_mem_cons.1 ih
      rw [Json.sortedMembers, readInto_putMember, readInto_cons, readInto_cons, hj]
      simp only [ih' hms]

end Value

/-! ### Plans -/

@[simp] theorem TypeId.ofJson?_sorted (j : Json) : ofJson? j.sorted = ofJson? j := by
  simp [ofJson?]

@[simp] theorem FieldId.ofJson?_sorted (j : Json) : ofJson? j.sorted = ofJson? j := by
  simp [ofJson?]

@[simp] theorem ValueShape.ofJson?_sorted (j : Json) : ofJson? j.sorted = ofJson? j :=
  Json.name?_sorted _ j

@[simp] theorem BinaryOperator.ofJson?_sorted (j : Json) : ofJson? j.sorted = ofJson? j :=
  Json.name?_sorted _ j

@[simp] theorem UnaryOperator.ofJson?_sorted (j : Json) : ofJson? j.sorted = ofJson? j :=
  Json.name?_sorted _ j

@[simp] theorem Variable.ofJson?_sorted (j : Json) : ofJson? j.sorted = ofJson? j := by
  simp only [ofJson?, Json.bind_get?_sorted, Json.nat?_sorted, Json.string?_sorted]

@[simp] theorem Relation.ofJson?_sorted (j : Json) : ofJson? j.sorted = ofJson? j := by
  have hfar := Json.optional?_sorted FieldId.ofJson?_sorted (j.get? "to_field")
  rw [← Json.get?_sorted] at hfar
  simp only [ofJson?, Json.bind_get?_sorted, TypeId.ofJson?_sorted, FieldId.ofJson?_sorted, hfar]

@[simp] theorem RelationSide.ofJson?_sorted (j : Json) : ofJson? j.sorted = ofJson? j := by
  simp only [ofJson?, Json.bind_get?_sorted, Relation.ofJson?_sorted, Json.bool?_sorted]

namespace PlanPart

/-- What a part of a step is when it is read. -/
def read (j : Json) : PlanPart :=
  ⟨j, Plan.ofJson? j, Plan.itemsOfJson? j, Plan.propertiesOfJson? j⟩

end PlanPart

namespace Plan

theorem lookup_partsOfMembers (key : String) (ms : List (String × Json)) :
    (partsOfMembers ms).lookup key = (ms.lookup key).map PlanPart.read := by
  induction ms with
  | nil => rfl
  | cons m ms ih =>
    obtain ⟨k, j⟩ := m
    rw [partsOfMembers, List.lookup_cons, List.lookup_cons, ih]
    split <;> rfl

/-- A property as it is written, a pair of name and plan. -/
def pairOf? : Json → Option (String × Plan)
  | .array [.string name, j] => (ofJson? j).map (name, ·)
  | _ => none

theorem plansOf?_eq (js : List Json) : plansOf? js = js.mapM ofJson? := by
  induction js with
  | nil => rfl
  | cons j js ih => rw [plansOf?, ih, List.mapM_cons]

theorem pairsOf?_eq (js : List Json) : pairsOf? js = js.mapM pairOf? := by
  induction js with
  | nil => rfl
  | cons j js ih =>
    rw [List.mapM_cons, ← ih]
    by_cases hj : ∃ name i, j = .array [.string name, i]
    · obtain ⟨name, i, rfl⟩ := hj
      rw [pairsOf?, pairOf?]
      cases ofJson? i <;> rfl
    · have hpair : pairOf? j = none := by
        rw [pairOf?]
        rintro name i rfl
        exact hj ⟨name, i, rfl⟩
      have hpairs : pairsOf? (j :: js) = none := by
        rw [pairsOf?]
        · simp
        · rintro name i rest h
          obtain ⟨rfl, -⟩ := List.cons.inj h
          exact hj ⟨name, i, rfl⟩
      rw [hpair, hpairs]
      rfl

/-- Reading a document in all the ways in which the parts of a step are read does not depend on the
order of members. -/
structure ReadsAlike (j : Json) : Prop where
  plan : ofJson? j.sorted = ofJson? j
  items : itemsOfJson? j.sorted = itemsOfJson? j
  properties : propertiesOfJson? j.sorted = propertiesOfJson? j
  pair : pairOf? j.sorted = pairOf? j
  step : ∀ tag, (partsOfJson? j.sorted).bind (ofStep? tag) = (partsOfJson? j).bind (ofStep? tag)

theorem ofJson?_eq_none {ms : List (String × Json)} (h : ms.length ≠ 1) :
    ofJson? (.object ms) = none := by
  rcases ms with _ | ⟨m, _ | ⟨m', ms⟩⟩
  · rfl
  · exact absurd rfl h
  · rfl

theorem option_read {j : Json} (h : j ≠ .null) :
    (PlanPart.read j).option = (ofJson? j).map some := by
  cases j <;> first | rfl | exact absurd rfl h

section Members

variable {ms : List (String × Json)} (h : ∀ m ∈ ms, ReadsAlike m.2)

include h

/-- What is done with the part under a key does not depend on the order of members if it does not
depend on the order inside the part. -/
theorem elim_lookup_sorted {α : Type} (a : α) (g : PlanPart → α)
    (hg : ∀ j, ReadsAlike j → g (.read j.sorted) = g (.read j)) (key : String) :
    ((partsOfMembers (Json.sortedMembers ms)).lookup key).elim a g =
      ((partsOfMembers ms).lookup key).elim a g := by
  rw [lookup_partsOfMembers, lookup_partsOfMembers, Json.lookup_sortedMembers]
  cases hkey : ms.lookup key with
  | none => rfl
  | some j =>
    obtain ⟨l, r, hms, -⟩ := List.lookup_eq_some_iff.1 hkey
    exact hg j (h (key, j) (by simp [hms]))

theorem bind_lookup_sorted {α : Type} (g : PlanPart → Option α)
    (hg : ∀ j, ReadsAlike j → g (.read j.sorted) = g (.read j)) (key : String) :
    ((partsOfMembers (Json.sortedMembers ms)).lookup key).bind g =
      ((partsOfMembers ms).lookup key).bind g := by
  have hbind : ∀ o : Option PlanPart, o.bind g = o.elim none g := by
    rintro (_ | part) <;> rfl
  rw [hbind, hbind, elim_lookup_sorted h none g hg]

/-- A step does not depend on the order of the members of its record. -/
theorem ofStep?_sorted (tag : String) :
    ofStep? tag (partsOfMembers (Json.sortedMembers ms)) = ofStep? tag (partsOfMembers ms) := by
  have hplan := bind_lookup_sorted h (·.plan) fun j hj => hj.plan
  have hplans := bind_lookup_sorted h (·.plans) fun j hj => hj.items
  have hproperties := bind_lookup_sorted h (·.properties) fun j hj => hj.properties
  have hoption := elim_lookup_sorted h (some none) (·.option) fun j hj => by
    by_cases hnull : j = .null
    · rw [hnull]
      rfl
    · rw [option_read hnull, option_read (mt Json.sorted_eq_null.1 hnull), hj.plan]
  have hcount : Json.optional? Json.nat?
        (((partsOfMembers (Json.sortedMembers ms)).lookup "max_count").map (·.document)) =
      Json.optional? Json.nat? (((partsOfMembers ms).lookup "max_count").map (·.document)) := by
    rw [lookup_partsOfMembers, lookup_partsOfMembers, Json.lookup_sortedMembers]
    simpa [Function.comp_def, PlanPart.read] using
      Json.optional?_sorted Json.nat?_sorted (ms.lookup "max_count")
  have hother : ∀ {α : Type} {decode : Json → Option α}, (∀ j, decode j.sorted = decode j) →
      ∀ key, ((partsOfMembers (Json.sortedMembers ms)).lookup key).bind
          (fun part => decode part.document) =
        ((partsOfMembers ms).lookup key).bind (fun part => decode part.document) :=
    fun hdecode => bind_lookup_sorted h _ fun j _ => hdecode j
  unfold ofStep?
  simp only [hplan, hplans, hproperties, hoption, hcount, hother TypeId.ofJson?_sorted,
    hother FieldId.ofJson?_sorted, hother Json.string?_sorted, hother ValueShape.ofJson?_sorted,
    hother Variable.ofJson?_sorted, hother RelationSide.ofJson?_sorted,
    hother BinaryOperator.ofJson?_sorted, hother UnaryOperator.ofJson?_sorted,
    hother Value.ofJson?_sorted]

end Members

theorem readsAlike (j : Json) : ReadsAlike j := by
  induction j using Json.induct with
  | null | bool | int | float | string | void => exact ⟨rfl, rfl, rfl, rfl, fun _ => rfl⟩
  | array js ih =>
    refine ⟨rfl, ?_, ?_, ?_, fun _ => rfl⟩
    · rw [Json.sorted, itemsOfJson?, itemsOfJson?, plansOf?_eq, plansOf?_eq, Json.sortedItems_eq,
        List.mapM_map]
      exact mapM_congr fun j hj => (ih j hj).plan
    · rw [Json.sorted, propertiesOfJson?, propertiesOfJson?, pairsOf?_eq, pairsOf?_eq,
        Json.sortedItems_eq, List.mapM_map]
      exact mapM_congr fun j hj => (ih j hj).pair
    · rw [Json.sorted, Json.sortedItems_eq]
      rcases js with _ | ⟨i, _ | ⟨j, _ | ⟨k, js⟩⟩⟩
      · rfl
      · cases i <;> rfl
      · have hj : ofJson? j.sorted = ofJson? j := (ih j (by simp)).plan
        cases i <;> simp [Json.sorted, pairOf?, hj]
      · cases i <;> rfl
  | object ms ih =>
    refine ⟨?_, rfl, rfl, rfl, fun tag => ofStep?_sorted ih tag⟩
    rw [Json.sorted]
    obtain ⟨tag, j, rfl, hsorted⟩ | ⟨hms, hsorted⟩ := Json.sortedMembers_cases ms
    · rw [hsorted, ofJson?, ofJson?]
      exact (ih (tag, j) (by simp)).step tag
    · rw [ofJson?_eq_none hms, ofJson?_eq_none hsorted]

/-- Reading a plan does not depend on the order of members. -/
theorem ofJson?_sorted (j : Json) : ofJson? j.sorted = ofJson? j := (readsAlike j).plan

end Plan

end EntityGraph
