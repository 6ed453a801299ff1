import Mathlib
import EntityGraph.Json.FloatBits
import EntityGraph.Proofs.JsonTokens
import EntityGraph.Proofs.MemberOrder

/-!
# Floats by their bits, and back

A float is its 64 bits, so the document that gives them gives the float back, and two floats with
one document are the same, a zero and a negative zero kept apart. Objects that hold the key of the
bits and nothing else are the only ones that could be taken for a float.

The whole library is imported for `Float.ofBits_toBits` alone, which none of its parts has.

## Main definitions

* `Json.Untagged` — no object of a document holds the key of the bits alone

## Main results

* `Json.withFloats_withFloatBits` — an untagged document is the same after writing its floats by
  their bits and reading them
* `Json.withFloats_sorted` — reading the bits does not depend on the order of members
-/

namespace EntityGraph

namespace Json

/-! ### Bits -/

/-- Hexadecimal digits read back as the number they were written for, up to their width. -/
theorem ofHex?_hexText (width n : Nat) : ofHex? (hexText width n) = some (n % 16 ^ width) := by
  rw [ofHex?]
  induction width generalizing n with
  | zero => simp [hexText, Nat.mod_one]
  | succ width ih =>
    rw [hexText, List.foldlM_append, ih]
    simp only [List.foldlM_cons, List.foldlM_nil, hexDigit?_digitChar_mod]
    simp [Nat.pow_succ, Nat.mul_comm (16 ^ width), Nat.mod_mul, Nat.add_comm]

theorem floatOfBits?_hexText (x : Float) :
    floatOfBits? [(floatKey, .string (String.ofList (hexText 16 x.toBits.toNat)))] = some x := by
  simp [floatOfBits?, ofHex?_hexText, Float.ofBits_toBits]

theorem withFloats_ofFloatBits (x : Float) : (ofFloatBits x).withFloats = .float x := by
  rw [ofFloatBits, withFloats, floatOfBits?_hexText]

/-! ### Items and members -/

theorem itemsWithFloatBits_eq (js : List Json) : itemsWithFloatBits js = js.map withFloatBits := by
  induction js with
  | nil => rfl
  | cons j js ih => rw [itemsWithFloatBits, ih, List.map_cons]

theorem itemsWithFloats_eq (js : List Json) : itemsWithFloats js = js.map withFloats := by
  induction js with
  | nil => rfl
  | cons j js ih => rw [itemsWithFloats, ih, List.map_cons]

theorem membersWithFloatBits_eq (ms : List (String × Json)) :
    membersWithFloatBits ms = ms.map fun m => (m.1, m.2.withFloatBits) := by
  induction ms with
  | nil => rfl
  | cons m ms ih =>
    obtain ⟨k, j⟩ := m
    rw [membersWithFloatBits, ih, List.map_cons]

theorem membersWithFloats_eq (ms : List (String × Json)) :
    membersWithFloats ms = ms.map fun m => (m.1, m.2.withFloats) := by
  induction ms with
  | nil => rfl
  | cons m ms ih =>
    obtain ⟨k, j⟩ := m
    rw [membersWithFloats, ih, List.map_cons]

/-- An object with other keys than the key of the bits alone is no float. -/
theorem floatOfBits?_eq_none {ms : List (String × Json)} (h : ms.map (·.1) ≠ [floatKey]) :
    floatOfBits? ms = none := by
  rcases ms with _ | ⟨⟨k, j⟩, _ | ⟨m, ms⟩⟩
  · rfl
  · have hk : k ≠ floatKey := by simpa using h
    cases j <;> simp [floatOfBits?, hk]
  · cases j <;> rfl

/-! ### Untagged documents -/

/-- No object of the document holds the key of the bits alone. -/
inductive Untagged : Json → Prop
  | null : Untagged .null
  | bool (b : Bool) : Untagged (.bool b)
  | int (n : Int) : Untagged (.int n)
  | float (x : Float) : Untagged (.float x)
  | string (s : String) : Untagged (.string s)
  | array {items : List Json} : (∀ j ∈ items, Untagged j) → Untagged (.array items)
  | object {members : List (String × Json)} : members.map (·.1) ≠ [floatKey] →
    (∀ m ∈ members, Untagged m.2) → Untagged (.object members)

attribute [simp] Untagged.null Untagged.bool Untagged.int Untagged.string

@[simp] theorem untagged_array {js : List Json} : (array js).Untagged ↔ ∀ j ∈ js, j.Untagged :=
  ⟨fun h => by cases h; assumption, .array⟩

@[simp] theorem untagged_object {ms : List (String × Json)} :
    (object ms).Untagged ↔ ms.map (·.1) ≠ [floatKey] ∧ ∀ m ∈ ms, m.2.Untagged :=
  ⟨fun h => by cases h; exact ⟨‹_›, ‹_›⟩, fun h => .object h.1 h.2⟩

/-- Floats that are written by their bits are read back, and nothing else is taken for a float. -/
theorem withFloats_withFloatBits {j : Json} (h : j.Untagged) : j.withFloatBits.withFloats = j := by
  induction h with
  | null | bool | int | string => rfl
  | float x => exact withFloats_ofFloatBits x
  | @array js _ ih =>
    rw [withFloatBits, withFloats, itemsWithFloats_eq, itemsWithFloatBits_eq, List.map_map]
    congr 1
    exact (List.map_congr_left ih).trans (List.map_id js)
  | @object ms hkeys _ ih =>
    have hnone : floatOfBits? (membersWithFloatBits ms) = none := by
      refine floatOfBits?_eq_none ?_
      rwa [membersWithFloatBits_eq, List.map_map]
    rw [withFloatBits, withFloats, hnone]
    simp only [membersWithFloats_eq, membersWithFloatBits_eq, List.map_map]
    congr 1
    refine (List.map_congr_left fun m hm => ?_).trans (List.map_id ms)
    exact congrArg (m.1, ·) (ih m hm)

/-! ### The order of members -/

theorem membersWithFloats_putMember (k : String) (j : Json) (ms : List (String × Json)) :
    membersWithFloats (putMember k j ms) = putMember k j.withFloats (membersWithFloats ms) := by
  induction ms with
  | nil => rfl
  | cons m ms ih =>
    obtain ⟨l, i⟩ := m
    rw [putMember, membersWithFloats, putMember]
    split
    · rfl
    · rw [membersWithFloats, ih]

theorem floatOfBits?_sorted (ms : List (String × Json)) :
    floatOfBits? (sortedMembers ms) = floatOfBits? ms := by
  obtain ⟨k, j, rfl, hsorted⟩ | ⟨hms, hsorted⟩ := sortedMembers_cases ms
  · rw [hsorted]
    cases j <;> rfl
  · have hnone : ∀ {ns : List (String × Json)}, ns.length ≠ 1 → floatOfBits? ns = none := by
      refine fun hlength => floatOfBits?_eq_none fun hkeys => hlength ?_
      simpa using congrArg List.length hkeys
    rw [hnone hms, hnone hsorted]

/-- Reading the bits of floats does not depend on the order of members. -/
theorem withFloats_sorted (j : Json) : j.sorted.withFloats = j.withFloats.sorted := by
  induction j using Json.induct with
  | null | bool | int | float | string | void => rfl
  | array js ih =>
    simp only [sorted, withFloats, sortedItems_eq, itemsWithFloats_eq, List.map_map]
    congr 1
    exact List.map_congr_left ih
  | object ms ih =>
    rw [sorted, withFloats, withFloats, floatOfBits?_sorted]
    cases floatOfBits? ms with
    | some x => rfl
    | none =>
      simp only [sorted]
      congr 1
      induction ms with
      | nil => rfl
      | cons m ms ih' =>
        obtain ⟨k, j⟩ := m
        obtain ⟨hj, hms⟩ := List.forall_mem_cons.1 ih
        rw [sortedMembers, membersWithFloats_putMember, ih' hms, membersWithFloats, sortedMembers,
          ← hj]

end Json

end EntityGraph
