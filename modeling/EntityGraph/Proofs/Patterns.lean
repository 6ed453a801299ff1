import EntityGraph.Text.Identifier
import Mathlib.Computability.Language

/-!
# What patterns stand for

A pattern stands for a formal language, put together by concatenation, choice and repetition. The
functions that check texts know nothing of patterns; that they decide the same is a theorem for each
of them, here for identifiers.

## Main definitions

* `Pattern.language` — the texts that a pattern matches from beginning to end

## Main results

* `mem_kstar_chars` — repeating a class of characters leaves only their kind to check
* `isIdentifier_iff` — identifiers are the words of their pattern
-/

namespace EntityGraph

open scoped Computability

/-- The words of one character of the given kind. -/
def chars (p : Char → Prop) : Language Char := {cs | ∃ c, p c ∧ cs = [c]}

theorem mem_chars {p : Char → Prop} {cs : List Char} : cs ∈ chars p ↔ ∃ c, p c ∧ cs = [c] :=
  Iff.rfl

theorem mem_kstar_chars {p : Char → Prop} {cs : List Char} : cs ∈ (chars p)∗ ↔ ∀ c ∈ cs, p c := by
  rw [Language.mem_kstar]
  constructor
  · rintro ⟨words, rfl, hwords⟩ c hc
    obtain ⟨word, hword, hc⟩ := List.mem_flatten.1 hc
    obtain ⟨d, hd, rfl⟩ := mem_chars.1 (hwords word hword)
    rwa [List.mem_singleton.1 hc]
  · intro hcs
    refine ⟨cs.map fun c => [c], ?_, List.forall_mem_map.2 ?_⟩
    · rw [← List.flatMap_def, List.flatMap_singleton']
    · exact fun c hc => mem_chars.2 ⟨c, hcs c hc, rfl⟩

/-- A class of characters followed by another one any number of times. -/
theorem cons_mem_chars_mul_kstar {p q : Char → Prop} {c : Char} {cs : List Char} :
    c :: cs ∈ chars p * (chars q)∗ ↔ p c ∧ ∀ d ∈ cs, q d := by
  rw [Language.mem_mul]
  constructor
  · rintro ⟨w, hw, rest, hrest, heq⟩
    obtain ⟨d, hd, rfl⟩ := mem_chars.1 hw
    obtain ⟨rfl, rfl⟩ := List.cons.inj heq
    exact ⟨hd, mem_kstar_chars.1 hrest⟩
  · rintro ⟨hc, hcs⟩
    exact ⟨[c], mem_chars.2 ⟨c, hc, rfl⟩, cs, mem_kstar_chars.2 hcs, rfl⟩

theorem nil_notMem_chars_mul {p : Char → Prop} {l : Language Char} : [] ∉ chars p * l := by
  rw [Language.mem_mul]
  rintro ⟨w, hw, rest, -, heq⟩
  obtain ⟨d, -, rfl⟩ := mem_chars.1 hw
  cases heq

namespace Pattern

/-- The texts that a pattern matches from beginning to end. -/
def language : Pattern → Language Char
  | char c => {[c]}
  | digit => chars (CharRange.mk '0' '9').Contains
  | oneOf ranges => chars fun c => ∃ r ∈ ranges, r.Contains c
  | seq p q => p.language * q.language
  | either p q => p.language + q.language
  | optional p => 1 + p.language
  | star p => p.language∗
  | plus p => p.language * p.language∗
  | times p count => p.language ^ count

end Pattern

theorem CharRange.contains_single {c d : Char} : (single c).Contains d ↔ d = c :=
  ⟨fun h => Char.le_antisymm h.2 h.1, fun h => h ▸ ⟨Char.le_refl d, Char.le_refl d⟩⟩

theorem isLower_iff {c : Char} : c.isLower = true ↔ (CharRange.mk 'a' 'z').Contains c :=
  Bool.and_eq_true_iff.trans (and_congr decide_eq_true_iff decide_eq_true_iff)

theorem isUpper_iff {c : Char} : c.isUpper = true ↔ (CharRange.mk 'A' 'Z').Contains c :=
  decide_eq_true_iff

theorem isDigit_iff {c : Char} : c.isDigit = true ↔ (CharRange.mk '0' '9').Contains c :=
  Bool.and_eq_true_iff.trans (and_congr decide_eq_true_iff decide_eq_true_iff)

theorem isAlpha_iff {c : Char} : c.isAlpha = true ↔ c.isUpper = true ∨ c.isLower = true :=
  Bool.or_eq_true_iff

theorem isIdentifierStart_iff {c : Char} : isIdentifierStart c = true ↔
    ∃ r ∈ [.single '_', ⟨'a', 'z'⟩, ⟨'A', 'Z'⟩], CharRange.Contains r c := by
  simp only [isIdentifierStart, Bool.or_eq_true, beq_iff_eq, isAlpha_iff, isLower_iff, isUpper_iff,
    List.mem_cons, List.not_mem_nil, or_false, exists_eq_or_imp, exists_eq_left,
    CharRange.contains_single]
  tauto

theorem isIdentifierPart_iff {c : Char} : isIdentifierPart c = true ↔
    ∃ r ∈ [.single '_', ⟨'a', 'z'⟩, ⟨'A', 'Z'⟩, ⟨'0', '9'⟩], CharRange.Contains r c := by
  simp only [isIdentifierPart, Char.isAlphanum, Bool.or_eq_true, beq_iff_eq, isAlpha_iff,
    isLower_iff, isUpper_iff, isDigit_iff, List.mem_cons, List.not_mem_nil, or_false,
    exists_eq_or_imp, exists_eq_left, CharRange.contains_single]
  tauto

/-- **Identifiers are the words of their pattern.** -/
theorem isIdentifier_iff (cs : List Char) :
    isIdentifier cs = true ↔ cs ∈ identifierPattern.language := by
  rw [identifierPattern, Pattern.language, Pattern.language, Pattern.language, Pattern.language]
  cases cs with
  | nil => exact iff_of_false Bool.false_ne_true nil_notMem_chars_mul
  | cons c cs =>
    simp only [isIdentifier_cons, isIdentifierStart_iff, isIdentifierPart_iff,
      cons_mem_chars_mul_kstar]

end EntityGraph
