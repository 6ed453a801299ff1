import EntityGraph.Json.Reader
import EntityGraph.Json.Writer
import Mathlib.Data.List.DropRight

/-!
# Numbers and text, read back

The reader takes a number up to the first character that does not continue it, and text up to its
closing quote. What follows is therefore no part of the reading, and what was written for an integer
or a text is read back in front of anything that may follow it in a document.

## Main definitions

* `Json.EndsNumber` — what may follow a number

## Main results

* `Json.readNumber_append` — the reading of a number does not depend on what follows
* `Json.readNumber_toDigits` — decimal digits are read back as the integer
* `Json.readText_textChars` — text in quotes is read back
-/

namespace EntityGraph

namespace Json

/-! ### Blanks -/

theorem skipBlanks_cons {c : Char} (h : isBlank c = false) (cs : List Char) :
    skipBlanks (c :: cs) = c :: cs := by
  rw [skipBlanks, List.dropWhile_cons_of_neg (by simp [h])]

theorem isBlank_of_isDigit {c : Char} (h : c.isDigit = true) : isBlank c = false := by
  have hne : ∀ d : Char, d.isDigit = false → c ≠ d := by
    rintro d hd rfl
    rw [h] at hd
    cases hd
  simp [isBlank, hne]

theorem skipBlanks_skipBlanks (cs : List Char) : skipBlanks (skipBlanks cs) = skipBlanks cs :=
  List.dropWhile_idempotent isBlank cs

theorem skipBlanks_append {cs : List Char} (h : skipBlanks cs ≠ []) (rest : List Char) :
    skipBlanks (cs ++ rest) = skipBlanks cs ++ rest := by
  rw [skipBlanks] at h ⊢
  rw [List.dropWhile_append, if_neg (by simpa using h), skipBlanks]

theorem skipBlanks_append_of_nil {cs : List Char} (h : skipBlanks cs = []) (rest : List Char) :
    skipBlanks (cs ++ rest) = skipBlanks rest := by
  rw [skipBlanks] at h ⊢
  rw [List.dropWhile_append, if_pos (by simpa using h), skipBlanks]

/-! ### Numbers -/

/-- Nothing at the front continues a number. -/
def EndsNumber (rest : List Char) : Prop :=
  ∀ c ∈ rest.head?, c.isDigit = false ∧ c ≠ '.' ∧ c ≠ 'e' ∧ c ≠ 'E'

theorem takeDigits_eq_iff {cs ds r : List Char} :
    takeDigits cs = (ds, r) ↔
      cs = ds ++ r ∧ (∀ c ∈ ds, c.isDigit = true) ∧ ∀ c ∈ r.head?, c.isDigit = false := by
  constructor
  · intro h
    obtain ⟨rfl, rfl⟩ := Prod.mk.inj h
    refine ⟨List.takeWhile_append_dropWhile.symm, fun c hc => List.mem_takeWhile_imp hc, ?_⟩
    intro c hc
    have := List.head?_dropWhile_not Char.isDigit cs
    rw [Option.mem_def.1 hc] at this
    simpa using this
  · rintro ⟨rfl, hds, hr⟩
    have htake : r.takeWhile Char.isDigit = [] ∧ r.dropWhile Char.isDigit = r := by
      cases r with
      | nil => exact ⟨rfl, rfl⟩
      | cons c r => simp [hr c rfl]
    rw [takeDigits, List.takeWhile_append_of_pos hds, List.dropWhile_append_of_pos hds, htake.1,
      htake.2, List.append_nil]

theorem readWhole_eq_some_iff {cs ds r : List Char} :
    readWhole cs = some (ds, r) ↔
      takeDigits cs = (ds, r) ∧ ds ≠ [] ∧ ∀ d tail, ds ≠ '0' :: d :: tail := by
  rw [readWhole]
  split <;> grind

theorem readFraction_eq_some_iff {cs r : List Char} {fraction : Option (List Char)} :
    readFraction cs = some (fraction, r) ↔
      (∃ tail ds, cs = '.' :: tail ∧ takeDigits tail = (ds, r) ∧ ds ≠ [] ∧ fraction = some ds) ∨
        (cs.head? ≠ some '.' ∧ fraction = none ∧ r = cs) := by
  rw [readFraction.eq_def]
  split
  · next tail =>
    split <;> grind
  · next hpoint =>
    have hhead : cs.head? ≠ some '.' := by
      cases cs with
      | nil => simp
      | cons c cs =>
        rintro ⟨⟩
        exact hpoint cs rfl
    grind

theorem readExponent_eq_some_iff {cs r : List Char} {exponent : Option Int} :
    readExponent cs = some (exponent, r) ↔
      (∃ c tail ds, cs = c :: tail ∧ (c = 'e' ∨ c = 'E') ∧
          takeDigits (readSign tail).2 = (ds, r) ∧ ds ≠ [] ∧
          exponent = some (if (readSign tail).1 then -(ofDigits ds : Int) else ofDigits ds)) ∨
        (cs.head? ≠ some 'e' ∧ cs.head? ≠ some 'E' ∧ exponent = none ∧ r = cs) := by
  cases cs with
  | nil =>
    rw [readExponent]
    grind
  | cons c tail =>
    rw [readExponent]
    split
    · split
      grind
    · grind

theorem readSign_append {cs : List Char} (h : cs ≠ []) (rest : List Char) :
    readSign (cs ++ rest) = ((readSign cs).1, (readSign cs).2 ++ rest) := by
  obtain ⟨c, tail, rfl⟩ := List.exists_cons_of_ne_nil h
  by_cases hminus : c = '-'
  · subst hminus
    rfl
  · by_cases hplus : c = '+'
    · subst hplus
      rfl
    · simp [readSign, hminus, hplus]

section Append

variable {cs r rest : List Char} (hrest : r ≠ [] ∨ EndsNumber rest)

include hrest

theorem takeDigits_append {ds : List Char} (h : takeDigits cs = (ds, r)) :
    takeDigits (cs ++ rest) = (ds, r ++ rest) := by
  obtain ⟨rfl, hds, hr⟩ := takeDigits_eq_iff.1 h
  refine takeDigits_eq_iff.2 ⟨List.append_assoc ds r rest, hds, ?_⟩
  cases r with
  | nil =>
    have hends : EndsNumber rest := hrest.resolve_left (absurd rfl)
    exact fun c hc => (hends c hc).1
  | cons c r => exact hr

theorem readWhole_append {ds : List Char} (h : readWhole cs = some (ds, r)) :
    readWhole (cs ++ rest) = some (ds, r ++ rest) := by
  obtain ⟨htake, hds⟩ := readWhole_eq_some_iff.1 h
  exact readWhole_eq_some_iff.2 ⟨takeDigits_append hrest htake, hds⟩

theorem readFraction_append {fraction : Option (List Char)}
    (h : readFraction cs = some (fraction, r)) :
    readFraction (cs ++ rest) = some (fraction, r ++ rest) := by
  rcases readFraction_eq_some_iff.1 h with ⟨tail, ds, rfl, htake, hds, rfl⟩ | ⟨hpoint, rfl, rfl⟩
  · refine readFraction_eq_some_iff.2 (.inl ⟨tail ++ rest, ds, rfl, ?_, hds, rfl⟩)
    exact takeDigits_append hrest htake
  · refine readFraction_eq_some_iff.2 (.inr ⟨?_, rfl, rfl⟩)
    cases r with
    | nil =>
      have hends : EndsNumber rest := hrest.resolve_left (absurd rfl)
      exact fun hhead => (hends '.' hhead).2.1 rfl
    | cons c r => exact hpoint

theorem readExponent_append {exponent : Option Int} (h : readExponent cs = some (exponent, r)) :
    readExponent (cs ++ rest) = some (exponent, r ++ rest) := by
  rcases readExponent_eq_some_iff.1 h with
    ⟨c, tail, ds, rfl, hc, htake, hds, hexponent⟩ | ⟨hsmall, hcapital, rfl, rfl⟩
  · have htail : tail ≠ [] := by
      rintro rfl
      obtain ⟨rfl, -⟩ := Prod.mk.inj htake
      exact hds rfl
    refine readExponent_eq_some_iff.2 (.inl ⟨c, tail ++ rest, ds, rfl, hc, ?_, hds, ?_⟩)
    · rw [readSign_append htail]
      exact takeDigits_append hrest htake
    · rw [readSign_append htail, hexponent]
  · refine readExponent_eq_some_iff.2 (.inr ?_)
    cases r with
    | nil =>
      have hends : EndsNumber rest := hrest.resolve_left (absurd rfl)
      exact ⟨fun hhead => (hends 'e' hhead).2.2.1 rfl, fun hhead => (hends 'E' hhead).2.2.2 rfl,
        rfl, rfl⟩
    | cons c r => exact ⟨hsmall, hcapital, rfl, rfl⟩

/-- What follows a number does not change how it is read, unless it continues the number. -/
theorem readNumber_append {negative : Bool} {j : Json} (h : readNumber negative cs = some (j, r)) :
    readNumber negative (cs ++ rest) = some (j, r ++ rest) := by
  obtain ⟨⟨whole, cs₁⟩, hwhole, h⟩ := Option.bind_eq_some_iff.1 h
  obtain ⟨⟨fraction, cs₂⟩, hfraction, h⟩ := Option.bind_eq_some_iff.1 h
  obtain ⟨⟨exponent, cs₃⟩, hexponent, h⟩ := Option.bind_eq_some_iff.1 h
  obtain ⟨rfl, rfl⟩ := Prod.mk.inj (Option.some.inj h)
  -- If a reading stops at the end, so do those after it.
  have h₂ : cs₂ ≠ [] ∨ EndsNumber rest := by
    refine hrest.imp_left fun hne hnil => hne ?_
    subst hnil
    exact (Prod.mk.inj (Option.some.inj hexponent)).2.symm
  have h₁ : cs₁ ≠ [] ∨ EndsNumber rest := by
    refine h₂.imp_left fun hne hnil => hne ?_
    subst hnil
    exact (Prod.mk.inj (Option.some.inj hfraction)).2.symm
  rw [readNumber, readWhole_append h₁ hwhole]
  simp [readFraction_append h₂ hfraction, readExponent_append hrest hexponent]

end Append

/-! ### Integers -/

theorem ofDigits_toDigits (n : Nat) : ofDigits (Nat.toDigits 10 n) = n := by
  have h : Nat.ofDigitChars 10 (Nat.toDigits 10 n) 0 = n := Nat.ofDigitChars_ten_toDigits
  rwa [Nat.ofDigitChars_eq_foldl] at h

theorem head?_toDigits_ne_zero {n : Nat} (h : n ≠ 0) : (Nat.toDigits 10 n).head? ≠ some '0' := by
  induction n using Nat.strongRecOn with
  | ind n ih =>
    rw [Nat.toDigits_eq_if (by decide)]
    split
    · next hlt =>
      have hdigit : ∀ m < 10, m ≠ 0 → [Nat.digitChar m].head? ≠ some '0' := by decide
      exact hdigit n hlt h
    · next hge =>
      rw [List.head?_append_of_ne_nil _ Nat.toDigits_ne_nil]
      exact ih (n / 10) (by omega) (by omega)

/-- Decimal digits do not start with a zero, unless that is all there is. -/
theorem toDigits_ne_zero_cons (n : Nat) (d : Char) (tail : List Char) :
    Nat.toDigits 10 n ≠ '0' :: d :: tail := by
  intro h
  by_cases hn : n = 0
  · subst hn
    cases h
  · exact head?_toDigits_ne_zero hn (by rw [h, List.head?_cons])

/-- Decimal digits are read back as the integer with the given sign. -/
theorem readNumber_toDigits {negative : Bool} {n : Nat} {k : Int}
    (hk : (if negative then -(n : Int) else n) = k) (hrange : IntRange k)
    (hzero : ¬(negative = true ∧ n = 0)) :
    readNumber negative (Nat.toDigits 10 n) = some (.int k, []) := by
  have hwhole : readWhole (Nat.toDigits 10 n) = some (Nat.toDigits 10 n, []) := by
    refine readWhole_eq_some_iff.2 ⟨takeDigits_eq_iff.2 ⟨?_, ?_, ?_⟩, ?_, ?_⟩
    · exact (List.append_nil _).symm
    · exact fun c hc => Nat.isDigit_of_mem_toDigits (by decide) (by decide) hc
    · simp
    · exact Nat.toDigits_ne_nil
    · exact toDigits_ne_zero_cons n
  rw [readNumber, hwhole]
  simp [readFraction, readExponent, ofLiteral, ofDigits_toDigits, hk, hrange, hzero]

/-! ### Text in quotes -/

theorem hexDigit?_digitChar_mod (n : Nat) :
    hexDigit? (Nat.digitChar (n % 16)) = some (n % 16) := by
  have hall : ∀ d < 16, hexDigit? (Nat.digitChar d) = some d := by decide
  exact hall (n % 16) (Nat.mod_lt n (by decide))

theorem readHex4_hexText (n : Nat) (rest : List Char) :
    readHex4 (hexText 4 n ++ rest) = some (n % 65536, rest) := by
  have hdigits : n % 65536 =
      4096 * (n / 16 / 16 / 16 % 16) + 256 * (n / 16 / 16 % 16) + 16 * (n / 16 % 16) + n % 16 := by
    omega
  simp [hexText, readHex4, hexDigit?_digitChar_mod, hdigits]

theorem readUnits_plain {c : Char} (hquote : c ≠ '"') (hescape : c ≠ '\\')
    (hcontrol : ¬c.toNat < 0x20) (steps : Nat) (seen : List TextUnit) (rest : List Char) :
    readUnits (steps + 1) seen (c :: rest) = readUnits steps (.char c :: seen) rest := by
  rw [readUnits, if_neg (by simp [hescape, hcontrol])] <;> simp [hquote, hescape]

/-- A character is read back from how it stands in quotes. -/
theorem readUnits_quotedChar (c : Char) (steps : Nat) (seen : List TextUnit) (rest : List Char) :
    readUnits (steps + 1) seen (quotedChar c ++ rest) =
      readUnits steps (.char c :: seen) rest := by
  by_cases hescape : c ∈ ['"', '\\', '\x08', '\t', '\n', '\x0c', '\r']
  · -- The characters with an escape of their own
    simp only [List.mem_cons, List.not_mem_nil, or_false] at hescape
    rcases hescape with rfl | rfl | rfl | rfl | rfl | rfl | rfl <;> rfl
  · simp only [List.mem_cons, List.not_mem_nil, or_false, not_or] at hescape
    obtain ⟨hquote, hslash, hb, ht, hn, hf, hr⟩ := hescape
    rw [quotedChar, if_neg hquote, if_neg hslash, if_neg hb, if_neg ht, if_neg hn, if_neg hf,
      if_neg hr]
    split
    · next hcontrol =>
      have hunit : TextUnit.ofNat (c.toNat % 65536) = .char c := by
        rw [Nat.mod_eq_of_lt (by omega), TextUnit.ofNat, if_neg (by omega), if_neg (by omega),
          Char.ofNat_toNat]
      rw [List.cons_append, List.cons_append, readUnits, readHex4_hexText]
      exact congrArg (fun unit => readUnits steps (unit :: seen) rest) hunit
    · next hcontrol => exact readUnits_plain hquote hslash hcontrol steps seen rest

theorem readUnits_text (cs : List Char) {steps : Nat} (hsteps : cs.length < steps)
    (seen : List TextUnit) (rest : List Char) :
    readUnits steps seen (cs.flatMap quotedChar ++ '"' :: rest) =
      some (seen.reverse ++ cs.map .char, rest) := by
  induction cs generalizing steps seen with
  | nil =>
    obtain ⟨steps, rfl⟩ := Nat.exists_eq_add_of_lt hsteps
    simp [readUnits]
  | cons c cs ih =>
    obtain ⟨steps, rfl⟩ : ∃ s, steps = s + 1 := ⟨steps - 1, by simp at hsteps; omega⟩
    rw [List.flatMap_cons, List.append_assoc, readUnits_quotedChar, ih (by simpa using hsteps)]
    simp

theorem spell_chars (cs : List Char) : spell (cs.map .char) = some cs := by
  induction cs with
  | nil => rfl
  | cons c cs ih => simp [spell, ih]

/-- Text in quotes is read back. -/
theorem readText_textChars (s : String) {steps : Nat} (hsteps : s.toList.length < steps)
    (rest : List Char) :
    readText steps (s.toList.flatMap quotedChar ++ '"' :: rest) = some (some s, rest) := by
  simp [readText, readUnits_text _ hsteps, spell_chars]

end Json

end EntityGraph
