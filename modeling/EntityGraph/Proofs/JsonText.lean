import EntityGraph.Proofs.JsonTokens
import EntityGraph.Proofs.ValueDocuments

/-!
# Documents, written and read back

What is written for a document is read back as the document, in front of anything that may follow
it. The induction is on the document; items and members have an induction of their own along the
list. A float is the caller's to write, so all that is asked of its text is that it is read back
when it stands alone.

## Two bounds

The reader takes at most two steps for each character, and gives no meaning to more than
`nestingLimit` containers inside each other. So a text has to be given enough steps, which
`Json.read?` does, and a document has to fit. What was read fits.

## Main definitions

* `Json.nesting` — how many containers stand inside each other
* `Json.Legible` — the parts of a document that are written can be read back one by one

## Main results

* `Json.read?_write` — a legible document that is not nested too deeply is read back from its text
* `Json.nesting_of_read?` — what is read is not nested too deeply
-/

namespace EntityGraph

namespace Json

/-! ### Nesting -/

mutual

/-- How many containers stand inside each other. -/
def nesting : Json → Nat
  | .array items => itemsNesting items + 1
  | .object members => membersNesting members + 1
  | _ => 0

/-- The greatest nesting of the items. -/
def itemsNesting : List Json → Nat
  | [] => 0
  | j :: rest => max (nesting j) (itemsNesting rest)

/-- The greatest nesting of the members. -/
def membersNesting : List (String × Json) → Nat
  | [] => 0
  | (_, j) :: rest => max (nesting j) (membersNesting rest)

end

theorem nesting_array_le {js : List Json} {n : Nat} :
    (array js).nesting ≤ n + 1 ↔ ∀ j ∈ js, j.nesting ≤ n := by
  rw [nesting, Nat.add_le_add_iff_right]
  induction js with
  | nil => simp [itemsNesting]
  | cons j js ih => rw [itemsNesting, Nat.max_le, ih, List.forall_mem_cons]

theorem nesting_object_le {ms : List (String × Json)} {n : Nat} :
    (object ms).nesting ≤ n + 1 ↔ ∀ m ∈ ms, m.2.nesting ≤ n := by
  rw [nesting, Nat.add_le_add_iff_right]
  induction ms with
  | nil => simp [membersNesting]
  | cons m ms ih =>
    obtain ⟨k, j⟩ := m
    rw [membersNesting, Nat.max_le, ih, List.forall_mem_cons]

/-! ### One document after another -/

theorem readDocument_skipBlanks (steps depth : Nat) (cs : List Char) :
    readDocument steps depth (skipBlanks cs) = readDocument steps depth cs := by
  cases steps with
  | zero => rfl
  | succ steps => rw [readDocument, readDocument, skipBlanks_skipBlanks]

theorem readDocument_minus {cs tail : List Char} (h : skipBlanks cs = '-' :: tail)
    (steps depth : Nat) : readDocument (steps + 1) depth cs = readNumber true tail := by
  rw [readDocument, h]
  rfl

theorem readDocument_digit {c : Char} {cs tail : List Char} (hc : c.isDigit = true)
    (h : skipBlanks cs = c :: tail) (steps depth : Nat) :
    readDocument (steps + 1) depth cs = readNumber false (c :: tail) := by
  rw [readDocument, h]
  split <;> simp_all

/-- The character at the front of a number without its sign. -/
theorem exists_digit_of_readNumber {negative : Bool} {cs r : List Char} {j : Json}
    (h : readNumber negative cs = some (j, r)) : ∃ c tail, cs = c :: tail ∧ c.isDigit = true := by
  obtain ⟨⟨whole, rest⟩, hwhole, -⟩ := Option.bind_eq_some_iff.1 h
  obtain ⟨htake, hne, -⟩ := readWhole_eq_some_iff.1 hwhole
  obtain ⟨rfl, hdigits, -⟩ := takeDigits_eq_iff.1 htake
  obtain ⟨c, tail, rfl⟩ := List.exists_cons_of_ne_nil hne
  exact ⟨c, tail ++ rest, rfl, hdigits c List.mem_cons_self⟩

/-- What reading a document gives: a number, something else without parts, or a container within the
limit with what was read inside it. -/
inductive Reading (steps depth : Nat) (cs : List Char) : Json → List Char → Prop
  | negative {tail r : List Char} {j : Json} (hcs : skipBlanks cs = '-' :: tail)
      (h : readNumber true tail = some (j, r)) : Reading steps depth cs j r
  | number {r : List Char} {j : Json} (h : readNumber false (skipBlanks cs) = some (j, r)) :
      Reading steps depth cs j r
  | null (r : List Char) : Reading steps depth cs .null r
  | bool (b : Bool) (r : List Char) : Reading steps depth cs (.bool b) r
  | string (s : String) (r : List Char) : Reading steps depth cs (.string s) r
  | void (r : List Char) : Reading steps depth cs .void r
  | array {items : List Json} {r : List Char} (hdepth : depth < nestingLimit)
      (h : items = [] ∨ ∃ inner, readItems steps (depth + 1) [] inner = some (items, r)) :
      Reading steps depth cs (.array items) r
  | object {members : List (Option String × Json)} {r : List Char} (hdepth : depth < nestingLimit)
      (h : members = [] ∨ ∃ inner, readMembers steps (depth + 1) [] inner = some (members, r)) :
      Reading steps depth cs (ofMembers members) r

theorem reading_of_readDocument {steps depth : Nat} {cs r : List Char} {j : Json}
    (h : readDocument (steps + 1) depth cs = some (j, r)) : Reading steps depth cs j r := by
  rw [readDocument] at h
  split at h
  · -- Text in quotes
    obtain ⟨⟨text, cs⟩, -, h⟩ := Option.bind_eq_some_iff.1 h
    obtain ⟨rfl, rfl⟩ := Prod.mk.inj (Option.some.inj h)
    cases text with
    | none => exact .void cs
    | some s => exact .string s cs
  · -- An array
    obtain ⟨items, hitems, hj⟩ : ∃ items : List Json,
        (items = [] ∨ ∃ inner, readItems steps (depth + 1) [] inner = some (items, r)) ∧
          j = if depth < nestingLimit then .array items else .void := by
      dsimp only at h
      split at h
      · next rest _ =>
        obtain ⟨rfl, rfl⟩ := Prod.mk.inj (Option.some.inj h)
        exact ⟨[], .inl rfl, rfl⟩
      · next inner _ =>
        obtain ⟨⟨items, rest⟩, hitems, h⟩ := Option.bind_eq_some_iff.1 h
        obtain ⟨rfl, rfl⟩ := Prod.mk.inj (Option.some.inj h)
        exact ⟨items, .inr ⟨_, hitems⟩, rfl⟩
    subst hj
    split
    · next hdepth => exact .array hdepth hitems
    · exact .void r
  · -- An object
    obtain ⟨members, hmembers, hj⟩ : ∃ members : List (Option String × Json),
        (members = [] ∨ ∃ inner, readMembers steps (depth + 1) [] inner = some (members, r)) ∧
          j = if depth < nestingLimit then ofMembers members else .void := by
      dsimp only at h
      split at h
      · obtain ⟨rfl, rfl⟩ := Prod.mk.inj (Option.some.inj h)
        exact ⟨[], .inl rfl, rfl⟩
      · obtain ⟨⟨members, rest⟩, hmembers, h⟩ := Option.bind_eq_some_iff.1 h
        obtain ⟨rfl, rfl⟩ := Prod.mk.inj (Option.some.inj h)
        exact ⟨members, .inr ⟨_, hmembers⟩, rfl⟩
    subst hj
    split
    · next hdepth => exact .object hdepth hmembers
    · exact .void r
  · next tail hcs => exact .negative hcs h
  · obtain ⟨rest, -, h⟩ := Option.map_eq_some_iff.1 h
    cases h
    exact .null r
  · obtain ⟨rest, -, h⟩ := Option.map_eq_some_iff.1 h
    cases h
    exact .bool true r
  · obtain ⟨rest, -, h⟩ := Option.map_eq_some_iff.1 h
    cases h
    exact .bool false r
  · exact .number h

theorem readDocument_of_read? {text : String} {j : Json} (h : read? text = some j) :
    ∃ r, readDocument (2 * text.toList.length + 2) 0 text.toList = some (j, r) ∧
      skipBlanks r = [] := by
  obtain ⟨⟨document, r⟩, hread, h⟩ := Option.bind_eq_some_iff.1 h
  dsimp only at h
  split at h
  · next hempty =>
    obtain rfl := Option.some.inj h
    exact ⟨r, hread, List.isEmpty_iff.1 hempty⟩
  · cases h

/-! ### What is read fits -/

theorem nesting_of_readNumber {negative : Bool} {cs r : List Char} {j : Json}
    (h : readNumber negative cs = some (j, r)) : j.nesting = 0 := by
  obtain ⟨⟨whole, cs₁⟩, -, h⟩ := Option.bind_eq_some_iff.1 h
  obtain ⟨⟨fraction, cs₂⟩, -, h⟩ := Option.bind_eq_some_iff.1 h
  obtain ⟨⟨exponent, cs₃⟩, -, h⟩ := Option.bind_eq_some_iff.1 h
  obtain ⟨rfl, -⟩ := Prod.mk.inj (Option.some.inj h)
  simp only [ofLiteral, ofDecimal]
  repeat' split
  all_goals rfl

theorem nesting_ofMembers_le {members : List (Option String × Json)} {n : Nat}
    (h : ∀ m ∈ members, m.2.nesting ≤ n) : (ofMembers members).nesting ≤ n + 1 := by
  rw [ofMembers]
  split
  · next ms hms =>
    refine nesting_object_le.2 fun m hm => ?_
    obtain ⟨⟨key, j⟩, hj, hkey⟩ := exists_of_mem_mapM_some hms hm
    obtain ⟨k, -, rfl⟩ := Option.map_eq_some_iff.1 hkey
    exact h _ hj
  · exact Nat.zero_le _

/-- Whatever is read with the given steps leaves room for the containers around it. -/
structure LeavesRoom (steps : Nat) : Prop where
  document : ∀ {depth : Nat} {cs r : List Char} {j : Json},
    readDocument steps depth cs = some (j, r) → j.nesting ≤ nestingLimit - depth
  items : ∀ {depth : Nat} {seen items : List Json} {cs r : List Char},
    (∀ j ∈ seen, j.nesting ≤ nestingLimit - depth) →
      readItems steps depth seen cs = some (items, r) →
        ∀ j ∈ items, j.nesting ≤ nestingLimit - depth
  members : ∀ {depth : Nat} {seen members : List (Option String × Json)} {cs r : List Char},
    (∀ m ∈ seen, m.2.nesting ≤ nestingLimit - depth) →
      readMembers steps depth seen cs = some (members, r) →
        ∀ m ∈ members, m.2.nesting ≤ nestingLimit - depth

theorem LeavesRoom.readDocument_succ {steps : Nat} (hroom : LeavesRoom steps) {depth : Nat}
    {cs r : List Char} {j : Json} (h : readDocument (steps + 1) depth cs = some (j, r)) :
    j.nesting ≤ nestingLimit - depth := by
  cases reading_of_readDocument h with
  | negative _ h | number h => exact (nesting_of_readNumber h).trans_le (Nat.zero_le _)
  | null | bool | string | void => exact Nat.zero_le _
  | array hdepth h =>
    rw [show nestingLimit - depth = nestingLimit - (depth + 1) + 1 by omega]
    refine nesting_array_le.2 fun j hj => ?_
    rcases h with rfl | ⟨inner, h⟩
    · cases hj
    · exact hroom.items (by simp) h j hj
  | object hdepth h =>
    rw [show nestingLimit - depth = nestingLimit - (depth + 1) + 1 by omega]
    refine nesting_ofMembers_le fun m hm => ?_
    rcases h with rfl | ⟨inner, h⟩
    · cases hm
    · exact hroom.members (by simp) h m hm

theorem LeavesRoom.readItems_succ {steps : Nat} (hroom : LeavesRoom steps) {depth : Nat}
    {seen items : List Json} {cs r : List Char}
    (hseen : ∀ j ∈ seen, j.nesting ≤ nestingLimit - depth)
    (h : readItems (steps + 1) depth seen cs = some (items, r)) :
    ∀ j ∈ items, j.nesting ≤ nestingLimit - depth := by
  obtain ⟨⟨item, cs₁⟩, hitem, h⟩ := Option.bind_eq_some_iff.1 h
  have hseen' : ∀ j ∈ item :: seen, j.nesting ≤ nestingLimit - depth :=
    List.forall_mem_cons.2 ⟨hroom.document hitem, hseen⟩
  dsimp only at h
  split at h
  · exact hroom.items hseen' h
  · obtain ⟨rfl, -⟩ := Prod.mk.inj (Option.some.inj h)
    exact fun j hj => hseen' j (List.mem_reverse.1 hj)
  · cases h

theorem LeavesRoom.readMembers_succ {steps : Nat} (hroom : LeavesRoom steps) {depth : Nat}
    {seen members : List (Option String × Json)} {cs r : List Char}
    (hseen : ∀ m ∈ seen, m.2.nesting ≤ nestingLimit - depth)
    (h : readMembers (steps + 1) depth seen cs = some (members, r)) :
    ∀ m ∈ members, m.2.nesting ≤ nestingLimit - depth := by
  rw [readMembers] at h
  split at h
  · obtain ⟨⟨key, cs₁⟩, -, h⟩ := Option.bind_eq_some_iff.1 h
    obtain ⟨cs₂, -, h⟩ := Option.bind_eq_some_iff.1 h
    obtain ⟨⟨value, cs₃⟩, hvalue, h⟩ := Option.bind_eq_some_iff.1 h
    have hseen' : ∀ m ∈ (key, value) :: seen, m.2.nesting ≤ nestingLimit - depth :=
      List.forall_mem_cons.2 ⟨hroom.document hvalue, hseen⟩
    dsimp only at h
    split at h
    · exact hroom.members hseen' h
    · obtain ⟨rfl, -⟩ := Prod.mk.inj (Option.some.inj h)
      exact fun m hm => hseen' m (List.mem_reverse.1 hm)
    · cases h
  · cases h

theorem leavesRoom (steps : Nat) : LeavesRoom steps := by
  induction steps with
  | zero => exact ⟨nofun, fun _ => nofun, fun _ => nofun⟩
  | succ steps ih => exact ⟨ih.readDocument_succ, ih.readItems_succ, ih.readMembers_succ⟩

/-- What is read is not nested too deeply. -/
theorem nesting_of_read? {text : String} {j : Json} (h : read? text = some j) :
    j.nesting ≤ nestingLimit := by
  obtain ⟨r, hread, -⟩ := readDocument_of_read? h
  exact (leavesRoom _).document hread

/-! ### What is written -/

/-- The parts of a document that stand for themselves are read back: its integers are in range, its
floats are written as texts that read as them, and nothing is void. -/
inductive Legible (number : Float → String) : Json → Prop
  | null : Legible number .null
  | bool (b : Bool) : Legible number (.bool b)
  | int {n : Int} : IntRange n → Legible number (.int n)
  | float {x : Float} : read? (number x) = some (.float x) → Legible number (.float x)
  | string (s : String) : Legible number (.string s)
  | array {items : List Json} : (∀ j ∈ items, Legible number j) → Legible number (.array items)
  | object {members : List (String × Json)} : (∀ m ∈ members, Legible number m.2) →
    Legible number (.object members)

attribute [simp] Legible.null Legible.bool Legible.string

@[simp] theorem legible_array {number : Float → String} {js : List Json} :
    (array js).Legible number ↔ ∀ j ∈ js, j.Legible number :=
  ⟨fun h => by cases h; assumption, .array⟩

@[simp] theorem legible_object {number : Float → String} {ms : List (String × Json)} :
    (object ms).Legible number ↔ ∀ m ∈ ms, m.2.Legible number :=
  ⟨fun h => by cases h; assumption, .object⟩

/-- Reading gives the document and stops in front of the rest, up to blanks. -/
def ReadsTo (steps depth : Nat) (cs : List Char) (j : Json) (rest : List Char) : Prop :=
  ∃ r, readDocument steps depth cs = some (j, r) ∧ skipBlanks r = skipBlanks rest

theorem readsTo_of_eq {steps depth : Nat} {cs rest : List Char} {j : Json}
    (h : readDocument steps depth cs = some (j, rest)) : ReadsTo steps depth cs j rest :=
  ⟨rest, h, rfl⟩

section Numbers

variable {rest : List Char} (hrest : EndsNumber rest)

include hrest

theorem readDocument_intChars {n : Int} (h : IntRange n) (steps depth : Nat) :
    readDocument (steps + 1) depth (intChars n ++ rest) = some (.int n, rest) := by
  rw [intChars]
  split
  · next hneg =>
    have hn : -(n.natAbs : Int) = n := by omega
    have hread : readNumber true (Nat.toDigits 10 n.natAbs) = some (.int n, []) :=
      readNumber_toDigits ((if_pos rfl).trans hn) h (by omega)
    rw [List.cons_append, readDocument_minus (skipBlanks_cons rfl _),
      readNumber_append (.inr hrest) hread, List.nil_append]
  · next hneg =>
    have hn : (n.natAbs : Int) = n := by omega
    have hread : readNumber false (Nat.toDigits 10 n.natAbs) = some (.int n, []) :=
      readNumber_toDigits ((if_neg (by decide)).trans hn) h (by simp)
    obtain ⟨c, tail, hcs, hc⟩ := exists_digit_of_readNumber hread
    rw [hcs] at hread ⊢
    rw [List.cons_append, readDocument_digit hc (skipBlanks_cons (isBlank_of_isDigit hc) _),
      ← List.cons_append, readNumber_append (.inr hrest) hread, List.nil_append]

/-- A text that reads as a float when it stands alone reads as it in a document. -/
theorem readsTo_float {text : String} {x : Float} (h : read? text = some (.float x))
    (steps depth : Nat) : ReadsTo (steps + 1) depth (text.toList ++ rest) (.float x) rest := by
  obtain ⟨r, hread, hblank⟩ := readDocument_of_read? h
  refine ⟨r ++ rest, ?_, skipBlanks_append_of_nil hblank rest⟩
  generalize hj : Json.float x = j at hread
  cases reading_of_readDocument hread with
  | null | bool | string | void | array => cases hj
  | object =>
    rw [ofMembers] at hj
    split at hj <;> cases hj
  | @negative tail _ _ hcs h =>
    have hskip : skipBlanks (text.toList ++ rest) = '-' :: (tail ++ rest) := by
      rw [skipBlanks_append (by simp [hcs]), hcs, List.cons_append]
    rw [readDocument_minus hskip, readNumber_append (.inr hrest) h]
  | number h =>
    obtain ⟨c, tail, hcs, hc⟩ := exists_digit_of_readNumber h
    have hskip : skipBlanks (text.toList ++ rest) = c :: (tail ++ rest) := by
      rw [skipBlanks_append (by simp [hcs]), hcs, List.cons_append]
    rw [readDocument_digit hc hskip, ← List.cons_append, ← hcs, readNumber_append (.inr hrest) h]

end Numbers

section Text

variable {steps depth : Nat} {rest : List Char}

theorem length_quotedChar_pos (c : Char) : 0 < (quotedChar c).length := by
  grind [quotedChar]

theorem length_le_flatMap_quotedChar (cs : List Char) :
    cs.length ≤ (cs.flatMap quotedChar).length := by
  induction cs with
  | nil => exact Nat.le_refl 0
  | cons c cs ih =>
    have hc := length_quotedChar_pos c
    rw [List.flatMap_cons, List.length_append, List.length_cons]
    omega

theorem length_lt_textChars (s : String) : s.toList.length + 1 < (textChars s).length := by
  have hlength := length_le_flatMap_quotedChar s.toList
  simp only [textChars, List.length_cons, List.length_append, List.length_nil]
  omega

theorem readDocument_textChars {s : String} (hsteps : (textChars s).length ≤ steps)
    (depth : Nat) (rest : List Char) :
    readDocument steps depth (textChars s ++ rest) = some (.string s, rest) := by
  have hlength := length_lt_textChars s
  obtain ⟨steps, rfl⟩ : ∃ k, steps = k + 1 := ⟨steps - 1, by omega⟩
  have htext := readText_textChars s (show s.toList.length < steps by omega) rest
  rw [textChars, readDocument, List.cons_append, skipBlanks_cons rfl, List.append_assoc]
  simp [htext]

theorem readItems_skipBlanks (seen : List Json) (cs : List Char) :
    readItems steps depth seen (skipBlanks cs) = readItems steps depth seen cs := by
  cases steps with
  | zero => rfl
  | succ steps => rw [readItems, readItems, readDocument_skipBlanks]

/-- No item starts with a closing bracket. -/
theorem readItems_eq_none {seen : List Json} {cs tail : List Char}
    (h : skipBlanks cs = ']' :: tail) : readItems steps depth seen cs = none := by
  rcases steps with _ | _ | steps
  · rfl
  · rfl
  · have hdocument : readDocument (steps + 1) depth cs = none := by
      rw [readDocument, h]
      rfl
    rw [readItems, hdocument]
    rfl

/-- An array is read if its items are. -/
theorem readDocument_array {cs : List Char} {items : List Json}
    (h : readItems steps (depth + 1) [] cs = some (items, rest)) (hdepth : depth < nestingLimit) :
    readDocument (steps + 1) depth ('[' :: cs) = some (.array items, rest) := by
  rw [readDocument, skipBlanks_cons rfl]
  simp only [Option.bind_eq_bind, Option.pure_def, if_pos hdepth]
  split
  · next tail hcs =>
    rw [readItems_eq_none hcs] at h
    cases h
  · rw [readItems_skipBlanks, h, Option.bind_some]

theorem ofMembers_some (members : List (String × Json)) :
    ofMembers (members.map fun m => (some m.1, m.2)) = .object members := by
  rw [ofMembers, mapM_map_eq_some]
  intro m _
  rfl

theorem readMembers_skipBlanks (seen : List (Option String × Json)) (cs : List Char) :
    readMembers steps depth seen (skipBlanks cs) = readMembers steps depth seen cs := by
  cases steps with
  | zero => rfl
  | succ steps => rw [readMembers, readMembers, skipBlanks_skipBlanks]

/-- An object is read if its members are. -/
theorem readDocument_object {cs : List Char} {members : List (String × Json)}
    (h : readMembers steps (depth + 1) [] cs = some (members.map fun m => (some m.1, m.2), rest))
    (hdepth : depth < nestingLimit) :
    readDocument (steps + 1) depth ('\x7b' :: cs) = some (.object members, rest) := by
  rw [readDocument, skipBlanks_cons rfl]
  simp only [Option.bind_eq_bind, Option.pure_def, if_pos hdepth]
  split
  · next tail hcs =>
    rw [← readMembers_skipBlanks, hcs] at h
    cases steps <;> cases h
  · rw [readMembers_skipBlanks, h, Option.bind_some, ofMembers_some]

theorem readItems_more {cs : List Char} {j : Json} (h : ReadsTo steps depth cs j (',' :: rest))
    (seen : List Json) :
    readItems (steps + 1) depth seen cs = readItems steps depth (j :: seen) rest := by
  obtain ⟨r, hr, hskip⟩ := h
  rw [skipBlanks_cons rfl] at hskip
  rw [readItems, hr]
  simp [hskip]

theorem readItems_last {cs : List Char} {j : Json} (h : ReadsTo steps depth cs j (']' :: rest))
    (seen : List Json) :
    readItems (steps + 1) depth seen cs = some (seen.reverse ++ [j], rest) := by
  obtain ⟨r, hr, hskip⟩ := h
  rw [skipBlanks_cons rfl] at hskip
  rw [readItems, hr]
  simp [hskip]

section Member

variable {key : String} {cs : List Char} {j : Json} (hkey : key.toList.length < steps)

include hkey

theorem readMembers_more (h : ReadsTo steps depth cs j (',' :: rest))
    (seen : List (Option String × Json)) :
    readMembers (steps + 1) depth seen (textChars key ++ ':' :: cs) =
      readMembers steps depth ((some key, j) :: seen) rest := by
  obtain ⟨r, hr, hskip⟩ := h
  rw [skipBlanks_cons rfl] at hskip
  have hcolon : skipBlanks (':' :: cs) = ':' :: cs := skipBlanks_cons rfl cs
  rw [readMembers, textChars, List.cons_append, skipBlanks_cons rfl]
  simp [readText_textChars key hkey, hcolon, afterWord?, hr, hskip]

theorem readMembers_last (h : ReadsTo steps depth cs j ('\x7d' :: rest))
    (seen : List (Option String × Json)) :
    readMembers (steps + 1) depth seen (textChars key ++ ':' :: cs) =
      some (seen.reverse ++ [(some key, j)], rest) := by
  obtain ⟨r, hr, hskip⟩ := h
  rw [skipBlanks_cons rfl] at hskip
  have hcolon : skipBlanks (':' :: cs) = ':' :: cs := skipBlanks_cons rfl cs
  rw [readMembers, textChars, List.cons_append, skipBlanks_cons rfl]
  simp [readText_textChars key hkey, hcolon, afterWord?, hr, hskip]

end Member

end Text

/-! ### Documents -/

/-- What is written for a document is read back, with enough steps and wherever it fits. -/
def ReadsBack (number : Float → String) (j : Json) : Prop :=
  ∀ (steps depth : Nat) (rest : List Char), 2 * (chars number j).length ≤ steps →
    depth + j.nesting ≤ nestingLimit → EndsNumber rest →
      ReadsTo steps depth (chars number j ++ rest) j rest

section Containers

variable {number : Float → String} {depth : Nat} {rest : List Char}

theorem endsNumber_cons {c : Char} {tail : List Char}
    (h : c.isDigit = false ∧ c ≠ '.' ∧ c ≠ 'e' ∧ c ≠ 'E') : EndsNumber (c :: tail) := by
  rintro _ ⟨⟩
  exact h

theorem itemChars_cons_cons (i j : Json) (js : List Json) :
    itemChars number (i :: j :: js) = chars number i ++ ',' :: itemChars number (j :: js) := by
  rw [itemChars]
  simp

theorem memberChars_cons_cons (m n : String × Json) (ms : List (String × Json)) :
    memberChars number (m :: n :: ms) =
      textChars m.1 ++ ':' :: (chars number m.2 ++ ',' :: memberChars number (n :: ms)) := by
  rw [memberChars]
  simp

theorem readItems_itemChars {js : List Json} (hne : js ≠ [])
    (hjs : ∀ j ∈ js, ReadsBack number j) (hdepth : ∀ j ∈ js, depth + j.nesting ≤ nestingLimit)
    {steps : Nat} (hsteps : 2 * (itemChars number js).length < steps) (seen : List Json) :
    readItems steps depth seen (itemChars number js ++ ']' :: rest) =
      some (seen.reverse ++ js, rest) := by
  induction js generalizing steps seen with
  | nil => exact absurd rfl hne
  | cons j js ih =>
    obtain ⟨steps, rfl⟩ : ∃ k, steps = k + 1 := ⟨steps - 1, by omega⟩
    obtain ⟨hj, hjs⟩ := List.forall_mem_cons.1 hjs
    obtain ⟨hjdepth, hdepth⟩ := List.forall_mem_cons.1 hdepth
    cases js with
    | nil =>
      rw [itemChars] at hsteps ⊢
      refine readItems_last (hj steps depth _ ?_ hjdepth (endsNumber_cons (by decide))) seen
      omega
    | cons i js =>
      rw [itemChars_cons_cons, List.length_append, List.length_cons] at hsteps
      rw [itemChars_cons_cons, List.append_assoc, List.cons_append,
        readItems_more (hj steps depth _ (by omega) hjdepth (endsNumber_cons (by decide))),
        ih (by simp) hjs hdepth (by omega), List.reverse_cons, List.append_assoc,
        List.singleton_append]

theorem readMembers_memberChars {ms : List (String × Json)} (hne : ms ≠ [])
    (hms : ∀ m ∈ ms, ReadsBack number m.2) (hdepth : ∀ m ∈ ms, depth + m.2.nesting ≤ nestingLimit)
    {steps : Nat} (hsteps : 2 * (memberChars number ms).length < steps)
    (seen : List (Option String × Json)) :
    readMembers steps depth seen (memberChars number ms ++ '\x7d' :: rest) =
      some (seen.reverse ++ ms.map fun m => (some m.1, m.2), rest) := by
  induction ms generalizing steps seen with
  | nil => exact absurd rfl hne
  | cons m ms ih =>
    obtain ⟨key, j⟩ := m
    obtain ⟨steps, rfl⟩ : ∃ k, steps = k + 1 := ⟨steps - 1, by omega⟩
    obtain ⟨hj, hms⟩ := List.forall_mem_cons.1 hms
    obtain ⟨hjdepth, hdepth⟩ := List.forall_mem_cons.1 hdepth
    have hkey := length_lt_textChars key
    cases ms with
    | nil =>
      rw [memberChars, List.length_append, List.length_cons] at hsteps
      rw [memberChars, List.append_assoc, List.cons_append]
      refine readMembers_last (by omega)
        (hj steps depth _ ?_ hjdepth (endsNumber_cons (by decide))) seen
      show 2 * (chars number j).length ≤ steps
      omega
    | cons n ms =>
      rw [memberChars_cons_cons] at hsteps ⊢
      simp only [List.length_append, List.length_cons] at hsteps
      simp only [List.append_assoc, List.cons_append]
      rw [readMembers_more (by omega)
          (hj steps depth _ (by show 2 * (chars number j).length ≤ steps; omega) hjdepth
            (endsNumber_cons (by decide))),
        ih (by simp) hms hdepth (by omega)]
      simp

end Containers

theorem readsBack_array {number : Float → String} {js : List Json}
    (h : ∀ j ∈ js, ReadsBack number j) : ReadsBack number (.array js) := by
  intro steps depth rest hsteps hdepth _
  rw [chars, List.length_cons, List.length_append] at hsteps
  obtain ⟨steps, rfl⟩ : ∃ k, steps = k + 1 := ⟨steps - 1, by omega⟩
  have hlimit : depth < nestingLimit := by
    rw [nesting] at hdepth
    omega
  rw [chars, List.cons_append, List.append_assoc, List.singleton_append]
  refine readsTo_of_eq ?_
  by_cases hjs : js = []
  · subst hjs
    rw [itemChars, List.nil_append, readDocument, skipBlanks_cons rfl]
    simp [skipBlanks_cons, isBlank, hlimit]
  · have hinner : ∀ j ∈ js, j.nesting ≤ nestingLimit - (depth + 1) :=
      nesting_array_le.1 (by omega)
    refine readDocument_array (readItems_itemChars hjs h (fun j hj => ?_) (by omega) []) hlimit
    have := hinner j hj
    omega

theorem readsBack_object {number : Float → String} {ms : List (String × Json)}
    (h : ∀ m ∈ ms, ReadsBack number m.2) : ReadsBack number (.object ms) := by
  intro steps depth rest hsteps hdepth _
  rw [chars, List.length_cons, List.length_append] at hsteps
  obtain ⟨steps, rfl⟩ : ∃ k, steps = k + 1 := ⟨steps - 1, by omega⟩
  have hlimit : depth < nestingLimit := by
    rw [nesting] at hdepth
    omega
  rw [chars, List.cons_append, List.append_assoc, List.singleton_append]
  refine readsTo_of_eq ?_
  by_cases hms : ms = []
  · subst hms
    rw [memberChars, List.nil_append, readDocument, skipBlanks_cons rfl]
    simp [skipBlanks_cons, isBlank, hlimit, ofMembers]
  · have hinner : ∀ m ∈ ms, m.2.nesting ≤ nestingLimit - (depth + 1) :=
      nesting_object_le.1 (by omega)
    refine readDocument_object (readMembers_memberChars hms h (fun m hm => ?_) (by omega) []) hlimit
    have := hinner m hm
    omega

/-- What is written for a legible document is read back. -/
theorem Legible.readsBack {number : Float → String} {j : Json} (h : Legible number j) :
    ReadsBack number j := by
  induction h with
  | null =>
    rintro steps depth rest hsteps - -
    obtain ⟨steps, rfl⟩ : ∃ k, steps = k + 1 := ⟨steps - 1, by simp [chars] at hsteps; omega⟩
    exact readsTo_of_eq rfl
  | bool b =>
    rintro steps depth rest hsteps - -
    obtain ⟨steps, rfl⟩ : ∃ k, steps = k + 1 :=
      ⟨steps - 1, by cases b <;> simp [chars] at hsteps <;> omega⟩
    cases b <;> exact readsTo_of_eq rfl
  | @int n hn =>
    rintro steps depth rest hsteps - hrest
    have hne : 0 < (intChars n).length := by
      rw [intChars]
      split
      · exact Nat.succ_pos _
      · exact List.length_pos_iff.2 Nat.toDigits_ne_nil
    rw [chars] at hsteps ⊢
    obtain ⟨steps, rfl⟩ : ∃ k, steps = k + 1 := ⟨steps - 1, by omega⟩
    exact readsTo_of_eq (readDocument_intChars hrest hn steps depth)
  | @float x hx =>
    rintro steps depth rest hsteps - hrest
    have hne : 0 < (number x).toList.length := by
      rw [List.length_pos_iff]
      intro hnil
      rw [read?, hnil] at hx
      cases hx
    rw [chars] at hsteps ⊢
    obtain ⟨steps, rfl⟩ : ∃ k, steps = k + 1 := ⟨steps - 1, by omega⟩
    exact readsTo_float hrest hx steps depth
  | string s =>
    rintro steps depth rest hsteps - -
    rw [chars] at hsteps ⊢
    exact readsTo_of_eq (readDocument_textChars (by omega) depth rest)
  | array _ ih => exact readsBack_array ih
  | object _ ih => exact readsBack_object ih

/-- **A document is read back from its text**, if its parts are and it is not nested too deeply. -/
theorem read?_write {number : Float → String} {j : Json} (h : Legible number j)
    (hnesting : j.nesting ≤ nestingLimit) : read? (write number j) = some j := by
  obtain ⟨r, hr, hskip⟩ := h.readsBack (2 * (chars number j).length + 2) 0 [] (by omega) (by omega)
    (by simp [EndsNumber])
  rw [List.append_nil] at hr
  have hempty : skipBlanks r = [] := hskip
  rw [read?, write, String.toList_ofList, hr]
  simp [hempty]

end Json

end EntityGraph
