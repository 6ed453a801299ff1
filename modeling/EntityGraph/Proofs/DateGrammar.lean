import EntityGraph.Proofs.Offers
import EntityGraph.Proofs.Patterns
import EntityGraph.Text.DateTime
import Mathlib.Data.List.TakeWhile

/-!
# The grammar of dates and times

The texts that count as a point in time, as a formal language, and that inputs of the type for dates
accept exactly those. The language is put together from its parts by concatenation, choice and
repetition, and says nothing about how a text is read. It is the language of `DateTime.pattern`.

Reading takes one part after the other off the front of a text and never goes back. That is right
only because of what may follow a part: a fraction ends where no digit follows, and seconds are
absent where no colon follows. `Takes` states what a reading function does together with the
language of the texts that may follow, so that the parts can be put together in the order in which
the language names them. A text that is read to its end has nothing left, and the language that
follows it is `1`.

## Main definitions

* `DateTime.grammar` — dates, alone or with a time
* `DateTime.Takes` — a function takes the words of a language off the front of a text

## Main results

* `DateTime.Takes.bind`, `DateTime.Takes.optional` — parts in sequence, and parts that may be absent
* `DateTime.language_pattern` — the pattern for dates stands for the language
* `isDateTime_iff` — a text is recognised exactly if it is in the language
* `date_inputs_accept_grammar` — what the inputs of a schema do with texts
-/

namespace EntityGraph

namespace DateTime

open scoped Computability

/-! ### The language -/

/-- One digit of ASCII. -/
def digit : Language Char := {cs | ∃ c, '0' ≤ c ∧ c ≤ '9' ∧ cs = [c]}

/-- One given character. -/
def lit (c : Char) : Language Char := {[c]}

/-- A word of the language, or nothing. -/
def optionally (l : Language Char) : Language Char := 1 + l

/-- Year, month and day. -/
def date : Language Char := digit ^ 4 * lit '-' * digit ^ 2 * lit '-' * digit ^ 2

/-- Hours and minutes. -/
def clock : Language Char := digit ^ 2 * lit ':' * digit ^ 2

/-- A part of a second. -/
def fraction : Language Char := lit '.' * (digit * digit∗)

/-- Seconds, which alone may have a fraction. -/
def seconds : Language Char := lit ':' * digit ^ 2 * optionally fraction

/-- A time zone. -/
def zone : Language Char := lit 'Z' + (lit '+' + lit '-') * clock

/-- A time, which alone may have seconds and a time zone. -/
def time : Language Char := lit 'T' * clock * optionally seconds * optionally zone

/-- A date, alone or with a time. -/
def grammar : Language Char := date * optionally time

theorem mem_lit {c : Char} {cs : List Char} : cs ∈ lit c ↔ cs = [c] := Iff.rfl

theorem mem_optionally {l : Language Char} {cs : List Char} :
    cs ∈ optionally l ↔ cs = [] ∨ cs ∈ l := Iff.rfl

theorem digit_eq_chars : digit = chars (·.isDigit = true) := by
  ext cs
  simp only [mem_chars, isDigit_iff, CharRange.Contains, and_assoc]
  rfl

theorem mem_digit {cs : List Char} : cs ∈ digit ↔ ∃ c, c.isDigit = true ∧ cs = [c] := by
  rw [digit_eq_chars, mem_chars]

theorem mem_kstar_digit {cs : List Char} : cs ∈ digit∗ ↔ ∀ c ∈ cs, c.isDigit = true := by
  rw [digit_eq_chars, mem_kstar_chars]

/-! ### The pattern -/

theorem language_digit : Pattern.digit.language = digit := by
  rw [digit_eq_chars, Pattern.language]
  simp only [isDigit_iff]

theorem language_sign :
    (Pattern.oneOf [.single '+', .single '-']).language = lit '+' + lit '-' := by
  ext cs
  simp only [Pattern.language, mem_chars, List.mem_cons, List.not_mem_nil, or_false, exists_eq_left,
    CharRange.contains_single, or_and_right, exists_or, Language.mem_add, mem_lit]

theorem language_two : pattern.two.language = digit ^ 2 := by
  rw [pattern.two, Pattern.language, language_digit]

theorem language_clock : pattern.clock.language = clock := by
  rw [clock, mul_assoc, ← language_two]
  rfl

theorem language_seconds : pattern.seconds.language = seconds := by
  rw [seconds, mul_assoc, fraction, ← language_two, ← language_digit]
  rfl

theorem language_zone : pattern.zone.language = zone := by
  rw [zone, ← language_sign, ← language_clock]
  rfl

theorem language_time : pattern.time.language = time := by
  simp only [time, mul_assoc, ← language_clock, ← language_seconds, ← language_zone]
  rfl

theorem language_date : pattern.date.language = date := by
  simp only [date, mul_assoc, ← language_digit]
  rfl

/-- **The pattern stands for the language.** -/
theorem language_pattern : pattern.language = grammar := by
  rw [grammar, ← language_date, ← language_time]
  rfl

/-! ### Taking parts off -/

/-- The texts that do not start with a character of the given kind. -/
def stops (p : Char → Prop) : Language Char := {cs | ∀ c, cs.head? = some c → ¬p c}

theorem nil_mem_stops (p : Char → Prop) : [] ∈ stops p := by
  rintro c ⟨⟩

theorem cons_mem_stops {p : Char → Prop} {c : Char} {cs : List Char} :
    c :: cs ∈ stops p ↔ ¬p c := by
  constructor
  · exact fun h => h c rfl
  · rintro h _ ⟨⟩
    exact h

theorem mem_stops_of_imp {p p' : Char → Prop} (h : ∀ c, p c → p' c) :
    ∀ cs ∈ stops p', cs ∈ stops p :=
  fun _ hcs c hc hp => hcs c hc (h c hp)

/-- The function takes a word of the language off the front of a text, provided that what is left is
in the language `follow`. -/
structure Takes (read : List Char → Option (List Char)) (l follow : Language Char) : Prop where
  sound : ∀ {cs rest}, read cs = some rest → ∃ w ∈ l, cs = w ++ rest
  complete : ∀ {w rest}, w ∈ l → rest ∈ follow → read (w ++ rest) = some rest

namespace Takes

variable {read next : List Char → Option (List Char)} {l m follow follow' : Language Char}

theorem mono (h : Takes read l follow) (hfollow : ∀ cs ∈ follow', cs ∈ follow) :
    Takes read l follow' :=
  ⟨h.sound, fun hw hrest => h.complete hw (hfollow _ hrest)⟩

/-- Parts in sequence. A word of the second part may follow the first. -/
theorem bind (h : Takes read l (m * follow)) (hnext : Takes next m follow) :
    Takes (fun cs => (read cs).bind next) (l * m) follow where
  sound := by
    intro cs rest hread
    obtain ⟨mid, hmid, hrest⟩ := Option.bind_eq_some_iff.1 hread
    obtain ⟨w, hw, rfl⟩ := h.sound hmid
    obtain ⟨v, hv, rfl⟩ := hnext.sound hrest
    exact ⟨w ++ v, Language.append_mem_mul hw hv, (List.append_assoc w v rest).symm⟩
  complete := by
    intro _ rest hwv hrest
    obtain ⟨w, hw, v, hv, rfl⟩ := Language.mem_mul.1 hwv
    rw [List.append_assoc, h.complete hw (Language.append_mem_mul hv hrest), Option.bind_some]
    exact hnext.complete hv hrest

/-- A part that may be absent is present exactly if its first character is there. -/
theorem optional {start : Char → Prop} (h : Takes read l follow)
    (hstart : ∀ w ∈ l, ∃ c v, w = c :: v ∧ start c)
    (hpresent : ∀ c cs, start c → next (c :: cs) = read (c :: cs))
    (habsent : ∀ cs ∈ stops start, next cs = some cs) (hfollow : ∀ cs ∈ follow, cs ∈ stops start) :
    Takes next (optionally l) follow where
  sound := by
    intro cs rest hnext
    by_cases hcs : cs ∈ stops start
    · rw [habsent cs hcs] at hnext
      exact ⟨[], .inl rfl, Option.some.inj hnext⟩
    · cases cs with
      | nil => exact absurd (nil_mem_stops start) hcs
      | cons c cs =>
        rw [cons_mem_stops, not_not] at hcs
        rw [hpresent c cs hcs] at hnext
        obtain ⟨w, hw, heq⟩ := h.sound hnext
        exact ⟨w, .inr hw, heq⟩
  complete := by
    intro w rest hw hrest
    rcases mem_optionally.1 hw with rfl | hw
    · exact habsent rest (hfollow rest hrest)
    · obtain ⟨c, v, rfl, hc⟩ := hstart w hw
      rw [List.cons_append, hpresent c _ hc]
      exact h.complete hw hrest

/-- A text from which everything is taken is a word. -/
theorem eq_some_nil_iff (h : Takes read l 1) {cs : List Char} : read cs = some [] ↔ cs ∈ l := by
  constructor
  · intro hread
    obtain ⟨w, hw, rfl⟩ := h.sound hread
    rwa [List.append_nil]
  · intro hcs
    have hread := h.complete hcs Language.nil_mem_one
    rwa [List.append_nil] at hread

end Takes

theorem takes_char (c : Char) {follow : Language Char} : Takes (char? c) (lit c) follow where
  sound := by
    intro cs rest h
    cases cs with
    | nil => cases h
    | cons d cs =>
      rw [char?] at h
      split at h
      · next hd =>
        obtain rfl := Option.some.inj h
        exact ⟨[c], rfl, by rw [hd]; rfl⟩
      · cases h
  complete := by
    intro w rest hw _
    rw [mem_lit.1 hw]
    simp [char?]

theorem takes_digits (n : Nat) {follow : Language Char} :
    Takes (digits? n) (digit ^ n) follow := by
  induction n with
  | zero =>
    refine ⟨fun {cs rest} h => ⟨[], ?_, ?_⟩, fun {w rest} hw _ => ?_⟩
    · rw [pow_zero]
      exact Language.nil_mem_one
    · exact Option.some.inj h
    · rw [pow_zero, Language.mem_one] at hw
      rw [hw]
      rfl
  | succ n ih =>
    refine ⟨fun {cs rest} h => ?_, fun {w rest} hw hrest => ?_⟩
    · cases cs with
      | nil => cases h
      | cons c cs =>
        rw [digits?] at h
        split at h
        · next hc =>
          obtain ⟨w, hw, rfl⟩ := ih.sound h
          refine ⟨[c] ++ w, ?_, rfl⟩
          rw [pow_succ']
          exact Language.append_mem_mul (mem_digit.2 ⟨c, hc, rfl⟩) hw
        · cases h
    · rw [pow_succ'] at hw
      obtain ⟨d, hd, v, hv, rfl⟩ := Language.mem_mul.1 hw
      obtain ⟨c, hc, rfl⟩ := mem_digit.1 hd
      show digits? (n + 1) (c :: (v ++ rest)) = some rest
      rw [digits?, if_pos hc]
      exact ih.complete hv hrest

/-- All digits in front are taken, so none may follow. -/
theorem takes_dropWhile :
    Takes (fun cs => some (cs.dropWhile Char.isDigit)) digit∗ (stops (·.isDigit = true)) where
  sound := by
    intro cs rest h
    obtain rfl := Option.some.inj h
    refine ⟨cs.takeWhile Char.isDigit, ?_, List.takeWhile_append_dropWhile.symm⟩
    exact mem_kstar_digit.2 fun c hc => List.mem_takeWhile_imp hc
  complete := by
    intro w rest hw hrest
    rw [List.dropWhile_append_of_pos (mem_kstar_digit.1 hw)]
    cases rest with
    | nil => rfl
    | cons c rest =>
      have hc := cons_mem_stops.1 hrest
      rw [List.dropWhile_cons_of_neg hc]

theorem takes_clock (follow : Language Char) : Takes clock? clock follow := by
  rw [clock, mul_assoc]
  exact (takes_digits 2).bind ((takes_char ':').bind (takes_digits 2))

theorem takes_date (follow : Language Char) : Takes date? date follow := by
  simp only [date, mul_assoc]
  exact (takes_digits 4).bind <| (takes_char '-').bind <| (takes_digits 2).bind <|
    (takes_char '-').bind (takes_digits 2)

theorem exists_cons_of_mem_lit_mul {c : Char} {l : Language Char} :
    ∀ w ∈ lit c * l, ∃ d v, w = d :: v ∧ d = c := by
  intro w hw
  obtain ⟨u, hu, v, -, rfl⟩ := Language.mem_mul.1 hw
  rw [mem_lit.1 hu]
  exact ⟨c, v, rfl, rfl⟩

theorem takes_fraction :
    Takes fraction? (optionally fraction) (stops fun c => c = '.' ∨ c.isDigit = true) := by
  have hdigits := (takes_digits 1).bind takes_dropWhile
  rw [pow_one] at hdigits
  have hpresent := (takes_char '.').bind hdigits
  -- Digits after a fraction would belong to it, and a point where none is given would start one.
  refine (hpresent.mono (mem_stops_of_imp fun _ => .inr)).optional exists_cons_of_mem_lit_mul ?_ ?_
    (mem_stops_of_imp fun _ => .inl)
  · rintro _ cs rfl
    rw [fraction?, Option.map_eq_bind]
    rfl
  · intro cs hcs
    rw [fraction?]
    rintro rest rfl
    exact cons_mem_stops.1 hcs rfl

theorem takes_seconds : Takes seconds? (optionally seconds)
    (stops fun c => c = ':' ∨ c = '.' ∨ c.isDigit = true) := by
  rw [seconds, mul_assoc]
  have hpresent := (takes_char ':').bind ((takes_digits 2).bind takes_fraction)
  refine (hpresent.mono (mem_stops_of_imp fun _ => .inr)).optional exists_cons_of_mem_lit_mul ?_ ?_
    (mem_stops_of_imp fun _ => .inl)
  · rintro _ cs rfl
    rfl
  · intro cs hcs
    rw [seconds?]
    rintro rest rfl
    exact cons_mem_stops.1 hcs rfl

theorem mem_zone {cs : List Char} :
    cs ∈ zone ↔ cs = ['Z'] ∨ ∃ w ∈ clock, cs = '+' :: w ∨ cs = '-' :: w := by
  rw [zone, Language.mem_add, mem_lit, Language.mem_mul]
  refine or_congr Iff.rfl ⟨?_, ?_⟩
  · rintro ⟨sign, hsign | hsign, w, hw, rfl⟩
    · rw [mem_lit.1 hsign]
      exact ⟨w, hw, .inl rfl⟩
    · rw [mem_lit.1 hsign]
      exact ⟨w, hw, .inr rfl⟩
  · rintro ⟨w, hw, rfl | rfl⟩
    · exact ⟨['+'], .inl rfl, w, hw, rfl⟩
    · exact ⟨['-'], .inr rfl, w, hw, rfl⟩

/-- A zone takes whatever is left as its absence, and so comes last. -/
theorem takes_zone : Takes zone? (optionally zone) 1 where
  sound := by
    intro cs rest h
    rw [zone?.eq_def] at h
    split at h
    · obtain rfl := Option.some.inj h
      exact ⟨['Z'], .inr (mem_zone.2 (.inl rfl)), rfl⟩
    · obtain ⟨w, hw, rfl⟩ := (takes_clock 1).sound h
      exact ⟨'+' :: w, .inr (mem_zone.2 (.inr ⟨w, hw, .inl rfl⟩)), rfl⟩
    · obtain ⟨w, hw, rfl⟩ := (takes_clock 1).sound h
      exact ⟨'-' :: w, .inr (mem_zone.2 (.inr ⟨w, hw, .inr rfl⟩)), rfl⟩
    · exact ⟨[], .inl rfl, Option.some.inj h⟩
  complete := by
    intro w rest hw hrest
    obtain rfl := (Language.mem_one rest).1 hrest
    rcases mem_optionally.1 hw with rfl | hw
    · rfl
    · rcases mem_zone.1 hw with rfl | ⟨v, hv, rfl | rfl⟩
      · rfl
      · exact (takes_clock 1).complete hv hrest
      · exact (takes_clock 1).complete hv hrest

/-- What starts a zone does not continue seconds. -/
theorem mem_stops_of_mem_zone : ∀ w ∈ optionally zone,
    w ∈ stops fun c => c = ':' ∨ c = '.' ∨ c.isDigit = true := by
  intro w hw
  rcases mem_optionally.1 hw with rfl | hw
  · exact nil_mem_stops _
  · rcases mem_zone.1 hw with rfl | ⟨v, -, rfl | rfl⟩ <;> exact cons_mem_stops.2 (by decide)

theorem takes_time : Takes time? (clock * (optionally seconds * optionally zone)) 1 := by
  refine (takes_clock _).bind ((takes_seconds.mono ?_).bind takes_zone)
  rw [mul_one]
  exact mem_stops_of_mem_zone

theorem mem_time {cs : List Char} :
    cs ∈ time ↔ ∃ rest, cs = 'T' :: rest ∧ time? rest = some [] := by
  simp only [time, mul_assoc, takes_time.eq_some_nil_iff]
  rw [Language.mem_mul]
  constructor
  · rintro ⟨t, ht, rest, hrest, rfl⟩
    rw [mem_lit.1 ht]
    exact ⟨rest, rfl, hrest⟩
  · rintro ⟨rest, rfl, hrest⟩
    exact ⟨['T'], rfl, rest, hrest, rfl⟩

theorem mem_grammar {cs : List Char} :
    cs ∈ grammar ↔ ∃ rest, date? cs = some rest ∧ rest ∈ optionally time := by
  rw [grammar, Language.mem_mul]
  constructor
  · rintro ⟨w, hw, rest, hrest, rfl⟩
    exact ⟨rest, (takes_date (optionally time)).complete hw hrest, hrest⟩
  · rintro ⟨rest, hdate, hrest⟩
    obtain ⟨w, hw, rfl⟩ := (takes_date (optionally time)).sound hdate
    exact ⟨w, hw, rest, hrest, rfl⟩

end DateTime

/-- **Exactly the language is recognised.** -/
theorem isDateTime_iff (text : String) :
    isDateTime text = true ↔ text.toList ∈ DateTime.grammar := by
  rw [DateTime.mem_grammar, isDateTime]
  simp only [DateTime.mem_optionally, DateTime.mem_time]
  split
  · next hdate => simp [hdate]
  · next cs hdate => simp [hdate]
  · next hnil htime =>
    cases hdate : DateTime.date? text.toList with
    | none => simp
    | some rest =>
      have hrest : rest ≠ [] := fun h => hnil (h ▸ hdate)
      have htime : ∀ cs, rest ≠ 'T' :: cs := fun cs h => htime cs (h ▸ hdate)
      simp [hrest, htime]

/-- The functions that take parts off decide what the pattern says. -/
theorem isDateTime_iff_pattern (text : String) :
    isDateTime text = true ↔ text.toList ∈ DateTime.pattern.language := by
  rw [isDateTime_iff, DateTime.language_pattern]

instance (text : String) : Decidable (text.toList ∈ DateTime.grammar) :=
  decidable_of_iff _ (isDateTime_iff text)

/-! ### Inputs for dates -/

namespace Schema

variable {s : Schema} {role : Role} {f : FieldDef} {i : Input}

/-- An input that accepts values of a scalar has that scalar as the type of some field, and coerces
all values but null as the scalar says, one by one where it accepts a list. -/
theorem Offers.coerce_scalar (h : s.Offers role f i) {name : String}
    (hitem : i.kind.accepted.item = .scalar name) :
    ∃ g type, s.target? g = some type ∧ type.name = name ∧ ∀ v, v.isNull = false →
      i.coerce s v = if i.kind.isList then coerceList i.name (coerceScalar i.name type) v
        else coerceScalar i.name type v := by
  cases h with
  | @reference _ _ keyType h =>
    obtain ⟨target, -, hkey⟩ := h.key
    obtain ⟨key, -, hfound⟩ := Option.bind_eq_some_iff.1 hkey
    exact ⟨key, keyType, hfound, Accepted.scalar.inj hitem, fun v _ => rfl⟩
  | @scalar _ _ type h =>
    cases hlist : f.isList with
    | false =>
      rw [hlist] at hitem
      exact ⟨f, type, h.target?, Accepted.scalar.inj hitem, fun v _ => rfl⟩
    | true =>
      rw [hlist] at hitem
      exact ⟨f, type, h.target?, Accepted.scalar.inj hitem, fun v _ => rfl⟩
  | @combine _ _ type _ h =>
    refine ⟨f, type, h.target?, Accepted.scalar.inj hitem, fun v hv => ?_⟩
    simp only [Input.coerce, Input.coerceWith, hv, Bool.false_eq_true, if_false]
    rfl
  -- All others accept identities or input objects.
  | valueObject => cases hlist : f.isList <;> rw [hlist] at hitem <;> cases hitem
  | _ => cases hitem

/-- The name of the scalar for dates means that scalar. -/
theorem Built.eq_dateTime (h : s.Built) {type : TypeDef} (hfound : s.target? f = some type)
    (hname : type.name = "DateTime") : type = builtin 5 "DateTime" := by
  have htype : f.typeName = "DateTime" := (name_of_type? hfound).symm.trans hname
  rw [target?, htype, h.type?_initial rfl] at hfound
  exact (Option.some.inj hfound).symm

end Schema

theorem coerceScalar_dateTime (input text : String) :
    coerceScalar input (Schema.builtin 5 "DateTime") (.string text) =
      if isDateTime text then .ok (.string text)
      else .error (.invalidValue input "DateTime" "String") := by
  show expectFit _ _ _ (if isDateTime text then _ else _) = _
  split <;> rfl

/-- A list of texts is refused for the first that is no date, with the error of that text. -/
theorem mapM_coerceScalar_dateTime (input : String) (texts : List String) :
    (texts.map Value.string).mapM (coerceScalar input (Schema.builtin 5 "DateTime")) =
      if texts.all isDateTime then .ok (texts.map .string)
      else .error (.invalidValue input "DateTime" "String") := by
  induction texts with
  | nil => rfl
  | cons text texts ih =>
    rw [List.map_cons, List.mapM_cons, ih, coerceScalar_dateTime, List.all_cons]
    cases isDateTime text with
    | false => rfl
    | true => cases texts.all isDateTime <;> rfl

/-- **Inputs for dates accept exactly the language of dates.** Take any input of any shape of a
schema. If it accepts dates, then it keeps every text of the language as it is and refuses every
other text as an invalid value. If it accepts lists of dates, then the same holds of lists of texts,
which are kept if all their texts are in the language. -/
theorem date_inputs_accept_grammar {decl : SchemaDecl} {s : Schema} {t : TypeDef} {role : Role}
    {shape : Shape} {i : Input} (hdecl : Schema.ofDecl decl = .ok s)
    (hshape : s.shape role t = .ok shape) (hi : i ∈ shape.inputs) :
    (i.describe.accepts = .scalar "DateTime" → ∀ text : String,
      (i.coerce s (.string text) = .ok (.string text) ↔ text.toList ∈ DateTime.grammar) ∧
      (i.coerce s (.string text) = .error (.invalidValue i.name "DateTime" "String") ↔
        text.toList ∉ DateTime.grammar)) ∧
    (i.describe.accepts = .list (.scalar "DateTime") → ∀ texts : List String,
      (i.coerce s (.list (texts.map .string)) = .ok (.list (texts.map .string)) ↔
        ∀ text ∈ texts, text.toList ∈ DateTime.grammar) ∧
      (i.coerce s (.list (texts.map .string)) =
          .error (.invalidValue i.name "DateTime" "String") ↔
        ∃ text ∈ texts, text.toList ∉ DateTime.grammar)) := by
  have hbuilt := Schema.built_of_ofDecl hdecl
  obtain ⟨f, -, hoffers⟩ := Schema.exists_offers_of_mem_shape hshape hi
  constructor
  · intro haccepts text
    have hkind : i.kind.accepted = .scalar "DateTime" := haccepts
    have hlist : i.kind.isList = false := by
      rw [← Bool.not_eq_true, i.kind.isList_iff_accepted, hkind]
      simp
    obtain ⟨g, type, hfound, hname, hcoerce⟩ := hoffers.coerce_scalar (by rw [hkind]; rfl)
    rw [hcoerce _ rfl, hlist, hbuilt.eq_dateTime hfound hname, ← isDateTime_iff]
    simp only [Bool.false_eq_true, if_false, coerceScalar_dateTime]
    cases isDateTime text <;> simp
  · intro haccepts texts
    have hkind : i.kind.accepted = .list (.scalar "DateTime") := haccepts
    have hlist : i.kind.isList = true := i.kind.isList_iff_accepted.2 ⟨_, hkind⟩
    obtain ⟨g, type, hfound, hname, hcoerce⟩ := hoffers.coerce_scalar (by rw [hkind]; rfl)
    rw [hcoerce _ rfl, hlist, hbuilt.eq_dateTime hfound hname]
    simp only [← isDateTime_iff, if_true, coerceList, mapM_coerceScalar_dateTime]
    cases hall : texts.all isDateTime with
    | true =>
      have hdates := List.all_eq_true.1 hall
      simpa [Except.map] using hdates
    | false =>
      obtain ⟨text, htext, hdate⟩ := List.all_eq_false.1 hall
      simpa [Except.map] using ⟨text, htext, by simpa using hdate⟩

/-- The declaration of a diary, whose entries have a date and a list of dates. -/
def diaryDecl : SchemaDecl where
  profiles := [.named defaultProfileName]
  types :=
    [(TypeDecl.named "Entry" .rootEntity)
        |>.withField (.named "written" "DateTime")
        |>.withField (FieldDecl.named "reminders" "DateTime").asList]

/-- In the diary, an entry takes a date with a time, a fraction and a zone. It takes neither a date
that ends in a line break nor a zone without a time. -/
theorem diary_dates : ∃ s entry shape written reminders,
    Schema.ofDecl diaryDecl = .ok s ∧ entry ∈ s.types ∧ s.shape .create entry = .ok shape ∧
    written ∈ shape.inputs ∧ written.describe.accepts = .scalar "DateTime" ∧
    reminders ∈ shape.inputs ∧ reminders.describe.accepts = .list (.scalar "DateTime") ∧
    written.coerce s (.string "2024-03-01T10:15:00.25+02:00") =
      .ok (.string "2024-03-01T10:15:00.25+02:00") ∧
    written.coerce s (.string "2024-03-01\n") =
      .error (.invalidValue written.name "DateTime" "String") ∧
    reminders.coerce s (.list [.string "2024-03-01", .string "2024-03-01Z"]) =
      .error (.invalidValue reminders.name "DateTime" "String") := by
  have hfacts : ∃ s entry shape written reminders,
      Schema.ofDecl diaryDecl = .ok s ∧ s.types[7]? = some entry ∧
      s.shape .create entry = .ok shape ∧ shape.inputs = [written, reminders] ∧
      written.describe.accepts = .scalar "DateTime" ∧
      reminders.describe.accepts = .list (.scalar "DateTime") :=
    ⟨_, _, _, _, _, rfl, rfl, rfl, rfl, rfl, rfl⟩
  obtain ⟨s, entry, shape, written, reminders, hs, hentry, hshape, hinputs, hwritten,
    hreminders⟩ := hfacts
  have hfirst : written ∈ shape.inputs := by simp [hinputs]
  have hsecond : reminders ∈ shape.inputs := by simp [hinputs]
  obtain ⟨hone, -⟩ := date_inputs_accept_grammar hs hshape hfirst
  obtain ⟨-, hmany⟩ := date_inputs_accept_grammar hs hshape hsecond
  refine ⟨s, entry, shape, written, reminders, hs, List.mem_of_getElem? hentry, hshape, hfirst,
    hwritten, hsecond, hreminders, (hone hwritten _).1.2 (by decide),
    (hone hwritten _).2.2 (by decide), ?_⟩
  exact (hmany hreminders ["2024-03-01", "2024-03-01Z"]).2.2 ⟨"2024-03-01Z", by decide⟩

end EntityGraph
