import EntityGraph.Text.Pattern

/-!
# Dates and times

The texts that count as a point in time: a date, alone or followed by a clock time. Seconds, their
fraction and a time zone may be left out, but a fraction needs seconds, and a zone needs a clock
time. Only the digits of ASCII count, and their values are not looked at.

`DateTime.pattern` says so as a pattern. The functions decide it without a matcher for patterns:
each takes one part off the front of a text. What may follow is told by its first character, so no
part is ever tried twice.
-/

namespace EntityGraph

namespace DateTime

/-- The pattern of dates, alone or with a time. -/
def pattern : Pattern :=
  .seq date (.optional time)
where
  date : Pattern := .seq (.times .digit 4) (.seq (.char '-') (.seq two (.seq (.char '-') two)))
  time : Pattern := .seq (.char 'T') (.seq clock (.seq (.optional seconds) (.optional zone)))
  clock : Pattern := .seq two (.seq (.char ':') two)
  seconds : Pattern := .seq (.char ':') (.seq two (.optional (.seq (.char '.') (.plus .digit))))
  zone : Pattern := .either (.char 'Z') (.seq (.oneOf [.single '+', .single '-']) clock)
  two : Pattern := .times .digit 2

example : pattern.anchored =
    "^\\d{4}-\\d{2}-\\d{2}(T\\d{2}:\\d{2}(:\\d{2}(\\.\\d+)?)?(Z|[+-]\\d{2}:\\d{2})?)?$" := by
  decide

/-- The text after exactly `count` digits. -/
def digits? : Nat → List Char → Option (List Char)
  | 0, cs => some cs
  | count + 1, c :: cs => if c.isDigit then digits? count cs else none
  | _ + 1, [] => none

/-- The text after the given character. -/
def char? (expected : Char) : List Char → Option (List Char)
  | c :: cs => if c = expected then some cs else none
  | [] => none

/-- Two pairs of digits with a colon between them. -/
def clock? (cs : List Char) : Option (List Char) := do
  digits? 2 (← char? ':' (← digits? 2 cs))

/-- Year, month and day. -/
def date? (cs : List Char) : Option (List Char) := do
  digits? 2 (← char? '-' (← digits? 2 (← char? '-' (← digits? 4 cs))))

/-- A point and at least one digit, or nothing. -/
def fraction? : List Char → Option (List Char)
  | '.' :: cs => (digits? 1 cs).map (·.dropWhile Char.isDigit)
  | cs => some cs

/-- Seconds with their fraction, or nothing. -/
def seconds? : List Char → Option (List Char)
  | ':' :: cs => do fraction? (← digits? 2 cs)
  | cs => some cs

/-- A time zone, or nothing. -/
def zone? : List Char → Option (List Char)
  | 'Z' :: cs => some cs
  | '+' :: cs => clock? cs
  | '-' :: cs => clock? cs
  | cs => some cs

/-- A clock time with all that may follow it. -/
def time? (cs : List Char) : Option (List Char) := do
  zone? (← seconds? (← clock? cs))

end DateTime

/-- Whether a text is a date or a date with a time. -/
def isDateTime (text : String) : Bool :=
  match DateTime.date? text.toList with
  | some [] => true
  | some ('T' :: cs) => DateTime.time? cs == some []
  | _ => false

end EntityGraph
