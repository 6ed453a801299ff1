/-!
# The shortest decimal of a float

A finite float is `m * 2 ^ q`. The reals that round to it form an interval around it, and among
the decimals in that interval there are some with fewest digits. `Float.shortest` finds the one of
these that is nearest to the float, and `Float.plainText` writes it without an exponent.

## How it is found

For one digit, two digits, and so on, the float lies between two neighbours on the grid of
decimals with that many digits. The first grid on which one of the two lies in the interval wins;
if both do, the nearer, and the greater if they are equally near. Seventeen digits always suffice.
All comparisons are between natural numbers.

## Main definitions

* `Binary` — a positive number `m * 2 ^ q` with the interval that rounds to it
* `Decimal` — `digits * 10 ^ exponent`
* `Binary.shortest` — the decimal with fewest digits
* `plainText` — the text of a float
-/

namespace EntityGraph

/-- A positive float as `(mantissa * 2 ^ up) / 2 ^ down`. The interval of reals that round to it
reaches half a step up, and half a step down, or a quarter if the float is the first of its
binade. -/
structure Binary where
  mantissa : Nat
  up : Nat
  down : Nat
  firstOfBinade : Bool

/-- A decimal `digits * 10 ^ exponent`. -/
structure Decimal where
  digits : Nat
  exponent : Int
  deriving Repr, DecidableEq

namespace Binary

/-- The positive finite float with the given biased exponent and fraction bits. -/
def ofBits (biased fraction : Nat) : Binary :=
  let mantissa := if biased = 0 then fraction else Nat.pow 2 52 + fraction
  let power := (max biased 1 : Int) - 1075
  ⟨mantissa, power.toNat, (-power).toNat, fraction = 0 ∧ 1 < biased⟩

/-- Four times the number, over `4 * 2 ^ down`. -/
def numerator (b : Binary) : Nat := 4 * b.mantissa * Nat.pow 2 b.up

/-- The denominator that goes with `numerator`. -/
def denominator (b : Binary) : Nat := 4 * Nat.pow 2 b.down

/-- The number of decimal digits of `n`, zero for zero. -/
def digitCount (n : Nat) : Nat := if n = 0 then 0 else (Nat.toDigits 10 n).length

/-- The exponent `e` with `10 ^ e ≤ b < 10 ^ (e + 1)`. -/
def magnitude (b : Binary) : Int :=
  let whole := b.numerator / b.denominator
  if whole = 0 then
    let ratio := (b.denominator + b.numerator - 1) / b.numerator
    Int.negOfNat (digitCount (ratio - 1))
  else
    (digitCount whole : Int) - 1

/-- The lower end of the interval, over `denominator`. -/
def lower (b : Binary) : Nat :=
  b.numerator - (if b.firstOfBinade then 1 else 2) * Nat.pow 2 b.up

/-- The upper end of the interval, over `denominator`. -/
def upper (b : Binary) : Nat := b.numerator + 2 * Nat.pow 2 b.up

/-- Whether `p / q` rounds to the float: the ends of the interval do if the mantissa is even. -/
def holds (b : Binary) (p q : Nat) : Bool :=
  let low := b.lower * q
  let high := b.upper * q
  let mid := p * b.denominator
  if b.mantissa % 2 = 0 then low ≤ mid && mid ≤ high else low < mid && mid < high

/-- The decimal with the given number of digits that rounds to the float and is nearest to it. -/
def onGrid? (b : Binary) (count : Nat) : Option Decimal :=
  let exponent := b.magnitude - count + 1
  let scaleUp := Nat.pow 10 exponent.toNat
  let scaleDown := Nat.pow 10 (-exponent).toNat
  let below := b.numerator * scaleDown / (b.denominator * scaleUp)
  let above := below + 1
  let gapBelow := b.numerator * scaleDown - below * scaleUp * b.denominator
  let gapAbove := above * scaleUp * b.denominator - b.numerator * scaleDown
  let belowHolds := b.holds (below * scaleUp) scaleDown
  let aboveHolds := b.holds (above * scaleUp) scaleDown
  if aboveHolds && (!belowHolds || gapAbove ≤ gapBelow) then some ⟨above, exponent⟩
  else if belowHolds then some ⟨below, exponent⟩
  else none

/-- The decimal of fewest digits that rounds to the float. -/
def shortest (b : Binary) : Decimal :=
  ((List.range 17).findSome? fun n => b.onGrid? (n + 1)).getD ⟨0, 0⟩

end Binary

namespace Decimal

/-- The decimal written out, with a point only if there are digits behind it. -/
def plain (d : Decimal) : List Char :=
  let ds := Nat.toDigits 10 d.digits
  if 0 ≤ d.exponent then
    ds ++ List.replicate d.exponent.toNat '0'
  else
    let places := (-d.exponent).toNat
    let padded := List.replicate (places + 1 - ds.length) '0' ++ ds
    let whole := padded.take (padded.length - places)
    let fraction := (padded.drop (padded.length - places)).reverse.dropWhile (· = '0')
    if fraction.isEmpty then whole else whole ++ '.' :: fraction.reverse

end Decimal

/-- The text of a float: the fewest digits that read back as it, no exponent, and the sign of a
negative zero kept. -/
def plainText (x : Float) : String :=
  if x.isNaN then "NaN"
  else
    let bits := x.toBits.toNat
    let sign := if Nat.pow 2 63 ≤ bits then "-" else ""
    let biased := bits / Nat.pow 2 52 % Nat.pow 2 11
    let fraction := bits % Nat.pow 2 52
    if x.isInf then sign ++ "inf"
    else if biased = 0 ∧ fraction = 0 then sign ++ "0"
    else sign ++ String.ofList (Binary.ofBits biased fraction).shortest.plain

end EntityGraph
