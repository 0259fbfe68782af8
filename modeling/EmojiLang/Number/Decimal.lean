import EmojiLang.Number.Binary64
import EmojiLang.Text.Lines

/-!
# Floating point numbers in decimal

**Reading.** `Binary64.ofDecimal` takes a decimal `m * 10 ^ s` to the nearest number.

**Writing.** `Binary64.fixed` writes the exact value with a fixed number of places, a half going to
the even neighbour.  `Binary64.shortest` writes the fewest digits that still read back as the same
number, of several such digits the nearest to the exact value.  Neither uses an exponent.

The interval of values that read back as a number reaches half way to its two neighbours, with both
ends if the last bit of the number is zero.
-/

namespace EmojiLang
namespace Binary64

open Number

/-- The number of decimal digits of `n`. -/
def decimalLength (n : Nat) : Nat := (Nat.toDigits 10 n).length

/-- The number nearest to `m * 10 ^ scale`.  Decimals beyond `10 ^ 400` either way are settled by
their length alone. -/
def ofDecimal (negative : Bool) (m : Nat) (scale : Int) : Binary64 :=
  let top := scale + decimalLength m
  if m = 0 ∨ top < -400 then ofMagnitude negative 0
  else if 400 < top then ofMagnitude negative infinityBits
  else
    match scale with
    | .ofNat s => ofRatio negative (m * tenTo s) 1
    | .negSucc s => ofRatio negative m (tenTo (s + 1))

/-- The sign of a number in front of the text of its size. -/
def signed (x : Binary64) (text : String) : String :=
  if x.isNegative then "-" ++ text else text

/-- The digits of `n` with a point before the last `places` of them. -/
def pointed (places n : Nat) : String :=
  let unit := tenTo places
  let fraction := toString (n % unit)
  toString (n / unit) ++ "." ++ Text.times (places - fraction.length) "0" ++ fraction

/-- `x * 10 ^ places` up to sign, rounded to a whole number. -/
def scaledSize (places : Nat) (x : Binary64) : Nat :=
  scaled roundDiv (x.significand * tenTo places) 1 (-x.exponent)

/-- The value with `places` decimal places.  Whatever is no number is written with its sign. -/
def fixed (places : Nat) (x : Binary64) : String :=
  if x.isNaN then x.signed "nan"
  else if x.isInfinite then x.signed "inf"
  else x.signed (pointed places (x.scaledSize places))

section Shortest

/-- A positive value as a fraction, with the ends of the interval that reads back as it over the same
denominator. -/
structure Span where
  low : Nat
  value : Nat
  high : Nat
  denominator : Nat
  closed : Bool
deriving Repr

/-- The interval of values that are nearest to a finite number.  Below a power of two the neighbour is
only half as far away. -/
def span (x : Binary64) : Span :=
  let up : Nat := x.exponent.toNat
  let down : Nat := (-x.exponent).toNat
  let unit := twoTo up
  let below := if x.fraction = 0 ∧ 1 < x.exponentField then 1 else 2
  { low := 4 * x.significand * unit - below * unit
    value := 4 * x.significand * unit
    high := 4 * x.significand * unit + 2 * unit
    denominator := 4 * twoTo down
    closed := x.significand % 2 == 0 }

/-- The decimal `n * 10 ^ e` lies in the interval. -/
def Span.holds (s : Span) (n : Nat) (e : Int) : Bool :=
  let scaledN := n * tenTo e.toNat * s.denominator
  let unit := tenTo (-e).toNat
  if s.closed then
    decide (s.low * unit ≤ scaledN) && decide (scaledN ≤ s.high * unit)
  else
    decide (s.low * unit < scaledN) && decide (scaledN < s.high * unit)

/-- Of the two multiples of `10 ^ e` around the value, the nearest one in the interval; the upper one
if both are equally near. -/
def Span.onGrid (s : Span) (e : Int) : Option Nat :=
  let numerator := s.value * tenTo (-e).toNat
  let divisor := s.denominator * tenTo e.toNat
  let floor := numerator / divisor
  let rest := numerator % divisor
  match s.holds floor e, s.holds (floor + 1) e with
  | true, true => if 2 * rest < divisor then some floor else some (floor + 1)
  | true, false => some floor
  | false, true => some (floor + 1)
  | false, false => none

/-- The power of ten just above the value. -/
def Span.top (s : Span) : Int :=
  let whole := s.value / s.denominator
  if 0 < whole then decimalLength whole
  else 1 - (decimalLength (s.denominator / s.value) : Int)

/-- Tries grids with more and more digits; the first hit is the shortest decimal. -/
def Span.search (s : Span) (top : Int) : (tries digits : Nat) → Nat × Int
  | 0, digits => (s.value / s.denominator, top - digits)
  | tries + 1, digits =>
      match s.onGrid (top - digits) with
      | some n => (n, top - digits)
      | none => s.search top tries (digits + 1)

/-- The decimal `n * 10 ^ e` without an exponent, and with a point in any case. -/
def positional (n : Nat) (e : Int) : String :=
  match e with
  | .ofNat zeros => toString (n * tenTo zeros) ++ ".0"
  | .negSucc places => pointed (places + 1) n

/-- The fewest digits that read back as the number, with a point in any case. -/
def shortest (x : Binary64) : String :=
  if x.isNaN then "NaN"
  else if x.isInfinite then x.signed "inf"
  else if x.isZero then x.signed "0.0"
  else
    let s := x.span
    let (n, e) := s.search (s.top + 1) 20 1
    x.signed (positional n e)

end Shortest

end Binary64
end EmojiLang
