import EmojiLang.Number.Rounding

/-!
# Binary floating point numbers of 64 bits

A number is kept as its 64 bits: a sign, an exponent field of 11 bits and a fraction of 52 bits.  The
bits are kept, and not a machine number, because values that are not numbers (NaN) carry a sign that
shows when they are printed.

**Arithmetic.** A NaN among the operands is the result, the left one before the right one.  A NaN that
an operation makes out of numbers has its sign set.  Everything else is machine arithmetic.

**Conversions.** `toInt64` drops the fraction and goes to the nearest bound when the number is out of
range; a NaN becomes zero.  `ofRatio` rounds a fraction of natural numbers to the nearest number, the
one with the even last bit of two that are equally near.

**Results.** `apply_of_isNaN` states the first rule of arithmetic, and `toInt64_of_isNaN` the case of
the conversion that no order on numbers decides.
-/

namespace EmojiLang

/-- A floating point number, as its bits. -/
structure Binary64 where
  bits : UInt64
deriving DecidableEq, Repr, Inhabited

namespace Binary64

open Number

/-- The value zero with positive sign. -/
def zero : Binary64 := ⟨0⟩

/-- The value one. -/
def one : Binary64 := ⟨0x3ff0000000000000⟩

/-- The NaN that operations on numbers make. -/
def madeNaN : Binary64 := ⟨0xfff8000000000000⟩

/-- The bits of an infinity, sign apart. -/
def infinityBits : Nat := 0x7ff0000000000000

section Fields

/-- The sign bit is set. -/
def isNegative (x : Binary64) : Bool := decide (twoTo 63 ≤ x.bits.toNat)

/-- Everything but the sign. -/
def magnitudeBits (x : Binary64) : Nat := x.bits.toNat % twoTo 63

/-- The exponent field. -/
def exponentField (x : Binary64) : Nat := x.magnitudeBits / twoTo 52

/-- The fraction field. -/
def fraction (x : Binary64) : Nat := x.magnitudeBits % twoTo 52

/-- Not a number. -/
def isNaN (x : Binary64) : Bool := decide (infinityBits < x.magnitudeBits)

/-- An infinity. -/
def isInfinite (x : Binary64) : Bool := decide (x.magnitudeBits = infinityBits)

/-- Neither an infinity nor a NaN. -/
def isFinite (x : Binary64) : Bool := decide (x.magnitudeBits < infinityBits)

/-- A zero of either sign. -/
def isZero (x : Binary64) : Bool := decide (x.magnitudeBits = 0)

/-- The integer `m` for which a finite number is, up to its sign, `m * 2 ^ x.exponent`. -/
def significand (x : Binary64) : Nat :=
  if x.exponentField = 0 then x.fraction else twoTo 52 + x.fraction

/-- The power of two of the last bit of the significand. -/
def exponent (x : Binary64) : Int := (max x.exponentField 1 : Nat) - 1075

end Fields

section Arithmetic

/-- The machine number with these bits. -/
def toFloat (x : Binary64) : Float := Float.ofBits x.bits

/-- The bits of a machine number. -/
def ofFloat (x : Float) : Binary64 := if x.isNaN then madeNaN else ⟨x.toBits⟩

/-- A machine operation, with the rules for NaN around it. -/
def apply (f : Float → Float → Float) (x y : Binary64) : Binary64 :=
  if x.isNaN then x
  else if y.isNaN then y
  else ofFloat (f x.toFloat y.toFloat)

theorem apply_of_isNaN (f : Float → Float → Float) {x : Binary64} (y : Binary64)
    (h : x.isNaN = true) : apply f x y = x := by
  simp [apply, h]

/-- The sum of two numbers. -/
def add (x y : Binary64) : Binary64 := apply (· + ·) x y

/-- The difference of two numbers. -/
def sub (x y : Binary64) : Binary64 := apply (· - ·) x y

/-- The product of two numbers. -/
def mul (x y : Binary64) : Binary64 := apply (· * ·) x y

/-- The quotient of two numbers. -/
def div (x y : Binary64) : Binary64 := apply (· / ·) x y

/-- Numeric order; a NaN is below nothing. -/
def lt (x y : Binary64) : Bool := decide (x.toFloat < y.toFloat)

/-- Numeric order or equality; a NaN is below nothing. -/
def le (x y : Binary64) : Bool := decide (x.toFloat ≤ y.toFloat)

end Arithmetic

section Conversions

/-- The number nearest to an integer of 64 bits. -/
def ofInt64 (n : Int64) : Binary64 := ofFloat n.toFloat

/-- The integer nearest to `n` within the range of 64 bits. -/
def clamp (n : Int) : Int64 := Int64.ofInt (max Int64.minValue.toInt (min n Int64.maxValue.toInt))

/-- The size of a number without its fraction. -/
def wholePart (x : Binary64) : Nat :=
  match x.exponent with
  | .ofNat e => x.significand * twoTo e
  | .negSucc e => x.significand / twoTo (e + 1)

/-- The integer part of a number, or the bound of the range that is nearest to it. -/
def toInt64 (x : Binary64) : Int64 :=
  if x.isNaN then 0
  else if x.isNegative then clamp (-x.wholePart)
  else clamp x.wholePart

theorem toInt64_of_isNaN {x : Binary64} (h : x.isNaN = true) : x.toInt64 = 0 := by
  simp [toInt64, h]

/-- The number whose sign and other bits are given. -/
def ofMagnitude (negative : Bool) (magnitude : Nat) : Binary64 :=
  ⟨UInt64.ofNat (if negative then twoTo 63 + magnitude else magnitude)⟩

/-- `n / d * 2 ^ -e`, rounded to a natural number by `round`. -/
def scaled (round : Nat → Nat → Nat) (n d : Nat) : (e : Int) → Nat
  | .ofNat e => round n (d * twoTo e)
  | .negSucc e => round (n * twoTo (e + 1)) d

/-- The power of two that the last bit of a positive fraction `n / d` stands for: as small as the 53
bits of a significand allow, but at least `2 ^ -1074`. -/
def lastPlace (n d : Nat) : Int :=
  let guess := max ((n.log2 : Int) - d.log2 - 53) (-1074)
  if twoTo 53 ≤ scaled (· / ·) n d guess then guess + 1 else guess

/-- The number nearest to `n / d`.  A fraction that is too large for every number is infinite. -/
def ofRatio (negative : Bool) (n d : Nat) : Binary64 :=
  if n = 0 then ofMagnitude negative 0
  else
    let e := lastPlace n d
    let magnitude := (e + 1074).toNat * twoTo 52 + scaled roundDiv n d e
    ofMagnitude negative (min magnitude infinityBits)

end Conversions

end Binary64

end EmojiLang
