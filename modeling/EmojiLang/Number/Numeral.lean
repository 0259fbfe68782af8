import EmojiLang.Number.Decimal
import EmojiLang.Text.Blank

/-!
# Numerals at the head of a text

A text is read as a number by its longest initial part that is a numeral; blanks in front of it do not
count.  A whole numeral is an optional sign and digits.  A decimal numeral may have a point, with at
least one digit on one of its sides, and then an exponent: a mark `e`, an optional sign and digits.

A `Numeral` keeps the characters it was read from, so `Numeral.text` gives them back.  Its value is
exact; a value that a type cannot hold is no value of that type.
-/

namespace EmojiLang

/-- The exponent of a decimal numeral, as it is written. -/
structure Exponent where
  mark : Char
  sign : Option Char
  digits : List Char
deriving DecidableEq, Repr

/-- A numeral in its parts, as it is written.  `fraction` is what stands behind a point, if there is
one. -/
structure Numeral where
  sign : Option Char
  whole : List Char
  fraction : Option (List Char)
  exponent : Option Exponent
deriving DecidableEq, Repr

namespace Numeral

section Reading

/-- Splits off a sign. -/
def takeSign : List Char → Option Char × List Char
  | [] => (none, [])
  | c :: rest => if c = '+' ∨ c = '-' then (some c, rest) else (none, c :: rest)

/-- Splits off the digits. -/
def takeDigits (cs : List Char) : List Char × List Char :=
  (cs.takeWhile Char.isDigit, cs.dropWhile Char.isDigit)

/-- Splits off a point and the digits behind it.  The point counts only if it has a digit before it
(`hasWhole`) or behind it. -/
def takeFraction (hasWhole : Bool) : List Char → Option (List Char) × List Char
  | '.' :: rest =>
      let (digits, behind) := takeDigits rest
      if hasWhole || !digits.isEmpty then (some digits, behind) else (none, '.' :: rest)
  | cs => (none, cs)

/-- Splits off an exponent.  Without digits there is none. -/
def takeExponent : List Char → Option Exponent
  | [] => none
  | c :: rest =>
      if c = 'e' ∨ c = 'E' then
        let (sign, afterSign) := takeSign rest
        let (digits, _) := takeDigits afterSign
        if digits.isEmpty then none else some ⟨c, sign, digits⟩
      else
        none

/-- The whole numeral at the head of `cs`. -/
def ofWhole (cs : List Char) : Option Numeral :=
  let (sign, afterSign) := takeSign cs
  let (whole, _) := takeDigits afterSign
  if whole.isEmpty then none else some ⟨sign, whole, none, none⟩

/-- The decimal numeral at the head of `cs`. -/
def ofDecimal (cs : List Char) : Option Numeral :=
  let (sign, afterSign) := takeSign cs
  let (whole, afterWhole) := takeDigits afterSign
  let (fraction, afterFraction) := takeFraction (!whole.isEmpty) afterWhole
  if whole.isEmpty && fraction.isNone then none
  else some ⟨sign, whole, fraction, takeExponent afterFraction⟩

end Reading

section Writing

/-- The characters of an exponent. -/
def exponentText (e : Exponent) : List Char :=
  e.mark :: e.sign.toList ++ e.digits

/-- The characters of a numeral. -/
def text (n : Numeral) : List Char :=
  n.sign.toList ++ n.whole ++
    (match n.fraction with
      | some digits => '.' :: digits
      | none => []) ++
    (match n.exponent with
      | some e => exponentText e
      | none => [])

end Writing

section Value

/-- The number that a row of digits denotes. -/
def digitsValue (digits : List Char) : Nat :=
  digits.foldl (fun n c => 10 * n + (c.toNat - '0'.toNat)) 0

/-- A number with a written sign. -/
def withSign (sign : Option Char) (n : Nat) : Int :=
  if sign = some '-' then -n else n

/-- The digits around the point, read as one number. -/
def mantissa (n : Numeral) : Nat := digitsValue (n.whole ++ n.fraction.getD [])

/-- The power of ten by which the mantissa is to be multiplied. -/
def scale (n : Numeral) : Int :=
  let exponent :=
    match n.exponent with
    | some e => withSign e.sign (digitsValue e.digits)
    | none => 0
  exponent - (n.fraction.getD []).length

/-- The value of a whole numeral. -/
def toInt (n : Numeral) : Int := withSign n.sign n.mantissa

/-- The number nearest to the value of a decimal numeral. -/
def toBinary64 (n : Numeral) : Binary64 :=
  Binary64.ofDecimal (n.sign == some '-') n.mantissa n.scale

end Value

/-- The integers of 64 bits. -/
def fitsInt64 (n : Int) : Bool :=
  decide (Int64.minValue.toInt ≤ n) && decide (n ≤ Int64.maxValue.toInt)

/-- The integer at the head of a text; none where there is no numeral or it is out of range. -/
def int64? (source : String) : Option Int64 :=
  match ofWhole (source.toList.dropWhile Text.isSpace) with
  | some n => if fitsInt64 n.toInt then some (Int64.ofInt n.toInt) else none
  | none => none

/-- The floating point number at the head of a text; none where there is no numeral or it is beyond
all finite numbers. -/
def binary64? (source : String) : Option Binary64 :=
  match ofDecimal (source.toList.dropWhile Text.isSpace) with
  | some n => if n.toBinary64.isFinite then some n.toBinary64 else none
  | none => none

end Numeral

end EmojiLang
