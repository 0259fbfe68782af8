import EmojiLang.Number.Numeral

/-!
# Values

A value is a scalar: nothing, an integer of 64 bits, a floating point number, a truth value or a text.
There are no references, so a value can be copied at will.

Every value can be seen as a truth value, as an integer, as a floating point number and as a text.
Equality of the language compares texts, so `3` and `3.0` are different.

**Results.** `ofNumeral_int64?` says that a literal without a point whose integer is in range denotes
that integer.
-/

namespace EmojiLang

/-- A value of the language. -/
inductive Value where
  | unit
  | int (n : Int64)
  | float (x : Binary64)
  | bool (b : Bool)
  | string (s : String)
deriving DecidableEq, Repr, Inhabited

namespace Value

/-- The value of a number literal: floating point if it has a point, an integer otherwise.  What does
not denote a value in range is the integer zero. -/
def ofNumeral (text : String) : Value :=
  if text.toList.contains '.' then
    match Numeral.binary64? text with
    | some x => .float x
    | none => .int 0
  else
    match Numeral.int64? text with
    | some n => .int n
    | none => .int 0

theorem ofNumeral_int64? {text : String} {n : Int64} (point : '.' ∉ text.toList)
    (h : Numeral.int64? text = some n) : ofNumeral text = .int n := by
  simp [ofNumeral, point, h]

/-- The integer of an integer value; nothing else counts as integral. -/
def integral? : Value → Option Int64
  | .int n => some n
  | _ => none

/-- Truth.  A text is false if it is empty, `false` or `0`. -/
def toBool : Value → Bool
  | .unit => false
  | .int n => n != 0
  | .float x => !x.isZero
  | .bool b => b
  | .string s => !s.isEmpty && s != "false" && s != "0"

/-- The value as a floating point number; a text counts by the numeral at its head. -/
def toBinary64 : Value → Binary64
  | .unit => .zero
  | .int n => .ofInt64 n
  | .float x => x
  | .bool b => if b then .one else .zero
  | .string s => (Numeral.binary64? s).getD .zero

/-- The value as an integer; a text counts by the numeral at its head. -/
def toInt64 : Value → Int64
  | .unit => 0
  | .int n => n
  | .float x => x.toInt64
  | .bool b => if b then 1 else 0
  | .string s => (Numeral.int64? s).getD 0

/-- The name of the type, for listings. -/
def typeName : Value → String
  | .unit => "unit"
  | .int _ => "int"
  | .float _ => "float"
  | .bool _ => "bool"
  | .string _ => "string"

/-- The decimal places of a printed floating point number. -/
def places : Nat := 6

/-- The text that is printed, and compared by equality. -/
def text : Value → String
  | .unit => "0"
  | .int n => toString n.toInt
  | .float x => x.fixed places
  | .bool b => if b then "true" else "false"
  | .string s => s

end Value

end EmojiLang
