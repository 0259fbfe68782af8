import EmojiLang.Glyph
import EmojiLang.Value

/-!
# Operations on values

Sums, differences and products stay within the integers if both operands are integers, and are
floating point otherwise; the same holds for the order relations.  Quotients are always floating
point.  Remainders and bitwise operations take both operands as integers, and integer arithmetic is
modulo `2 ^ 64`.  Equality compares texts.

**Results.** `apply_isSome_iff` says that the only operation without a result is a remainder whose
divisor is zero as an integer.
-/

namespace EmojiLang

/-- An operation on two values. -/
inductive BinaryOp where
  | add
  | sub
  | mul
  | div
  | rem
  | equal
  | unequal
  | less
  | greater
  | atMost
  | atLeast
  | bitAnd
  | bitOr
  | bitXor
  | both
  | either
deriving DecidableEq, Repr, Inhabited

namespace BinaryOp

/-- The plain spellings of the operations. -/
def spellings : List (String × BinaryOp) :=
  [("+", .add), ("-", .sub), ("*", .mul), ("/", .div), ("%", .rem), ("mod", .rem), ("==", .equal),
    ("!=", .unequal), ("<", .less), (">", .greater), ("<=", .atMost), (">=", .atLeast),
    ("&", .bitAnd), ("|", .bitOr), ("^", .bitXor), ("xor", .bitXor), ("and", .both), ("&&", .both),
    ("or", .either), ("||", .either)]

/-- The operation that a token of any class names by its text. -/
def ofText (text : String) : Option BinaryOp :=
  spellings.lookup (Glyph.plain text)

/-- Arithmetic on integers if both operands are, in floating point otherwise. -/
def arithmetic (onInt : Int64 → Int64 → Int64) (onFloat : Binary64 → Binary64 → Binary64)
    (a b : Value) : Value :=
  match a.integral?, b.integral? with
  | some m, some n => .int (onInt m n)
  | _, _ => .float (onFloat a.toBinary64 b.toBinary64)

/-- An order relation on integers if both operands are, in floating point otherwise. -/
def relation (onInt : Int64 → Int64 → Bool) (onFloat : Binary64 → Binary64 → Bool)
    (a b : Value) : Value :=
  match a.integral?, b.integral? with
  | some m, some n => .bool (onInt m n)
  | _, _ => .bool (onFloat a.toBinary64 b.toBinary64)

/-- A bitwise operation on integers. -/
def bitwise (f : Int64 → Int64 → Int64) (a b : Value) : Value :=
  .int (f a.toInt64 b.toInt64)

/-- The result of an operation; none for a remainder by zero. -/
def apply : BinaryOp → Value → Value → Option Value
  | .add, a, b => some (arithmetic (· + ·) .add a b)
  | .sub, a, b => some (arithmetic (· - ·) .sub a b)
  | .mul, a, b => some (arithmetic (· * ·) .mul a b)
  | .div, a, b => some (.float (a.toBinary64.div b.toBinary64))
  | .rem, a, b => if b.toInt64 = 0 then none else some (.int (a.toInt64 % b.toInt64))
  | .equal, a, b => some (.bool (a.text == b.text))
  | .unequal, a, b => some (.bool (a.text != b.text))
  | .less, a, b => some (relation (fun m n => decide (m < n)) Binary64.lt a b)
  | .greater, a, b => some (relation (fun m n => decide (n < m)) (fun x y => y.lt x) a b)
  | .atMost, a, b => some (relation (fun m n => decide (m ≤ n)) Binary64.le a b)
  | .atLeast, a, b => some (relation (fun m n => decide (n ≤ m)) (fun x y => y.le x) a b)
  | .bitAnd, a, b => some (bitwise (· &&& ·) a b)
  | .bitOr, a, b => some (bitwise (· ||| ·) a b)
  | .bitXor, a, b => some (bitwise (· ^^^ ·) a b)
  | .both, a, b => some (.bool (a.toBool && b.toBool))
  | .either, a, b => some (.bool (a.toBool || b.toBool))

theorem apply_isSome_iff (op : BinaryOp) (a b : Value) :
    (op.apply a b).isSome = true ↔ ¬ (op = .rem ∧ b.toInt64 = 0) := by
  cases op <;> simp [apply]

end BinaryOp

/-- An operation on one value. -/
inductive UnaryOp where
  | not
  | complement
deriving DecidableEq, Repr, Inhabited

namespace UnaryOp

/-- The plain spellings of the operations. -/
def spellings : List (String × UnaryOp) :=
  [("!", .not), ("not", .not), ("~", .complement)]

/-- The operation that a token of any class names by its text. -/
def ofText (text : String) : Option UnaryOp :=
  spellings.lookup (Glyph.plain text)

/-- The result of an operation. -/
def apply : UnaryOp → Value → Value
  | .not, a => .bool !a.toBool
  | .complement, a => .int (~~~ a.toInt64)

end UnaryOp

end EmojiLang
