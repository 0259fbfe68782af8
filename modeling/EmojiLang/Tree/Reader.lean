import EmojiLang.Tree

/-!
# Reading constructs off a token sequence

A `Reader` takes the unread tokens and either reads a construct off their head, or is stuck at a place
from which no construct of the language goes on.  The end of the input is the empty sequence.

Readers form a monad: `bind` lets a second reader go on where the first one stopped, and a reader that
is stuck stays stuck.

**Results.** `Reader.pure_apply` and `Reader.bind_apply` say what readers in sequence do to the tokens.
-/

namespace EmojiLang

/-- The outcome of reading: a construct with the tokens behind it, or the tokens at which no
construct can go on. -/
inductive Reading (α : Type) where
  | read (value : α) (rest : List Token)
  | stuck (rest : List Token)
deriving Repr

/-- Reads a construct off the head of the unread tokens. -/
def Reader (α : Type) : Type := List Token → Reading α

namespace Reader

variable {α β : Type}

/-- Reads nothing. -/
def pure (a : α) : Reader α := fun ts => .read a ts

/-- Reads one construct after the other. -/
def bind (r : Reader α) (f : α → Reader β) : Reader β := fun ts =>
  match r ts with
  | .read a rest => f a rest
  | .stuck rest => .stuck rest

instance : Monad Reader where
  pure := Reader.pure
  bind := Reader.bind

@[simp]
theorem pure_apply (a : α) (ts : List Token) : (Pure.pure a : Reader α) ts = .read a ts := rfl

theorem bind_apply (r : Reader α) (f : α → Reader β) (ts : List Token) :
    (r >>= f) ts =
      match r ts with
      | .read a rest => f a rest
      | .stuck rest => .stuck rest := rfl

/-- Reads off the head of `ts`. -/
@[reducible]
def on (ts : List Token) (r : Reader α) : Reading α := r ts

/-- Is stuck at once. -/
def fail : Reader α := fun ts => .stuck ts

/-- Steps over the next token if it spells `text`, and tells whether it did. -/
def accept (text : String) : Reader Bool
  | [] => .read false []
  | t :: rest => if t.spells text then .read true rest else .read false (t :: rest)

/-- The next token spells `text`. -/
def ahead (text : String) : List Token → Bool
  | [] => false
  | t :: _ => t.spells text

/-- A name with an assignment sign behind it comes next. -/
def assignmentAhead : List Token → Bool
  | a :: b :: _ => a.kind = .name && b.spells "="
  | _ => false

end Reader

end EmojiLang
