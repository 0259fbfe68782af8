/-!
# What a run writes

A console collects what is written to standard output and to standard error.  The two are kept apart,
and within each the order of writing is kept.

**Results.** `append_empty`, `empty_append` and `append_assoc` say that consoles are written one behind the
other.
-/

namespace EmojiLang

/-- The texts written so far. -/
@[ext]
structure Console where
  out : String := ""
  err : String := ""
deriving DecidableEq, Repr, Inhabited

namespace Console

/-- Nothing written. -/
def empty : Console := {}

/-- Writes to standard output. -/
def print (c : Console) (text : String) : Console := { c with out := c.out ++ text }

/-- Writes to standard error. -/
def warn (c : Console) (text : String) : Console := { c with err := c.err ++ text }

/-- Writes what another console holds. -/
def append (c d : Console) : Console := ⟨c.out ++ d.out, c.err ++ d.err⟩

instance : Append Console := ⟨append⟩

theorem append_out (c d : Console) : (c ++ d).out = c.out ++ d.out := rfl

theorem append_err (c d : Console) : (c ++ d).err = c.err ++ d.err := rfl

@[simp]
theorem append_empty (c : Console) : c ++ empty = c := by
  simp [Console.ext_iff, append_out, append_err, empty]

@[simp]
theorem empty_append (c : Console) : empty ++ c = c := by
  simp [Console.ext_iff, append_out, append_err, empty]

theorem append_assoc (a b c : Console) : a ++ b ++ c = a ++ (b ++ c) := by
  simp [Console.ext_iff, append_out, append_err, String.append_assoc]

end Console

end EmojiLang
