/-!
# Blank characters

Two classes of blank characters are in use.

* `isSpace`: what may separate tokens, and what may stand in front of a numeral.
* `isWhiteSpace`: the wider class, with the separators outside ASCII, that is trimmed off a text
  before two outputs are compared.

**Results.** `isWhiteSpace_of_isSpace` says that the first class lies inside the second.
-/

namespace EmojiLang
namespace Text

/-- The six blanks of ASCII: space, tab, line feed, vertical tab, form feed and carriage return. -/
def isSpace (c : Char) : Bool :=
  c = ' ' || c = '\t' || c = '\n' || c = '\x0b' || c = '\x0c' || c = '\r'

/-- The code points with the property `White_Space`, as ranges with both ends included. -/
def whiteSpaceRanges : List (Nat × Nat) :=
  [(0x9, 0xd), (0x20, 0x20), (0x85, 0x85), (0xa0, 0xa0), (0x1680, 0x1680), (0x2000, 0x200a),
    (0x2028, 0x2029), (0x202f, 0x202f), (0x205f, 0x205f), (0x3000, 0x3000)]

/-- Membership in `whiteSpaceRanges`. -/
def isWhiteSpace (c : Char) : Bool :=
  whiteSpaceRanges.any fun r => decide (r.1 ≤ c.toNat) && decide (c.toNat ≤ r.2)

/-- Every separator of tokens is white space. -/
theorem isWhiteSpace_of_isSpace {c : Char} (h : isSpace c = true) : isWhiteSpace c = true := by
  simp only [isSpace, Bool.or_eq_true, decide_eq_true_eq] at h
  rcases h with ((((h | h) | h) | h) | h) | h <;> subst h <;> decide

/-- A text without the white space at both of its ends. -/
def trim (text : String) : String :=
  let front := text.toList.dropWhile isWhiteSpace
  String.ofList (front.reverse.dropWhile isWhiteSpace).reverse

/-- Nothing but white space. -/
def isBlank (text : String) : Bool :=
  text.toList.all isWhiteSpace

end Text
end EmojiLang
