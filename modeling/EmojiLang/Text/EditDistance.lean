/-!
# Edit distance and closest names

The edit distance of two texts is the least number of insertions, deletions and replacements of
single characters that turns one into the other.

**Algorithm.** For a fixed text `b` the row of a text `a` holds the distances of `a` to all initial
parts of `b`, from the empty one to `b` itself.  `nextRow` goes from the row of `a` to the row of `a`
with one more character, so a fold over `a` ends with the distance in the last place.

`closest` looks for the candidate with the smallest distance to a target, among those that are near
enough for a hint; of several the first one is taken.
-/

namespace EmojiLang
namespace Text

/-- The entries of the next row behind its first one.  `diagonal` and the head of the row stand above
the entry to be made, `left` beside it. -/
def nextEntries (c : Char) : List Char → (diagonal left : Nat) → List Nat → List Nat
  | d :: b, diagonal, left, above :: row =>
      let change := if c = d then diagonal else diagonal + 1
      let entry := min (min (above + 1) (left + 1)) change
      entry :: nextEntries c b above entry row
  | _, _, _, _ => []

/-- The row of a text with the character `c` behind it, from the row of the text. -/
def nextRow (b : List Char) (row : List Nat) (c : Char) : List Nat :=
  match row with
  | [] => []
  | top :: row => (top + 1) :: nextEntries c b top (top + 1) row

/-- The row of the empty text: every character of `b` has to be inserted. -/
def firstRow (b : List Char) : List Nat :=
  List.range (b.length + 1)

/-- The least number of single-character edits between two texts. -/
def editDistance (a b : String) : Nat :=
  (a.toList.foldl (nextRow b.toList) (firstRow b.toList)).getLastD 0

/-- The largest distance at which one name is offered in place of another. -/
def hintDistance : Nat := 3

/-- The better of the best candidate so far and the next one; the earlier wins a tie. -/
def nearer (target : String) (best : Option (String × Nat)) (candidate : String) :
    Option (String × Nat) :=
  let distance := editDistance target candidate
  let improves :=
    match best with
    | none => true
    | some (_, least) => decide (distance < least)
  if distance ≤ hintDistance && improves then some (candidate, distance) else best

/-- The first of the candidates that are nearest to the target, if they are near enough. -/
def closest (target : String) (candidates : List String) : Option String :=
  (candidates.foldl (nearer target) none).map Prod.fst

end Text
end EmojiLang
