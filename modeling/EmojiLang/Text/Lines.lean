/-!
# Lines and columns of text

A line ends with a line feed, and a carriage return directly before it belongs to the line end.  What
follows the last line feed is a line only if it is not empty; a carriage return at its end is kept.

**Results.** `lines_nil` and `lines_feed` fix the two corners: no text has no line, and a lone line
feed has one, which is empty.
-/

namespace EmojiLang
namespace Text

section Splitting

variable {α : Type} [DecidableEq α]

/-- The symbols of a line, in reverse, without the return mark `ret` of its line end. -/
def dropReturn (ret : α) : List α → List α
  | [] => []
  | a :: reversed => if a = ret then reversed else a :: reversed

/-- The lines of a sequence whose first line has begun with `reversed`, read backwards. -/
def splitLines (feed ret : α) : (reversed : List α) → List α → List (List α)
  | [], [] => []
  | reversed, [] => [reversed.reverse]
  | reversed, a :: rest =>
      if a = feed then
        (dropReturn ret reversed).reverse :: splitLines feed ret [] rest
      else
        splitLines feed ret (a :: reversed) rest

end Splitting

/-- The lines of a text, without their line ends. -/
def lines (text : String) : List String :=
  (splitLines '\n' '\r' [] text.toList).map String.ofList

theorem lines_nil : lines "" = [] := by
  decide

theorem lines_feed : lines "\n" = [""] := by
  decide

/-- The lines of a byte sequence, without their line ends. -/
def byteLines (bytes : List UInt8) : List (List UInt8) :=
  splitLines 10 13 [] bytes

/-- `n` copies of a text. -/
def times (n : Nat) (text : String) : String :=
  String.join (List.replicate n text)

/-- A text with blanks in front of it, so that it takes at least `width` columns. -/
def padLeft (width : Nat) (text : String) : String :=
  times (width - text.length) " " ++ text

/-- A text with blanks behind it, so that it takes at least `width` columns. -/
def padRight (width : Nat) (text : String) : String :=
  text ++ times (width - text.length) " "

end Text
end EmojiLang
