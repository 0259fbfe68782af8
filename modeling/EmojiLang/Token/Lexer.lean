import EmojiLang.Glyph
import EmojiLang.Text.Blank

/-!
# From text to tokens

A program text is cut into pieces from left to right.  `Piece.cut` looks at the head of a nonempty
text and says how far the piece reaches and which token it denotes; blanks and comments denote none.
Every text can be cut: a character that begins nothing else is an operator of its own.

`scanFrom` walks over the characters one by one and keeps the place.  Its first argument is the
number of characters that still belong to the piece begun before.

**Results.** `scanFrom_skip` says that the characters of a piece only move the place, so the walk is
the same as cutting off one piece after the other.
-/

namespace EmojiLang

/-- The piece at the head of a text: the class and text of its token, if it denotes one, and the
number of characters that follow its first one. -/
structure Piece where
  token : Option (TokenKind × String)
  more : Nat
deriving DecidableEq, Repr

namespace Piece

/-- What a numeral consists of behind its first character. -/
def isNumeral (c : Char) : Bool := c.isDigit || c == '.'

/-- What a word begins with. -/
def beginsWord (c : Char) : Bool := c.isAlpha || c == '_'

/-- What a word consists of. -/
def isWord (c : Char) : Bool := c.isAlphanum || c == '_'

/-- A numeral begins with a digit, or with a minus sign that stands directly before one. -/
def beginsNumeral (c : Char) (rest : List Char) : Bool :=
  c.isDigit || (c == '-' && (rest.head?.any Char.isDigit))

/-- Blanks, one by one. -/
def blank : Piece := ⟨none, 0⟩

/-- A comment reaches up to the end of its line. -/
def comment (rest : List Char) : Piece :=
  ⟨none, (rest.takeWhile (· ≠ '\n')).length⟩

/-- A string reaches over its closing quote, which may be missing at the end of the text.  There are
no escapes. -/
def string (rest : List Char) : Piece :=
  let body := rest.takeWhile (· ≠ '"')
  let quote := (rest.dropWhile (· ≠ '"')).take 1
  ⟨some (.string, String.ofList body), body.length + quote.length⟩

/-- A numeral is its first character with the digits and points behind it. -/
def numeral (c : Char) (rest : List Char) : Piece :=
  let body := rest.takeWhile isNumeral
  ⟨some (.number, String.ofList (c :: body)), body.length⟩

/-- A word, classified by the table. -/
def word (c : Char) (rest : List Char) : Piece :=
  let body := rest.takeWhile isWord
  let text := String.ofList (c :: body)
  ⟨some (Glyph.wordKind text, text), body.length⟩

/-- The longest spelling of the table, with one presentation selector behind it; failing that, the
character alone. -/
def sign (c : Char) (rest : List Char) : Piece :=
  match Glyph.longestMatch (c :: rest) with
  | some (text, kind) =>
      let reach := text.length - 1
      let selector := if (rest.drop reach).head? = some Glyph.presentationSelector then 1 else 0
      ⟨some (kind, text), reach + selector⟩
  | none => ⟨some (.operator, String.ofList [c]), 0⟩

/-- The piece at the head of the text `c :: rest`. -/
def cut (c : Char) (rest : List Char) : Piece :=
  if Text.isSpace c then blank
  else if c = Glyph.comment then comment rest
  else if c = '"' then string rest
  else if beginsNumeral c rest then numeral c rest
  else if beginsWord c then word c rest
  else sign c rest

end Piece

namespace Token

/-- Puts the token of a piece, placed at `p`, in front of the tokens that follow. -/
def place (p : Position) (piece : Piece) (tokens : List Token) : List Token :=
  match piece.token with
  | some (kind, text) => ⟨kind, text, p⟩ :: tokens
  | none => tokens

/-- The tokens of a text that begins at `p`, when its first `skip` characters belong to a piece that
has been read already. -/
def scanFrom : (skip : Nat) → (p : Position) → List Char → List Token
  | _, p, [] => [Token.eof p]
  | skip + 1, p, c :: rest => scanFrom skip (p.after c) rest
  | 0, p, c :: rest =>
      let piece := Piece.cut c rest
      place p piece (scanFrom piece.more (p.after c) rest)

/-- The tokens of a program text, with the end mark as the last one. -/
def scan (source : String) : List Token :=
  scanFrom 0 Position.start source.toList

/-- Characters that belong to a piece read already only move the place. -/
theorem scanFrom_skip (skip : Nat) (p : Position) (cs : List Char) :
    scanFrom skip p cs = scanFrom 0 (p.afterAll (cs.take skip)) (cs.drop skip) := by
  induction skip generalizing p cs with
  | zero =>
      simp [Position.afterAll]
  | succ skip ih =>
      cases cs with
      | nil =>
          simp [scanFrom, Position.afterAll]
      | cons c rest =>
          simp [scanFrom, ih, Position.afterAll]

end Token

end EmojiLang
