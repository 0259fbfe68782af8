/-!
# Tokens

A token is a classified piece of program text together with the place where it begins.  Lines and
columns are counted from one, and a column is a number of characters, whatever their width.

**Results.** `Token.same_iff` says that two tokens are interchangeable exactly when class and text
agree; the place never matters.
-/

namespace EmojiLang

/-- A place in a program text; the line is `0` where no place is known. -/
structure Position where
  line : Nat
  column : Nat
deriving DecidableEq, Repr, Inhabited

namespace Position

/-- The place of the first character. -/
def start : Position := ⟨1, 1⟩

/-- The place that belongs to nothing in the text. -/
def unknown : Position := ⟨0, 0⟩

/-- The place behind the character `c` at `p`. -/
def after (p : Position) (c : Char) : Position :=
  if c = '\n' then ⟨p.line + 1, 1⟩ else ⟨p.line, p.column + 1⟩

/-- The place behind a run of characters. -/
def afterAll (p : Position) (cs : List Char) : Position :=
  cs.foldl after p

end Position

/-- The class of a token. -/
inductive TokenKind where
  | string
  | number
  | name
  | boolean
  | operator
  | keyword
  | delimiter
  | eof
deriving DecidableEq, Repr, Inhabited

namespace TokenKind

/-- The name of the class, as the token listing shows it. -/
def label : TokenKind → String
  | .string => "String"
  | .number => "Number"
  | .name => "Name"
  | .boolean => "Boolean"
  | .operator => "Operator"
  | .keyword => "Keyword"
  | .delimiter => "Delimiter"
  | .eof => "Eof"

/-- The classes whose texts come from the table of spellings. -/
def isSpelled : TokenKind → Bool
  | .boolean | .operator | .keyword | .delimiter => true
  | .string | .number | .name | .eof => false

end TokenKind

/-- A piece of program text with its class and its place. -/
structure Token where
  kind : TokenKind
  text : String
  position : Position
deriving DecidableEq, Repr, Inhabited

namespace Token

/-- The mark that ends every token sequence. -/
def eof (p : Position) : Token := ⟨.eof, "", p⟩

/-- A string is shown in quotes, the end mark by a word, everything else as it is spelled. -/
def shown (t : Token) : String :=
  match t.kind with
  | .string => "\"" ++ t.text ++ "\""
  | .eof => "<eof>"
  | _ => t.text

/-- Agreement of class and text. -/
def same (a b : Token) : Bool :=
  decide (a.kind = b.kind) && decide (a.text = b.text)

theorem same_iff (a b : Token) :
    a.same b = true ↔ a.kind = b.kind ∧ a.text = b.text := by
  simp [same]

end Token

end EmojiLang
