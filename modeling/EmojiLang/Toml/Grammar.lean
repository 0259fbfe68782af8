import EmojiLang.Number.Numeral
import EmojiLang.Toml

/-!
# Reading configuration documents

A document is a sequence of lines: entries `name = value`, headers `[name]` and `[[name]]`, comments
and empty lines.  Names may be dotted and quoted.  Values are texts in four kinds of quotes, integers in
four bases, decimals, truth values, dates and times, arrays and inline tables.

A reader takes characters and gives a value with the characters behind it, or nothing.  What is wrong
with a document is not reported, only that it is none.

**Recursion.** Arrays and inline tables may be nested up to `nestingLimit`; loops over characters get
the number of characters as their budget.
-/

namespace EmojiLang
namespace Toml
namespace Grammar

/-- Reads a value off the head of a text. -/
abbrev Scan (α : Type) := List Char → Option (α × List Char)

/-- The number of levels to which values and names may be nested, plus one. -/
def nestingLimit : Nat := 80

section Blanks

/-- Blanks within a line. -/
def isBlank (c : Char) : Bool := c == ' ' || c == '\t'

/-- What may stand in a comment and, quotes apart, in texts of one line. -/
def isPrintable (c : Char) : Bool :=
  c == '\t' || (decide (0x20 ≤ c.toNat) && c.toNat != 0x7f)

/-- Skips blanks. -/
def skipBlanks (cs : List Char) : List Char := cs.dropWhile isBlank

/-- Splits off a line feed, with or without a carriage return before it. -/
def newline? : List Char → Option (List Char)
  | '\n' :: rest => some rest
  | '\r' :: '\n' :: rest => some rest
  | _ => none

/-- Skips blanks, line ends and comments. -/
def skipTrivia : (inComment : Bool) → List Char → List Char
  | _, [] => []
  | _, '\r' :: '\n' :: rest => skipTrivia false rest
  | _, '\n' :: rest => skipTrivia false rest
  | true, c :: rest => if isPrintable c then skipTrivia true rest else c :: rest
  | false, c :: rest =>
      if isBlank c then skipTrivia false rest
      else if c = '#' then skipTrivia true rest
      else c :: rest

/-- Splits off a given text. -/
def literal (text : String) (cs : List Char) : Option (List Char) :=
  if text.toList.isPrefixOf cs then some (cs.drop text.length) else none

/-- The end of a line: blanks, perhaps a comment, and a line end or the end of the document. -/
def lineEnd (cs : List Char) : Option (List Char) :=
  let behind :=
    match skipBlanks cs with
    | '#' :: rest => rest.dropWhile isPrintable
    | rest => rest
  if behind.isEmpty then some [] else newline? behind

end Blanks

section Texts

/-- The value of a hexadecimal digit. -/
def hexDigit? (c : Char) : Option Nat :=
  if c.isDigit then some (c.toNat - '0'.toNat)
  else if 'a' ≤ c ∧ c ≤ 'f' then some (c.toNat - 'a'.toNat + 10)
  else if 'A' ≤ c ∧ c ≤ 'F' then some (c.toNat - 'A'.toNat + 10)
  else none

/-- Exactly `n` hexadecimal digits. -/
def hexDigits : (n value : Nat) → Scan Nat
  | 0, value, cs => some (value, cs)
  | _ + 1, _, [] => none
  | n + 1, value, c :: rest =>
      match hexDigit? c with
      | some d => hexDigits n (16 * value + d) rest
      | none => none

/-- The character with a given number, if there is one. -/
def scalar? (n : Nat) : Option Char :=
  if n < 0xd800 ∨ (0xdfff < n ∧ n < 0x110000) then some (Char.ofNat n) else none

/-- The number of a character in hexadecimal digits. -/
def numbered (n : Nat) : Scan Char := fun cs => do
  let (value, rest) ← hexDigits n 0 cs
  let c ← scalar? value
  return (c, rest)

/-- What follows a backslash. -/
def escaped : Scan Char
  | 'b' :: rest => some ('\x08', rest)
  | 't' :: rest => some ('\t', rest)
  | 'n' :: rest => some ('\n', rest)
  | 'f' :: rest => some ('\x0c', rest)
  | 'r' :: rest => some ('\r', rest)
  | '"' :: rest => some ('"', rest)
  | '\\' :: rest => some ('\\', rest)
  | 'u' :: rest => numbered 4 rest
  | 'U' :: rest => numbered 8 rest
  | _ => none

/-- A text of one line behind its opening quote; `escapes` says whether a backslash is special. -/
def lineText (quote : Char) (escapes : Bool) : (budget : Nat) → Scan (List Char)
  | 0, _ => none
  | _ + 1, [] => none
  | budget + 1, c :: rest =>
      if c = quote then some ([], rest)
      else if escapes && c = '\\' then do
        let (d, rest) ← escaped rest
        let (ds, rest) ← lineText quote escapes budget rest
        return (d :: ds, rest)
      else if isPrintable c then do
        let (ds, rest) ← lineText quote escapes budget rest
        return (c :: ds, rest)
      else none

/-- Skips blanks and line ends. -/
def skipLines : List Char → List Char
  | [] => []
  | '\r' :: '\n' :: rest => skipLines rest
  | c :: rest => if isBlank c || c = '\n' then skipLines rest else c :: rest

/-- A backslash at the end of a line: skips it with all blanks and line ends behind it. -/
def joinedLine? (cs : List Char) : Option (List Char) :=
  (newline? (skipBlanks cs)).map skipLines

/-- A text of several lines behind its opening quotes.  One or two quotes are part of the text, also
directly before the closing ones. -/
def blockText (quote : Char) (escapes : Bool) : (budget : Nat) → Scan (List Char)
  | 0, _ => none
  | _ + 1, [] => none
  | budget + 1, c :: rest =>
      if c = quote then
        let run := (c :: rest).takeWhile (· = quote)
        let behind := (c :: rest).drop run.length
        if run.length < 3 then do
          let (ds, rest) ← blockText quote escapes budget behind
          return (run ++ ds, rest)
        else if run.length < 6 then some (run.drop 3, behind)
        else none
      else if escapes && c = '\\' then
        match joinedLine? rest with
        | some rest => blockText quote escapes budget rest
        | none => do
            let (d, rest) ← escaped rest
            let (ds, rest) ← blockText quote escapes budget rest
            return (d :: ds, rest)
      else
        match newline? (c :: rest) with
        | some rest => do
            let (ds, rest) ← blockText quote escapes budget rest
            return ('\n' :: ds, rest)
        | none =>
            if isPrintable c then do
              let (ds, rest) ← blockText quote escapes budget rest
              return (c :: ds, rest)
            else none

/-- A text with single quotes, or with double ones, that ends on the line it begins on. -/
def quotedLine : Scan String
  | '"' :: rest => do
      let (cs, rest) ← lineText '"' true (rest.length + 1) rest
      return (String.ofList cs, rest)
  | '\'' :: rest => do
      let (cs, rest) ← lineText '\'' false (rest.length + 1) rest
      return (String.ofList cs, rest)
  | _ => none

/-- A text of several lines.  A line end directly behind the opening quotes is no part of it. -/
def block (quote : Char) (escapes : Bool) (cs : List Char) : Option (String × List Char) := do
  let start := (newline? cs).getD cs
  let (text, rest) ← blockText quote escapes (start.length + 1) start
  return (String.ofList text, rest)

/-- A text in any of the four kinds of quotes. -/
def quotedText (cs : List Char) : Option (String × List Char) :=
  match literal "\"\"\"" cs, literal "'''" cs with
  | some rest, _ => block '"' true rest
  | none, some rest => block '\'' false rest
  | none, none => quotedLine cs

end Texts

section Names

/-- What a name without quotes consists of. -/
def isBare (c : Char) : Bool := c.isAlphanum || c == '_' || c == '-'

/-- A name without dots. -/
def simpleName (cs : List Char) : Option (String × List Char) :=
  let bare := cs.takeWhile isBare
  if bare.isEmpty then quotedLine cs
  else some (String.ofList bare, cs.drop bare.length)

/-- A dotted name, with blanks around its parts. -/
def dottedName : (budget : Nat) → Scan (List String)
  | 0, _ => none
  | budget + 1, cs => do
      let (first, rest) ← simpleName (skipBlanks cs)
      match skipBlanks rest with
      | '.' :: rest => do
          let (more, rest) ← dottedName budget rest
          return (first :: more, rest)
      | rest => return ([first], rest)

/-- A name as the path to its last part, and that part. -/
def name (cs : List Char) : Option ((List String × String) × List Char) := do
  let (parts, rest) ← dottedName (nestingLimit - 1) cs
  let last ← parts.getLast?
  return ((parts.dropLast, last), rest)

end Names

section Numbers

/-- The digits of a number behind its first one; single underscores may stand between them. -/
def moreDigits (isDigit : Char → Bool) : List Char → List Char × List Char
  | [] => ([], [])
  | '_' :: d :: rest =>
      if isDigit d then
        let (ds, behind) := moreDigits isDigit rest
        (d :: ds, behind)
      else ([], '_' :: d :: rest)
  | d :: rest =>
      if isDigit d then
        let (ds, behind) := moreDigits isDigit rest
        (d :: ds, behind)
      else ([], d :: rest)

/-- Digits, at least one, with single underscores between them. -/
def digits (isDigit : Char → Bool) : Scan (List Char)
  | [] => none
  | d :: rest =>
      if isDigit d then
        let (ds, behind) := moreDigits isDigit rest
        some (d :: ds, behind)
      else none

/-- Decimal digits without a superfluous zero at the front. -/
def wholeDigits : Scan (List Char)
  | '0' :: rest => some (['0'], rest)
  | cs => digits Char.isDigit cs

/-- An integer of 64 bits. -/
def inRange (n : Int) (rest : List Char) : Option (Toml × List Char) :=
  if Numeral.fitsInt64 n then some (.integer n, rest) else none

/-- The digits of an integer in another base than ten. -/
def based (base : Nat) (cs : List Char) : Option (Toml × List Char) := do
  let isDigit (c : Char) : Bool := (hexDigit? c).any (· < base)
  let (ds, rest) ← digits isDigit cs
  inRange (ds.foldl (fun n c => base * n + (hexDigit? c).getD 0) 0) rest

/-- An integer. -/
def integer : Scan Toml
  | '0' :: 'x' :: rest => based 16 rest
  | '0' :: 'o' :: rest => based 8 rest
  | '0' :: 'b' :: rest => based 2 rest
  | cs => do
      let (sign, unsigned) := Numeral.takeSign cs
      let (ds, rest) ← wholeDigits unsigned
      inRange (Numeral.withSign sign (Numeral.digitsValue ds)) rest

/-- An exponent. -/
def exponent : Scan Exponent
  | [] => none
  | c :: rest =>
      if c = 'e' ∨ c = 'E' then do
        let (sign, rest) := Numeral.takeSign rest
        let (ds, rest) ← digits Char.isDigit rest
        return (⟨c, sign, ds⟩, rest)
      else none

/-- A decimal: digits with a fraction, an exponent, or both. -/
def decimal (cs : List Char) : Option (Numeral × List Char) := do
  let (sign, unsigned) := Numeral.takeSign cs
  let (whole, rest) ← wholeDigits unsigned
  match rest with
  | '.' :: rest => do
      let (fraction, rest) ← digits Char.isDigit rest
      match exponent rest with
      | some (e, rest) => return (⟨sign, whole, some fraction, some e⟩, rest)
      | none => return (⟨sign, whole, some fraction, none⟩, rest)
  | rest => do
      let (e, rest) ← exponent rest
      return (⟨sign, whole, none, some e⟩, rest)

/-- A floating point number.  A decimal that is too large is refused; one that is too far below zero
is the negative infinity. -/
def float (cs : List Char) : Option (Toml × List Char) :=
  let (sign, unsigned) := Numeral.takeSign cs
  let negative := sign == some '-'
  match literal "inf" unsigned, literal "nan" unsigned with
  | some rest, _ => some (.float (.ofMagnitude negative Binary64.infinityBits), rest)
  | none, some rest => some (.float (.ofMagnitude negative (Binary64.infinityBits + 1)), rest)
  | none, none => do
      let (n, rest) ← decimal cs
      let x := n.toBinary64
      if x.isInfinite && !x.isNegative then none else return (.float x, rest)

end Numbers

section Moments

/-- A decimal number of exactly `n` digits. -/
def exactly (n : Nat) (cs : List Char) : Option (Nat × List Char) :=
  let ds := cs.take n
  if ds.length = n ∧ ds.all Char.isDigit then some (Numeral.digitsValue ds, cs.drop n) else none

/-- A number of two digits that does not exceed a bound. -/
def upTo (bound : Nat) (cs : List Char) : Option (Nat × List Char) := do
  let (n, rest) ← exactly 2 cs
  if n ≤ bound then return (n, rest) else none

/-- The number of days of a month. -/
def daysIn (year month : Nat) : Nat :=
  if month = 2 then
    if year % 4 = 0 ∧ (year % 100 ≠ 0 ∨ year % 400 = 0) then 29 else 28
  else if month = 4 ∨ month = 6 ∨ month = 9 ∨ month = 11 then 30
  else 31

/-- A day of the calendar. -/
def date (cs : List Char) : Option (List Char) := do
  let (year, rest) ← exactly 4 cs
  let rest ← literal "-" rest
  let (month, rest) ← upTo 12 rest
  let rest ← literal "-" rest
  let (day, rest) ← exactly 2 rest
  if 1 ≤ month ∧ 1 ≤ day ∧ day ≤ daysIn year month then return rest else none

/-- A time of day; a second may be a leap second. -/
def time (cs : List Char) : Option (List Char) := do
  let (_, rest) ← upTo 23 cs
  let rest ← literal ":" rest
  let (_, rest) ← upTo 59 rest
  let rest ← literal ":" rest
  let (_, rest) ← upTo 60 rest
  match rest with
  | '.' :: d :: more =>
      if d.isDigit then return more.dropWhile Char.isDigit else return rest
  | rest => return rest

/-- The distance from universal time. -/
def offset : List Char → Option (List Char)
  | [] => none
  | c :: rest =>
      if c = 'Z' ∨ c = 'z' then some rest
      else if c = '+' ∨ c = '-' then do
        let (_, rest) ← upTo 23 rest
        let rest ← literal ":" rest
        let (_, rest) ← upTo 59 rest
        return rest
      else none

/-- The time of day behind a date. -/
def timeOfDate : List Char → Option (List Char)
  | [] => none
  | c :: rest =>
      if c = 'T' ∨ c = 't' ∨ c = ' ' then
        (time rest).map fun behind => (offset behind).getD behind
      else none

/-- A date, a time, or both. -/
def moment (cs : List Char) : Option (Toml × List Char) :=
  match date cs with
  | some rest => some (.moment, (timeOfDate rest).getD rest)
  | none => (time cs).map fun rest => (.moment, rest)

end Moments

section Values

/-- A value without parts. -/
def atom (cs : List Char) : Option (Toml × List Char) :=
  match cs with
  | [] => none
  | c :: _ =>
      if c = '"' ∨ c = '\'' then (quotedText cs).map fun (s, rest) => (.string s, rest)
      else if c = 't' then (literal "true" cs).map fun rest => (.boolean true, rest)
      else if c = 'f' then (literal "false" cs).map fun rest => (.boolean false, rest)
      else moment cs <|> float cs <|> integer cs

variable (value : Scan Toml)

/-- The elements of an array behind its opening bracket or a comma. -/
def elements : (budget : Nat) → Scan (List Toml)
  | 0, _ => none
  | budget + 1, cs =>
      match skipTrivia false cs with
      | ']' :: rest => some ([], rest)
      | cs => do
          let (v, rest) ← value cs
          match skipTrivia false rest with
          | ',' :: rest => do
              let (vs, rest) ← elements budget rest
              return (v :: vs, rest)
          | ']' :: rest => return ([v], rest)
          | _ => none

/-- A name, an equals sign and a value. -/
def entry (cs : List Char) : Option ((List String × String × Toml) × List Char) := do
  let ((path, key), rest) ← name cs
  let rest ← literal "=" rest
  let (v, rest) ← value (skipBlanks rest)
  return ((path, key, v), rest)

/-- The entries of an inline table, at least one. -/
def inlineEntries : (budget : Nat) → Scan (List (List String × String × Toml))
  | 0, _ => none
  | budget + 1, cs => do
      let (e, rest) ← entry value cs
      match skipBlanks rest with
      | ',' :: rest => do
          let (es, rest) ← inlineEntries budget rest
          return (e :: es, rest)
      | '\x7d' :: rest => return ([e], rest)
      | _ => none

/-- An inline table behind its opening brace. -/
def inlineTable (cs : List Char) : Option (Toml × List Char) :=
  match skipBlanks cs with
  | '\x7d' :: rest => some (.table .inline [], rest)
  | cs => do
      let (es, rest) ← inlineEntries value (cs.length + 1) cs
      let t ← ofInline es
      return (t, rest)

end Values

/-- A value, nested at most `depth` levels. -/
def value : (depth : Nat) → Scan Toml
  | 0, cs => atom cs
  | depth + 1, cs =>
      match cs with
      | '[' :: rest =>
          (elements (value depth) (rest.length + 1) rest).map fun (vs, rest) => (.array vs, rest)
      | '\x7b' :: rest => inlineTable (value depth) rest
      | cs => atom cs

section Documents

/-- A header behind its opening brackets, up to its closing ones. -/
def header (close : String) (cs : List Char) : Option ((List String × String) × List Char) := do
  let (parts, rest) ← name cs
  let rest ← literal close rest
  return (parts, rest)

/-- A line that is neither empty nor only a comment. -/
def line (cs : List Char) : Option (Line × List Char) :=
  match cs with
  | '[' :: '[' :: rest =>
      (header "]]" rest).map fun ((path, key), rest) => (.element path key, rest)
  | '[' :: rest => (header "]" rest).map fun ((path, key), rest) => (.table path key, rest)
  | cs => (entry (value (nestingLimit - 1)) cs).map fun ((path, key, v), rest) =>
      (.entry path key v, rest)

/-- The lines of a document. -/
def lines : (budget : Nat) → List Char → Option (List Line)
  | 0, _ => none
  | budget + 1, cs =>
      match skipTrivia false cs with
      | [] => some []
      | cs => do
          let (l, rest) ← line cs
          let rest ← lineEnd rest
          let ls ← lines budget rest
          return l :: ls

/-- Drops the mark that may stand at the front of a document. -/
def dropMark : List Char → List Char
  | '\ufeff' :: rest => rest
  | cs => cs

end Documents

end Grammar

/-- The table that a document denotes; none if it is malformed. -/
def ofText (text : String) : Option Toml := do
  let cs := Grammar.dropMark text.toList
  let lines ← Grammar.lines (cs.length + 1) cs
  ofLines lines

end Toml
end EmojiLang
