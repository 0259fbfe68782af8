import EmojiLang.Glyph
import EmojiLang.Text.EditDistance
import EmojiLang.Text.Lines

/-!
# Diagnostics

A diagnostic reports what stopped a program: its kind, a message, the place, and up to three remarks.
The named constructors (`unexpectedToken`, `undeclared`, `redeclared`, `remainderByZero`) are the only
ways in which reading or running a program fails.

Two renderings exist.  `summary` is one line, for places where outputs are compared as text;
`render` is the report for people, with the offending line and a caret below it, in colour on demand.

**Results.** `paint_plain` says that without colour the inks leave a text as it is, and
`inFile_message` that attaching a file changes nothing of what is said.
-/

namespace EmojiLang

/-- A position, in a file if one has been named. -/
structure Location where
  position : Position
  file : Option String := none
deriving DecidableEq, Repr, Inhabited

namespace Location

/-- Positions begin at line one; line zero marks an unknown place. -/
def isKnown (l : Location) : Bool := decide (0 < l.position.line)

/-- File, line and column, as far as they are known. -/
def shown (l : Location) : String :=
  let place := toString l.position.line ++ ":" ++ toString l.position.column
  match l.file, l.isKnown with
  | some file, true => file ++ ":" ++ place
  | some file, false => file
  | none, true => place
  | none, false => "<unknown>"

end Location

/-- The kinds of failure that end the run of a program. -/
inductive DiagnosticKind where
  | malformed
  | undeclared
  | redeclared
  | divisionByZero
deriving DecidableEq, Repr, Inhabited

namespace DiagnosticKind

/-- The heading of a report. -/
def title : DiagnosticKind → String
  | .malformed => "Syntax Error"
  | .undeclared => "Undeclared Variable"
  | .redeclared => "Redeclaration"
  | .divisionByZero => "Division By Zero"

end DiagnosticKind

/-- What went wrong and where, with the remarks that help to mend it. -/
structure Diagnostic where
  kind : DiagnosticKind
  message : String
  location : Location
  sourceLine : Option String := none
  suggestion : Option String := none
  help : Option String := none
  note : Option String := none
deriving DecidableEq, Repr, Inhabited

namespace Diagnostic

/-- Names the file and, for a known place, keeps the line of `source` that it is in. -/
def inFile (d : Diagnostic) (file source : String) : Diagnostic :=
  let line :=
    if d.location.isKnown then (Text.lines source)[d.location.position.line - 1]? else none
  { d with
    location := ⟨d.location.position, some file⟩
    sourceLine := d.sourceLine <|> line }

theorem inFile_message (d : Diagnostic) (file source : String) :
    (d.inFile file source).message = d.message := rfl

/-- Kind, message and place in one line. -/
def summary (d : Diagnostic) : String :=
  d.kind.title ++ ": " ++ d.message ++ " (" ++ d.location.shown ++ ")"

/-- A token that cannot begin an operand. -/
def unexpectedToken (t : Token) : Diagnostic :=
  let shown := if t.text.isEmpty then "end of input" else t.text
  { kind := .malformed
    message := "Unexpected token: " ++ shown
    location := ⟨t.position, none⟩
    help := some "expected a boolean, number, name, string or '(' here" }

/-- A name that no scope holds.  The nearest of the visible names is offered, if one is near. -/
def undeclared (name : String) (p : Position) (visible : List String) : Diagnostic :=
  let base : Diagnostic :=
    { kind := .undeclared
      message := "'" ++ name ++ "' is undeclared"
      location := ⟨p, none⟩ }
  match Text.closest name visible with
  | some near => { base with suggestion := some near }
  | none =>
      let glyph := (Glyph.glyphFor "decl").getD ""
      { base with
        help := some ("declare it first with `decl " ++ name ++ "` (" ++ glyph ++ ")") }

theorem undeclared_kind (name : String) (p : Position) (visible : List String) :
    (undeclared name p visible).kind = .undeclared := by
  unfold undeclared
  cases Text.closest name visible <;> rfl

theorem undeclared_location (name : String) (p : Position) (visible : List String) :
    (undeclared name p visible).location = ⟨p, none⟩ := by
  unfold undeclared
  cases Text.closest name visible <;> rfl

/-- A second declaration of a name in one scope. -/
def redeclared (name : String) (p : Position) : Diagnostic :=
  { kind := .redeclared
    message := "Redeclaration in same scope of '" ++ name ++ "'"
    location := ⟨p, none⟩
    note := some "shadowing a name from an enclosing block is allowed" }

/-- A remainder whose divisor is zero. -/
def remainderByZero (p : Position) : Diagnostic :=
  { kind := .divisionByZero
    message := "Integer remainder by zero"
    location := ⟨p, none⟩ }

/-- The inks of a coloured report. -/
inductive Ink where
  | alarm
  | strong
  | frame
  | help
  | suggestion
  | note
deriving DecidableEq, Repr

namespace Ink

/-- The terminal attributes of an ink. -/
def codes : Ink → String
  | .alarm => "1;31"
  | .strong => "1"
  | .frame => "94"
  | .help => "93"
  | .suggestion => "92"
  | .note => "96"

/-- The terminal sequence that begins an ink. -/
def start (ink : Ink) : String := "\x1b[" ++ ink.codes ++ "m"

/-- The terminal sequence that ends any ink. -/
def stop : String := "\x1b[0m"

end Ink

/-- A text in the given ink.  Where the text itself ends an ink, the ink is begun again. -/
def paint (color : Bool) (ink : Ink) (text : String) : String :=
  if color then
    ink.start ++ text.replace Ink.stop (Ink.stop ++ ink.start) ++ Ink.stop
  else
    text

theorem paint_plain (ink : Ink) (text : String) : paint false ink text = text := rfl

/-- The offending line between bars, with a caret under the place. -/
def excerpt (color : Bool) (p : Position) (line : String) : String :=
  let bar := paint color .frame "|"
  let number := paint color .frame (Text.padLeft 3 (toString p.line))
  let caret := Text.times (p.column - 1) " " ++ paint color .alarm "^"
  "   " ++ bar ++ "\n" ++
  number ++ " " ++ bar ++ " " ++ line ++ "\n" ++
  "   " ++ bar ++ " " ++ caret ++ "\n" ++
  "   " ++ bar ++ "\n"

/-- A remark below the report. -/
def remark (color : Bool) (ink : Ink) (text : String) : String :=
  "   " ++ paint color ink "=" ++ " " ++ paint color ink text ++ "\n"

/-- The report for people; every line of it ends with a line feed. -/
def render (d : Diagnostic) (color : Bool) : String :=
  let orEmpty (part : Option String) (f : String → String) : String := (part.map f).getD ""
  paint color .alarm d.kind.title ++ ": " ++ paint color .strong d.message ++ "\n" ++
  paint color .frame ("  --> " ++ d.location.shown) ++ "\n" ++
  orEmpty d.sourceLine (excerpt color d.location.position) ++
  orEmpty d.help (fun s => remark color .help ("help: " ++ s)) ++
  orEmpty d.suggestion (fun s => remark color .suggestion ("Did you mean '" ++ s ++ "'?")) ++
  orEmpty d.note (fun s => remark color .note ("note: " ++ s))

end Diagnostic

end EmojiLang
