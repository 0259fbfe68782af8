import EmojiLang.Program
import EmojiLang.Text.Utf8

/-!
# Interactive sessions

A session reads lines.  A line that begins with a colon is a command, unless an input is under way.
Other lines are gathered until every brace and parenthesis opened in them is closed; then they are run
together, on top of what earlier inputs have left behind.  If the last statement is an expression, its
value is shown.

A session ends at a command to quit, at the end of its input, or at a line that is no text; an input
that is still under way is then dropped.

**Results.** `isComplete_iff` says that an input is complete if it opens no more than it closes.
-/

namespace EmojiLang

/-- The state of a session between two lines. -/
structure Session where
  machine : Machine := {}
  showTree : Bool := false
  normalize : Bool := true
  pending : String := ""
deriving Repr, Inhabited

namespace Session

/-- A session that has read nothing. -/
def start (o : Options) (order : NameOrder := .declared) : Session :=
  { machine := Program.machine o order, showTree := o.showTree, normalize := o.normalize }

section Completeness

/-- A token's contribution to the number of braces and parentheses that are open. -/
def nesting (t : Token) : Int :=
  if t.kind = .delimiter then
    match Glyph.plain t.text with
    | "\x7b" | "(" => 1
    | "\x7d" | ")" => -1
    | _ => 0
  else
    0

/-- The number of braces and parentheses opened, less the number closed. -/
def depth : List Token → Int
  | [] => 0
  | t :: ts => nesting t + depth ts

/-- The text opens no more than it closes. -/
def isComplete (text : String) : Bool := decide (depth (Token.scan text) ≤ 0)

theorem isComplete_iff (text : String) :
    isComplete text = true ↔ depth (Token.scan text) ≤ 0 := by
  simp [isComplete]

end Completeness

section Texts

/-- The version of the language. -/
def version : String := "0.3.0"

/-- What a session begins with. -/
def greeting : String :=
  "Emo REPL v" ++ version ++ " 📢 🖨 🚩 💿\n" ++
  "  Welcome! Use :help for commands or :quit to exit\n" ++
  "  Tip: Multi-line input: leave a 🍽 or 👉 unclosed\n\n"

/-- The answer to a command to quit. -/
def farewell : String := "Goodbye!\n"

/-- The list of commands. -/
def help : String :=
  "\nREPL Commands:\n\n" ++
  "  :help or :h       Display this help message\n" ++
  "  :quit or :q       Exit the REPL\n" ++
  "  :vars or :v       Show variables in every scope\n" ++
  "  :reset or :r      Reset environment\n" ++
  "  :tree or :t       Toggle parse tree printing\n" ++
  "\nExamples:\n\n" ++
  "  emo> 📢 x 😌 41\n" ++
  "  emo> 🖨👉x ➕ 1👈\n" ++
  "  42\n" ++
  "  emo> 🚩👉x 😁 40👈🍽\n" ++
  "  ...>     🖨👉\"big\"👈\n" ++
  "  ...> 🥂\n\n"

/-- The bindings of a scope in the order of their names. -/
def sortedBindings (s : Scope) : List (String × Value) :=
  s.mergeSort fun a b => decide (a.1 ≤ b.1)

/-- One line for each binding, outer scopes first. -/
def listing (env : Env) : String :=
  let line (depth : Nat) (b : String × Value) : String :=
    "  [" ++ toString depth ++ "] " ++ b.1 ++ " = " ++ b.2.text ++ " (" ++ b.2.typeName ++ ")\n"
  let scope (entry : Scope × Nat) : String :=
    String.join ((sortedBindings entry.1).map (line entry.2))
  let nothing := if env.all List.isEmpty then "  (none)\n" else ""
  "\nDefined Variables:\n\n" ++ nothing ++
    String.join (env.outermostFirst.zipIdx.map scope) ++ "\n"

end Texts

/-- The commands of a session. -/
inductive Command where
  | help
  | quit
  | listing
  | reset
  | tree
  | unknown (text : String)
deriving DecidableEq, Repr

/-- The command that a line spells. -/
def Command.ofText : String → Command
  | ":help" | ":h" => .help
  | ":quit" | ":q" | ":exit" => .quit
  | ":vars" | ":v" => .listing
  | ":reset" | ":r" => .reset
  | ":tree" | ":t" => .tree
  | other => .unknown other

/-- What a session does next. -/
inductive Reaction where
  | goOn (session : Session)
  | close
deriving Repr

/-- Carries out a command. -/
def obey (s : Session) : Command → Reaction × Console
  | .help => (.goOn s, Console.empty.print help)
  | .quit => (.close, Console.empty.print farewell)
  | .listing => (.goOn s, Console.empty.print (listing s.machine.env))
  | .reset =>
      (.goOn { s with machine := { tracing := s.machine.tracing, order := s.machine.order } },
        Console.empty.print "✓ Environment reset\n")
  | .tree =>
      let state := if s.showTree then "off" else "on"
      (.goOn { s with showTree := !s.showTree },
        Console.empty.print ("✓ tree printing " ++ state ++ "\n"))
  | .unknown text =>
      (.goOn s, Console.empty.print
        ("Error: Unknown command: " ++ text ++ ". Type :help for available commands.\n"))

/-- The name under which inputs are reported. -/
def inputName : String := "<repl>"

/-- The last part of a program is an expression. -/
def endsWithExpression (t : Tree) : Bool :=
  match t.children.getLast? with
  | some (.node kind _) => kind.isExpression
  | _ => false

/-- The machine without the texts of the input before. -/
def fresh (m : Machine) : Machine := { m with output := "", trace := "" }

/-- Runs a complete input.  `none` says that the fuel did not suffice. -/
def runInput (fuel : Nat) (s : Session) (input : String) : Option (Session × Console) :=
  if Text.isBlank input then some (s, .empty)
  else
    match Tree.ofSource input with
    | .error d => some (s, Console.empty.warn ((d.inFile inputName input).render false))
    | .ok tree =>
        let shown := Console.empty.print (if s.showTree then tree.pretty else "")
        let plain := if s.normalize then tree.plain else tree
        match Machine.continueWith fuel plain (fresh s.machine) with
        | .outOfFuel => none
        | .done v m =>
            let echo := if endsWithExpression plain then "=> " ++ v.text ++ "\n" else ""
            some ({ s with machine := fresh m }, (shown ++ ⟨m.output, m.trace⟩).print echo)
        | .failed d m =>
            some ({ s with machine := fresh m },
              (shown ++ ⟨m.output, m.trace⟩).warn ((d.inFile inputName input).render false))

/-- Takes in a line. -/
def feed (fuel : Nat) (s : Session) (line : String) : Option (Reaction × Console) :=
  if s.pending.isEmpty && (Text.trim line).startsWith ":" then
    some (s.obey (Command.ofText (Text.trim line)))
  else
    let input := s.pending ++ line ++ "\n"
    if isComplete input then
      (runInput fuel s input).map fun (after, console) =>
        (.goOn { after with pending := "" }, console)
    else
      some (.goOn { s with pending := input }, .empty)

section Transcript

/-- A line of input; `none` stands for bytes that are no text. -/
abbrev Line := Option String

/-- Takes in lines until the session ends. -/
def feedAll (fuel : Nat) : Session → Console → List Line → Option Console
  | _, console, [] => some (console.print ("\n" ++ farewell))
  | _, console, none :: _ =>
      some (console.warn "Error: stream did not contain valid UTF-8\n")
  | s, console, some line :: rest =>
      match s.feed fuel line with
      | none => none
      | some (.close, written) => some (console ++ written)
      | some (.goOn next, written) => feedAll fuel next (console ++ written) rest

/-- A whole session on the given bytes. -/
def run (fuel : Nat) (o : Options) (input : List UInt8) (order : NameOrder := .declared) :
    Option Console :=
  feedAll fuel (start o order) (Console.empty.print greeting) ((Text.byteLines input).map Text.decode?)

end Transcript

end Session

end EmojiLang
