import EmojiLang.Console
import EmojiLang.Eval
import EmojiLang.Text.Blank
import EmojiLang.Tree.Parser

/-!
# Whole programs

A program text is read, shown as a tree if asked for, put into plain spelling unless told otherwise, and
run on a fresh machine.  A line feed is added behind the text before it is read.

`Program.runSource` keeps what came of the run; `Program.capture` gives the text by which runs are
compared: all that was printed, and one line on what stopped the program, if anything did.

A result of `none` says that the fuel did not suffice.
-/

namespace EmojiLang

/-- How programs are run and what is reported on the way. -/
structure Options where
  normalize : Bool := true
  showTree : Bool := false
  debugScopes : Bool := false
  banners : Bool := true
  capture : Bool := false
deriving DecidableEq, Repr, Inhabited

/-- A program ready to run, with the outline of its tree if that is to be shown. -/
structure Prepared where
  outline : String
  tree : Tree
deriving Repr, Inhabited

/-- What came of running a program text. -/
structure SourceRun where
  result : Except Diagnostic Machine
  console : Console

namespace Program

/-- Reads a program text. -/
def prepare (o : Options) (source : String) : Except Diagnostic Prepared :=
  match Tree.ofSource (source ++ "\n") with
  | .error d => .error d
  | .ok tree =>
      .ok { outline := if o.showTree then tree.pretty else ""
            tree := if o.normalize then tree.plain else tree }

/-- A fresh machine. -/
def machine (o : Options) (order : NameOrder := .declared) : Machine :=
  { tracing := o.debugScopes, order }

/-- Runs a program on a fresh machine. -/
def run (fuel : Nat) (o : Options) (t : Tree) (order : NameOrder := .declared) : Outcome Unit :=
  Machine.startWith fuel t (machine o order)

/-- What a run writes, unless its output is captured. -/
def written (o : Options) (p : Prepared) (m : Machine) : Console :=
  { out := p.outline ++ (if o.capture then "" else m.output), err := m.trace }

/-- Runs a program text.  Failures carry the name and the offending line. -/
def runSource (fuel : Nat) (o : Options) (name source : String) (order : NameOrder := .declared) :
    Option SourceRun :=
  match prepare o source with
  | .error d => some ⟨.error (d.inFile name source), .empty⟩
  | .ok p =>
      match run fuel o p.tree order with
      | .outOfFuel => none
      | .done _ m => some ⟨.ok m, written o p m⟩
      | .failed d m => some ⟨.error (d.inFile name source), written o p m⟩

/-- What a program prints and a line on what stopped it, without white space at the ends. -/
def capture (fuel : Nat) (source : String) (order : NameOrder := .declared) : Option String :=
  match prepare {} source with
  | .error d => some (Text.trim (d.summary ++ "\n"))
  | .ok p =>
      match run fuel {} p.tree order with
      | .outOfFuel => none
      | .done _ m => some (Text.trim m.output)
      | .failed d m => some (Text.trim (m.output ++ d.summary ++ "\n"))

end Program

end EmojiLang
