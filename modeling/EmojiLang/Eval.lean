import EmojiLang.Machine
import EmojiLang.Tree
import EmojiLang.Value.Operation

/-!
# Running trees

`exec` runs a tree of any shape.  A statement ends normally, with a value, or with a signal to the loop
around it; an expression always ends with its value.  Parts that a node should have and does not are
passed over: a missing operand is the unit value, a missing condition skips its branch.

**Recursion.** `visit` says what a node does, given how its subtrees are run; `exec` ties the knot
with fuel.  The fuel bounds the depth of the tree and the rounds of each loop.

**Results.** `rounds_succ` says what one round of a loop is, as a sequence of actions.
-/

namespace EmojiLang

/-- How a statement ends: normally with a value, or with a signal to the innermost loop. -/
inductive Flow where
  | normal (v : Value)
  | leave
  | next
deriving DecidableEq, Repr, Inhabited

namespace Flow

/-- A normal end without a value of interest. -/
def unit : Flow := .normal .unit

/-- The value of a normal end; a signal has none. -/
def value : Flow → Value
  | .normal v => v
  | .leave | .next => .unit

end Flow

namespace Eval

section Parts

variable (run : Tree → Exec Flow)

/-- The value of a subtree. -/
def value (t : Tree) : Exec Value := do
  let flow ← run t
  return flow.value

/-- The value of a subtree that may be missing. -/
def valueOrUnit : Option Tree → Exec Value
  | some t => value run t
  | none => return .unit

/-- Runs trees one after the other, whatever their signals.  The value is that of the last one. -/
def lastValue : Value → List Tree → Exec Value
  | last, [] => return last
  | _, t :: ts => do
      let v ← value run t
      lastValue v ts

/-- Runs statements up to the first signal. -/
def untilSignal : List Tree → Exec Flow
  | [] => return .unit
  | t :: ts => do
      match ← run t with
      | .normal _ => untilSignal ts
      | .leave => return .leave
      | .next => return .next

/-- How an assignment treats its name. -/
inductive Mode where
  | declare
  | assign
deriving DecidableEq, Repr

/-- Evaluates the right side of an assignment and binds its name to the value. -/
def assignment (mode : Mode) (t : Tree) : Exec Unit :=
  match (t.nodeAt 0).bind fun left => left.tokenAt 0 with
  | none => return ()
  | some name => do
      let v ← valueOrUnit run (t.nodeAt 1)
      match mode with
      | .declare => Exec.declare name v
      | .assign => Exec.assign name v

/-- An entry of a declaration: a name, or an assignment that makes its name. -/
def entry : Tree → Exec Unit
  | .node .name children =>
      match (Tree.node .name children).tokenAt 0 with
      | some name => Exec.declare name .unit
      | none => return ()
  | .node .assignment children => assignment run .declare (.node .assignment children)
  | _ => return ()

/-- The entries of a declaration from left to right. -/
def entries : List Tree → Exec Unit
  | [] => return ()
  | t :: ts => do
      entry run t
      entries ts

/-- The first branch of a conditional whose condition holds; later conditions are not evaluated. -/
def branches : List Tree → Exec Flow
  | [] => return .unit
  | .node _ _ :: rest => branches rest
  | .leaf keyword :: rest =>
      if keyword.spellsAny ["if", "elif"] then
        match rest with
        | test :: block :: more =>
            if test.isNode && block.isNode then do
              let v ← value run test
              if v.toBool then Exec.inScope (run block) else branches more
            else
              branches more
        | _ => return .unit
      else if keyword.spells "else" then
        match rest with
        | block :: more => if block.isNode then Exec.inScope (run block) else branches more
        | [] => return .unit
      else
        branches rest

/-- The truth of a condition. -/
def condition (t : Tree) : Exec Bool := do
  let v ← value run t
  return v.toBool

/-- Rounds of a loop: while the test holds, the body and then the update.  A signal to go on only ends
the body, a signal to leave ends the loop. -/
def rounds (test : Exec Bool) (body : Exec Flow) (update : Exec Unit) : (fuel : Nat) → Exec Unit
  | 0 => Exec.giveUp
  | fuel + 1 => fun m =>
      match test m with
      | .outOfFuel => .outOfFuel
      | .failed d m => .failed d m
      | .done false m => .done () m
      | .done true m =>
          match body m with
          | .outOfFuel => .outOfFuel
          | .failed d m => .failed d m
          | .done .leave m => .done () m
          | .done _ m =>
              match update m with
              | .outOfFuel => .outOfFuel
              | .failed d m => .failed d m
              | .done _ m => rounds test body update fuel m

theorem rounds_succ (test : Exec Bool) (body : Exec Flow) (update : Exec Unit) (fuel : Nat) :
    rounds test body update (fuel + 1) = test >>= fun holds =>
      match holds with
      | false => pure ()
      | true => body >>= fun flow =>
          match flow with
          | .leave => pure ()
          | .next | .normal _ => update >>= fun _ => rounds test body update fuel := by
  funext m
  simp only [rounds, Exec.bind_apply]
  cases test m with
  | outOfFuel => rfl
  | failed d after => rfl
  | done holds after =>
      cases holds with
      | false => rfl
      | true =>
          simp only [Exec.bind_apply]
          cases body after with
          | outOfFuel => rfl
          | failed d last => rfl
          | done flow last =>
              cases flow with
              | leave => rfl
              | next | normal =>
                  simp only [Exec.bind_apply]
                  cases update last <;> rfl

/-- A loop with a test only. -/
def whileLoop (fuel : Nat) (t : Tree) : Exec Unit :=
  match t.nodeAt 0, t.nodeAt 1 with
  | some test, some body =>
      rounds (condition run test) (Exec.inScope (run body)) (return ()) fuel
  | _, _ => return ()

/-- A counting loop.  Its start, test and updates share a scope around that of the body. -/
def forLoop (fuel : Nat) (t : Tree) : Exec Unit :=
  match t.nodeAt 0, t.nodeAt 1, t.nodeAt 2, t.nodeAt 3 with
  | some start, some test, some updates, some body =>
      Exec.inScope do
        let _ ← run start
        rounds (condition run test) (Exec.inScope (run body)) (do let _ ← run updates) fuel
  | _, _, _, _ => return ()

/-- Applies a binary operator; a token that names none leaves the left operand. -/
def applyBinary (sign : Token) (left right : Value) : Exec Value :=
  match BinaryOp.ofText sign.text with
  | none => return left
  | some op =>
      match op.apply left right with
      | some v => return v
      | none => Exec.fail (.remainderByZero sign.position)

/-- Folds operators and operands from the left.  A pair that is not an operator and an operand is
passed over. -/
def links : Value → List Tree → Exec Value
  | acc, .leaf sign :: .node kind children :: rest => do
      let right ← value run (.node kind children)
      let acc ← applyBinary sign acc right
      links acc rest
  | acc, _ :: _ :: rest => links acc rest
  | acc, _ => return acc

/-- The value of a chain of operands. -/
def chain (t : Tree) : Exec Value :=
  match t.nodeAt 0 with
  | none => return .unit
  | some first => do
      let v ← value run first
      links run v t.children.tail

/-- The value of a negated operand. -/
def unary (t : Tree) : Exec Value :=
  match t.tokenAt 0, t.nodeAt 1 with
  | some sign, some operand => do
      let v ← value run operand
      match UnaryOp.ofText sign.text with
      | some op => return op.apply v
      | none => return .unit
  | _, _ => return .unit

end Parts

/-- The signal of a jump. -/
def jump (t : Tree) : Flow :=
  match t.tokenAt 0 with
  | some keyword =>
      if keyword.spells "break" then .leave
      else if keyword.spells "continue" then .next
      else .unit
  | none => .unit

/-- The value of a number literal. -/
def number (t : Tree) : Value :=
  match t.tokenAt 0 with
  | some literal => .ofNumeral literal.text
  | none => .int 0

/-- The value of a truth literal. -/
def boolean (t : Tree) : Value :=
  .bool ((t.tokenAt 0).any fun literal => literal.spells "true")

/-- The value of a text literal. -/
def text (t : Tree) : Value :=
  match t.tokenAt 0 with
  | some literal => .string literal.text
  | none => .string ""

/-- Runs a tree, given how to run its subtrees and how many rounds a loop may take. -/
def visit (fuel : Nat) (run : Tree → Exec Flow) (t : Tree) : Exec Flow :=
  match t with
  | .leaf _ => return .unit
  | .node kind _ =>
      match kind with
      | .program => do
          let v ← lastValue run .unit t.nodes
          return .normal v
      | .suite => untilSignal run t.nodes
      | .declaration => do
          entries run t.nodes
          return .unit
      | .assignment => do
          assignment run .assign t
          return .unit
      | .printing =>
          match t.nodeAt 0 with
          | none => return .unit
          | some operand => do
              let v ← value run operand
              Exec.print v.text
              return .unit
      | .conditional => branches run t.children
      | .whileLoop => do
          whileLoop run fuel t
          return .unit
      | .forLoop => do
          forLoop run fuel t
          return .unit
      | .forInit | .forUpdates => do
          let _ ← lastValue run .unit t.nodes
          return .unit
      | .forTest =>
          match t.nodeAt 0 with
          | none => return .normal (.bool true)
          | some test => do
              let v ← value run test
              return .normal v
      | .jump => return jump t
      | .disjunction | .conjunction | .comparison | .sum | .product => do
          let v ← chain run t
          return .normal v
      | .unary => do
          let v ← unary run t
          return .normal v
      | .name =>
          match t.tokenAt 0 with
          | none => return .unit
          | some name => do
              let v ← Exec.lookup name
              return .normal v
      | .number => return .normal (number t)
      | .boolean => return .normal (boolean t)
      | .string => return .normal (text t)

/-- Runs a tree. -/
def exec : (fuel : Nat) → Tree → Exec Flow
  | 0, _ => Exec.giveUp
  | fuel + 1, t => visit fuel (exec fuel) t

end Eval

namespace Machine

/-- Runs a program on top of the present scopes, the outermost of which is made if there is none.  The
result is the value of the last statement. -/
def continueWith (fuel : Nat) (t : Tree) : Exec Value := fun m =>
  let env := if m.env.isEmpty then m.env.push else m.env
  Eval.value (Eval.exec fuel) t { m with env }

/-- Runs a program on a single empty scope, which is kept afterwards. -/
def startWith (fuel : Nat) (t : Tree) : Exec Unit := fun m =>
  (do let _ ← Eval.exec fuel t : Exec Unit) { m with env := Env.empty.push }

end Machine

end EmojiLang
