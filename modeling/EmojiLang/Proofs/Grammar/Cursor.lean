import EmojiLang.Proofs.Grammar.Lookahead

/-!
# A cursor over the tokens

The readers of the grammar take away the tokens that they have read, know nothing of end marks, and end by
their budgets.  The same language is read here in another way: a cursor moves along a sequence of tokens
with the end marks in it, and nothing bounds the loops and the nesting.  What a walk does is the least
solution of its equations, so a walk that goes on for ever has no outcome.

**Definitions.**
* `Token.ended ts`: the tokens with an end mark behind them, if the last one is none.
* `Walk`: moves the cursor, and ends with a result or a failure if it ends.  `Given` is a walk along tokens
  that it is given.
* `Cursor.peek`, `Cursor.advance`, `Cursor.check` and `Cursor.eat`: the steps at the cursor.
* `Cursor.expression`, `Cursor.statement` and `Cursor.program`: the walks for the constructs.
* `Cursor.parse ts`: the walk for a program along the ended tokens, from the first one.

**Results.** `run_bind` says what walks do one after the other, and the equations behind it what the steps do
in front of a walk.
-/

namespace EmojiLang

namespace Token

/-- The tokens with an end mark as the last one.  Where it is missing, it is put at the place of the last
token. -/
def ended (ts : List Token) : List Token :=
  if ts.getLast?.map Token.kind = some .eof then ts
  else ts ++ [Token.eof ((ts.getLast?.map Token.position).getD Position.start)]

end Token

/-- An action that moves a cursor along some tokens, given the number of those in front of it.  It may fail,
and it has no outcome at all if it does not end. -/
abbrev Walk (α : Type) : Type := ExceptT Diagnostic (StateT Nat Option) α

/-- A walk that depends on what it is given, such as the tokens along which it leads.  The walks that may call
themselves are of this form. -/
abbrev Given (σ α : Type) : Type := ReaderT σ (ExceptT Diagnostic (StateT Nat Option)) α

namespace Walk

variable {α β : Type}

/-- The outcome of a walk from some place: its result or its failure, with the place where it has ended. -/
def run (w : Walk α) (place : Nat) : Option (Except Diagnostic α × Nat) :=
  StateT.run (ExceptT.run w) place

/-- The outcome of a further walk, if the first one has ended and not failed. -/
def andThen (outcome : Option (Except Diagnostic α × Nat)) (f : α → Walk β) :
    Option (Except Diagnostic β × Nat) :=
  match outcome with
  | none => none
  | some (.ok a, place) => (f a).run place
  | some (.error d, place) => some (.error d, place)

@[simp]
theorem run_pure (a : α) (place : Nat) : (Pure.pure a : Walk α).run place = some (.ok a, place) := rfl

@[simp]
theorem run_throw (d : Diagnostic) (place : Nat) :
    (throw d : Walk α).run place = some (.error d, place) := rfl

theorem run_bind (w : Walk α) (f : α → Walk β) (place : Nat) :
    (w >>= f).run place = andThen (w.run place) f := by
  have whole : (w >>= f).run place =
      Option.bind (w.run place) fun outcome => StateT.run (ExceptT.bindCont f outcome.1) outcome.2 := rfl
  rw [whole]
  cases w.run place with
  | none => rfl
  | some outcome =>
      obtain ⟨_ | _, _⟩ := outcome <;> rfl

end Walk

namespace Cursor

open Grammar (ladder operandKind unarySigns)

section Steps

variable (ts : List Token)

/-- The token at some place.  Behind the last token it is the last one again. -/
def tokenAt (place : Nat) : Token :=
  ts.getD (min place (ts.length - 1)) (Token.eof Position.start)

/-- The token at the cursor. -/
def peek : Walk Token := do
  return tokenAt ts (← get)

/-- Steps over the token at the cursor, unless it is an end mark. -/
def advance : Walk Token := do
  let t ← peek ts
  if t.kind ≠ .eof then
    modify (· + 1)
  return t

/-- The token at the cursor spells `text`. -/
def check (text : String) : Walk Bool := do
  return (← peek ts).spells text

/-- The token at the cursor spells one of the texts. -/
def checkAny (texts : List String) : Walk Bool := do
  return (← peek ts).spellsAny texts

/-- Steps over the token at the cursor if it spells `text`, and tells whether it did. -/
def eat (text : String) : Walk Bool := do
  if ← check ts text then
    let _ ← advance ts
    return true
  else
    return false

/-- A name is at the cursor. -/
def atName : Walk Bool := do
  return decide ((← peek ts).kind = .name)

/-- A name with an assignment sign behind it is at the cursor. -/
def atAssignment : Walk Bool := do
  let place ← get
  return decide ((tokenAt ts place).kind = .name) && (tokenAt ts (place + 1)).spells "="

end Steps

section Expressions

mutual

/-- An expression. -/
def expression : Given (List Token) Tree := fun ts => climb.run (ts, ladder)
partial_fixpoint

/-- Some levels above that of negations, the loosest first.  A level without any of its operators is the
level below. -/
def climb : Given (List Token × List (NodeKind × List String)) Tree := fun (ts, rungs) => do
  match rungs with
  | [] => unary.run ts
  | (kind, signs) :: rungs =>
      let first ← climb.run (ts, rungs)
      if ← checkAny ts signs then
        let more ← links.run (ts, signs, rungs)
        return .node kind (first :: more)
      else
        return first
partial_fixpoint

/-- Operators of a level with their operands from the levels below, as long as there are any. -/
def links : Given (List Token × List String × List (NodeKind × List String)) (List Tree) :=
  fun (ts, signs, rungs) => do
  if ← checkAny ts signs then
    let sign ← advance ts
    let right ← climb.run (ts, rungs)
    let more ← links.run (ts, signs, rungs)
    return .leaf sign :: right :: more
  else
    return []
partial_fixpoint

/-- An operand, with at most one sign of negation in front of it. -/
def unary : Given (List Token) Tree := fun ts => do
  if ← checkAny ts unarySigns then
    let sign ← advance ts
    let right ← operand.run ts
    return .node .unary [.leaf sign, right]
  else
    operand.run ts
partial_fixpoint

/-- A literal, a name, or an expression in parentheses. -/
def operand : Given (List Token) Tree := fun ts => do
  let t ← peek ts
  match operandKind t.kind with
  | some kind =>
      let own ← advance ts
      return .atom kind own
  | none =>
      if ← check ts "(" then
        let _ ← advance ts
        let inner ← expression.run ts
        let _ ← eat ts ")"
        return inner
      else
        throw (.unexpectedToken t)
partial_fixpoint

end

end Expressions

section Statements

/-- An assignment, once a name and the sign behind it are known to come next. -/
def assignment (ts : List Token) : Walk Tree := do
  let name ← advance ts
  let _ ← eat ts "="
  let right ← expression ts
  return .node .assignment [.atom .name name, right]

/-- The entries of a declaration, as long as a name comes next and a comma behind its entry. -/
def entries : Given (List Token) (List Tree) := fun ts => do
  if ← atName ts then
    let name ← advance ts
    let entry ← (do
      if ← eat ts "=" then
        let right ← expression ts
        return .node .assignment [.atom .name name, right]
      else
        return .atom .name name : Walk Tree)
    if ← eat ts "," then
      let more ← entries.run ts
      return entry :: more
    else
      return [entry]
  else
    return []
partial_fixpoint

/-- A declaration, with its keyword at the cursor. -/
def declaration (ts : List Token) : Walk Tree := do
  let _ ← advance ts
  let declared ← entries ts
  return .node .declaration declared

/-- An output statement, with its keyword at the cursor. -/
def printing (ts : List Token) : Walk Tree := do
  let _ ← advance ts
  let _ ← eat ts "("
  let value ← expression ts
  let _ ← eat ts ")"
  return .node .printing [value]

/-- The updates of a counting loop. -/
def updates : Given (List Token) (List Tree) := fun ts => do
  if ← atAssignment ts then
    let first ← assignment ts
    if ← eat ts "," then
      let more ← updates.run ts
      return first :: more
    else
      return [first]
  else
    return []
partial_fixpoint

/-- The start of a counting loop. -/
def forInit (ts : List Token) : Walk Tree := do
  if ← check ts "decl" then
    let start ← declaration ts
    return .node .forInit [start]
  else if ← atAssignment ts then
    let start ← assignment ts
    return .node .forInit [start]
  else
    return .node .forInit []

/-- The test of a counting loop. -/
def forTest (ts : List Token) : Walk Tree := do
  if ← check ts ";" then
    return .node .forTest []
  else
    let test ← expression ts
    return .node .forTest [test]

/-- The cursor has arrived at an end mark. -/
def atEnd (ts : List Token) : Walk Bool := do
  return decide ((← peek ts).kind = .eof)

mutual

/-- A statement. -/
def statement : Given (List Token) Tree := fun ts => do
  if ← check ts "decl" then declaration ts
  else if ← check ts "print" then printing ts
  else if ← check ts "if" then conditional.run ts
  else if ← check ts "while" then whileLoop.run ts
  else if ← check ts "for" then forLoop.run ts
  else if ← checkAny ts ["break", "continue"] then
    let keyword ← advance ts
    return .node .jump [.leaf keyword]
  else if ← atAssignment ts then assignment ts
  else expression ts
partial_fixpoint

/-- The statements up to a closing brace or an end mark. -/
def body : Given (List Token) (List Tree) := fun ts => do
  if ← check ts "\x7d" then
    return []
  else if ← atEnd ts then
    return []
  else
    let first ← statement.run ts
    let more ← body.run ts
    return first :: more
partial_fixpoint

/-- A block between braces. -/
def block : Given (List Token) Tree := fun ts => do
  let _ ← eat ts "\x7b"
  let statements ← body.run ts
  let _ ← eat ts "\x7d"
  return .node .suite statements
partial_fixpoint

/-- A condition in parentheses and the block that it guards. -/
def guarded : Given (List Token) (List Tree) := fun ts => do
  let _ ← eat ts "("
  let test ← expression ts
  let _ ← eat ts ")"
  let guardedBlock ← block.run ts
  return [test, guardedBlock]
partial_fixpoint

/-- The branches of a conditional behind its first one. -/
def branches : Given (List Token) (List Tree) := fun ts => do
  if ← check ts "elif" then
    let keyword ← advance ts
    let branch ← guarded.run ts
    let more ← branches.run ts
    return .leaf keyword :: branch ++ more
  else if ← check ts "else" then
    let keyword ← advance ts
    let last ← block.run ts
    return [.leaf keyword, last]
  else
    return []
partial_fixpoint

/-- A conditional, with its keyword at the cursor. -/
def conditional : Given (List Token) Tree := fun ts => do
  let keyword ← advance ts
  let branch ← guarded.run ts
  let more ← branches.run ts
  return .node .conditional (.leaf keyword :: branch ++ more)
partial_fixpoint

/-- A loop with a test only, with its keyword at the cursor. -/
def whileLoop : Given (List Token) Tree := fun ts => do
  let _ ← advance ts
  let parts ← guarded.run ts
  return .node .whileLoop parts
partial_fixpoint

/-- A counting loop, with its keyword at the cursor. -/
def forLoop : Given (List Token) Tree := fun ts => do
  let _ ← advance ts
  let _ ← eat ts "("
  let start ← forInit ts
  let _ ← eat ts ";"
  let test ← forTest ts
  let _ ← eat ts ";"
  let steps ← updates ts
  let _ ← eat ts ")"
  let inner ← block.run ts
  return .node .forLoop [start, test, .node .forUpdates steps, inner]
partial_fixpoint

end

/-- The statements of a whole program. -/
def statements : Given (List Token) (List Tree) := fun ts => do
  if ← atEnd ts then
    return []
  else
    let first ← statement ts
    let more ← statements.run ts
    return first :: more
partial_fixpoint

/-- A program. -/
def program (ts : List Token) : Walk Tree := do
  let all ← statements ts
  return .node .program all

end Statements

/-- Walks along all tokens, from the first one. -/
def parse (ts : List Token) : Option (Except Diagnostic Tree × Nat) := (program (Token.ended ts)).run 0

section Running

variable {α : Type} (ts : List Token) (place : Nat)

@[simp]
theorem run_ite (c : Prop) [Decidable c] (v w : Walk α) :
    (if c then v else w).run place = if c then v.run place else w.run place := by
  split <;> rfl

@[simp]
theorem run_peek_bind (f : Token → Walk α) :
    (peek ts >>= f).run place = (f (tokenAt ts place)).run place := rfl

@[simp]
theorem run_check_bind (text : String) (f : Bool → Walk α) :
    (check ts text >>= f).run place = (f ((tokenAt ts place).spells text)).run place := rfl

@[simp]
theorem run_checkAny_bind (texts : List String) (f : Bool → Walk α) :
    (checkAny ts texts >>= f).run place = (f ((tokenAt ts place).spellsAny texts)).run place := rfl

@[simp]
theorem run_atName_bind (f : Bool → Walk α) :
    (atName ts >>= f).run place = (f (decide ((tokenAt ts place).kind = .name))).run place := rfl

@[simp]
theorem run_atEnd_bind (f : Bool → Walk α) :
    (atEnd ts >>= f).run place = (f (decide ((tokenAt ts place).kind = .eof))).run place := rfl

@[simp]
theorem run_atAssignment_bind (f : Bool → Walk α) :
    (atAssignment ts >>= f).run place =
      (f (decide ((tokenAt ts place).kind = .name) && (tokenAt ts (place + 1)).spells "=")).run place := rfl

variable {place : Nat}

/-- Stepping over a token moves the cursor by one. -/
theorem run_advance (goesOn : (tokenAt ts place).kind ≠ .eof) :
    (advance ts).run place = some (.ok (tokenAt ts place), place + 1) := by
  simp [advance, goesOn]
  rfl

/-- An end mark is not stepped over. -/
theorem run_advance_of_eof (ends : (tokenAt ts place).kind = .eof) :
    (advance ts).run place = some (.ok (tokenAt ts place), place) := by
  simp [advance, ends]

theorem run_advance_bind (goesOn : (tokenAt ts place).kind ≠ .eof) (f : Token → Walk α) :
    (advance ts >>= f).run place = (f (tokenAt ts place)).run (place + 1) := by
  rw [Walk.run_bind, run_advance ts goesOn, Walk.andThen]

end Running

end Cursor

end EmojiLang
