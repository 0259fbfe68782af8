import EmojiLang.Diagnostic
import EmojiLang.Token.Lexer
import EmojiLang.Tree.Reader

/-!
# The grammar

Statements are recognized by their first tokens, expressions by levels of precedence.  The levels,
from the loosest to the tightest, are disjunction, conjunction, comparison (together with the bitwise
operators), sum, product, a single sign of negation, and operands.  A level without any of its
operators is the operand itself, and a level with several is one flat chain.

Delimiters are forgiven: where one is expected it is stepped over if it is there, and otherwise nothing
happens.  The only thing that cannot be read is an operand that begins with none of the tokens of
`operandKind` and no opening parenthesis.

**Recursion.** Each reader takes the readers of the constructs nested in it as arguments, and
`expression` and `statement` tie the knot with a budget.  Going down a level uses up a token, so a
budget above the number of unread tokens is never spent; `Tree.ofTokens` starts with such a budget.
-/

namespace EmojiLang
namespace Grammar

/-- Operators of disjunction. -/
def orSigns : List String := ["or", "||"]

/-- Operators of conjunction. -/
def andSigns : List String := ["and", "&&"]

/-- Relations, and the bitwise operators that share their level. -/
def comparisonSigns : List String := ["<", ">", "<=", ">=", "==", "!=", "&", "|", "^", "xor"]

/-- Operators of sums. -/
def sumSigns : List String := ["+", "-"]

/-- Operators of products. -/
def productSigns : List String := ["*", "/", "%", "mod"]

/-- Signs of negation. -/
def unarySigns : List String := ["!", "~", "not"]

section Expressions

/-- The operators of a level and the operands behind them, up to the first token that is none. -/
def links (signs : List String) (operand : Reader Tree) : (budget : Nat) → Reader (List Tree)
  | 0 => Reader.fail
  | budget + 1 => fun ts =>
      match ts with
      | [] => .read [] []
      | t :: rest =>
          if t.spellsAny signs then
            Reader.on rest do
              let right ← operand
              let more ← links signs operand budget
              return .leaf t :: right :: more
          else
            .read [] (t :: rest)

/-- One level: the operand alone, or the flat chain of all its operands and operators. -/
def level (kind : NodeKind) (signs : List String) (budget : Nat) (operand : Reader Tree) :
    Reader Tree := do
  let first ← operand
  let more ← links signs operand budget
  return if more.isEmpty then first else .node kind (first :: more)

/-- The node kind of a token that is an operand by itself. -/
def operandKind : TokenKind → Option NodeKind
  | .boolean => some .boolean
  | .number => some .number
  | .name => some .name
  | .string => some .string
  | .operator | .keyword | .delimiter | .eof => none

/-- A literal, a name, or an expression in parentheses. -/
def operand (expression : Reader Tree) : Reader Tree
  | [] => .stuck []
  | t :: rest =>
      match operandKind t.kind with
      | some kind => .read (.atom kind t) rest
      | none =>
          if t.spells "(" then
            Reader.on rest do
              let inner ← expression
              let _ ← Reader.accept ")"
              return inner
          else
            .stuck (t :: rest)

/-- An operand, with at most one sign of negation in front of it. -/
def unary (expression : Reader Tree) : Reader Tree
  | [] => .stuck []
  | t :: rest =>
      if t.spellsAny unarySigns then
        Reader.on rest do
          let right ← operand expression
          return .node .unary [.leaf t, right]
      else
        operand expression (t :: rest)

/-- An expression, its operands in parentheses being read by `inner`. -/
def levels (budget : Nat) (inner : Reader Tree) : Reader Tree :=
  level .disjunction orSigns budget <|
    level .conjunction andSigns budget <|
      level .comparison comparisonSigns budget <|
        level .sum sumSigns budget <|
          level .product productSigns budget <|
            unary inner

/-- An expression. -/
def expression : (budget : Nat) → Reader Tree
  | 0 => Reader.fail
  | budget + 1 => levels (budget + 1) (expression budget)

end Expressions

section Statements

variable (expression : Reader Tree)

/-- An assignment, once a name and the sign behind it are known to come next. -/
def assignment : Reader Tree
  | [] => .stuck []
  | t :: rest =>
      Reader.on rest do
        let _ ← Reader.accept "="
        let right ← expression
        return .node .assignment [.atom .name t, right]

/-- The entries of a declaration: names, each with an initial value or without one, divided by
commas.  A comma with no name behind it ends the list. -/
def entries : (budget : Nat) → Reader (List Tree)
  | 0 => Reader.fail
  | budget + 1 => fun ts =>
      match ts with
      | [] => .read [] []
      | t :: rest =>
          if t.kind = .name then
            Reader.on rest do
              let entry ← (do
                if ← Reader.accept "=" then
                  let right ← expression
                  return .node .assignment [.atom .name t, right]
                else
                  return .atom .name t : Reader Tree)
              if ← Reader.accept "," then
                let more ← entries budget
                return entry :: more
              else
                return [entry]
          else
            .read [] (t :: rest)

/-- A declaration, its keyword having been read. -/
def declaration (budget : Nat) : Reader Tree := do
  let declared ← entries expression budget
  return .node .declaration declared

/-- An output statement, its keyword having been read. -/
def printing : Reader Tree := do
  let _ ← Reader.accept "("
  let value ← expression
  let _ ← Reader.accept ")"
  return .node .printing [value]

/-- The updates of a counting loop: assignments divided by commas. -/
def updates : (budget : Nat) → Reader (List Tree)
  | 0 => Reader.fail
  | budget + 1 => fun ts =>
      if Reader.assignmentAhead ts then
        Reader.on ts do
          let first ← assignment expression
          if ← Reader.accept "," then
            let more ← updates budget
            return first :: more
          else
            return [first]
      else
        .read [] ts

/-- The start of a counting loop: a declaration, an assignment, or nothing. -/
def forInit (budget : Nat) : Reader Tree := fun ts =>
  match ts with
  | [] => .read (.node .forInit []) []
  | t :: rest =>
      if t.spells "decl" then
        Reader.on rest do
          let start ← declaration expression budget
          return .node .forInit [start]
      else if Reader.assignmentAhead (t :: rest) then
        Reader.on (t :: rest) do
          let start ← assignment expression
          return .node .forInit [start]
      else
        .read (.node .forInit []) (t :: rest)

/-- The test of a counting loop, which is missing if a semicolon comes at once. -/
def forTest : Reader Tree := fun ts =>
  if Reader.ahead ";" ts then
    .read (.node .forTest []) ts
  else
    Reader.on ts do
      let test ← expression
      return .node .forTest [test]

variable (statement : Reader Tree)

/-- The statements up to a closing brace or the end of the input. -/
def body : (budget : Nat) → Reader (List Tree)
  | 0 => Reader.fail
  | budget + 1 => fun ts =>
      if ts.isEmpty || Reader.ahead "\x7d" ts then
        .read [] ts
      else
        Reader.on ts do
          let first ← statement
          let more ← body budget
          return first :: more

/-- A block between braces. -/
def block (budget : Nat) : Reader Tree := do
  let _ ← Reader.accept "\x7b"
  let statements ← body statement budget
  let _ ← Reader.accept "\x7d"
  return .node .suite statements

/-- A condition in parentheses and the block that it guards. -/
def guarded (budget : Nat) : Reader (List Tree) := do
  let _ ← Reader.accept "("
  let test ← expression
  let _ ← Reader.accept ")"
  let guardedBlock ← block statement budget
  return [test, guardedBlock]

/-- The branches of a conditional behind its first one.  Nothing follows an `else`. -/
def branches : (budget : Nat) → Reader (List Tree)
  | 0 => Reader.fail
  | budget + 1 => fun ts =>
      match ts with
      | [] => .read [] []
      | t :: rest =>
          if t.spells "elif" then
            Reader.on rest do
              let branch ← guarded expression statement budget
              let more ← branches budget
              return .leaf t :: branch ++ more
          else if t.spells "else" then
            Reader.on rest do
              let last ← block statement budget
              return [.leaf t, last]
          else
            .read [] (t :: rest)

/-- A conditional, its keyword `t` having been read. -/
def conditional (budget : Nat) (t : Token) : Reader Tree := do
  let branch ← guarded expression statement budget
  let more ← branches expression statement budget
  return .node .conditional (.leaf t :: branch ++ more)

/-- A loop with a test only, its keyword having been read. -/
def whileLoop (budget : Nat) : Reader Tree := do
  let parts ← guarded expression statement budget
  return .node .whileLoop parts

/-- A counting loop, its keyword having been read. -/
def forLoop (budget : Nat) : Reader Tree := do
  let _ ← Reader.accept "("
  let start ← forInit expression budget
  let _ ← Reader.accept ";"
  let test ← forTest expression
  let _ ← Reader.accept ";"
  let steps ← updates expression budget
  let _ ← Reader.accept ")"
  let inner ← block statement budget
  return .node .forLoop [start, test, .node .forUpdates steps, inner]

end Statements

/-- A statement. -/
def statement : (budget : Nat) → Reader Tree
  | 0 => Reader.fail
  | budget + 1 => fun ts =>
      let inner := expression (budget + 1)
      match ts with
      | [] => .stuck []
      | t :: rest =>
          if t.spells "decl" then declaration inner (budget + 1) rest
          else if t.spells "print" then printing inner rest
          else if t.spells "if" then conditional inner (statement budget) (budget + 1) t rest
          else if t.spells "while" then whileLoop inner (statement budget) (budget + 1) rest
          else if t.spells "for" then forLoop inner (statement budget) (budget + 1) rest
          else if t.spellsAny ["break", "continue"] then .read (.node .jump [.leaf t]) rest
          else if Reader.assignmentAhead (t :: rest) then assignment inner (t :: rest)
          else inner (t :: rest)

/-- The statements of a whole program. -/
def statements (statement : Reader Tree) : (budget : Nat) → Reader (List Tree)
  | 0 => Reader.fail
  | budget + 1 => fun ts =>
      if ts.isEmpty then
        .read [] []
      else
        Reader.on ts do
          let first ← statement
          let more ← statements statement budget
          return first :: more

/-- A program. -/
def program (budget : Nat) : Reader Tree := do
  let all ← statements (statement budget) budget
  return .node .program all

end Grammar

namespace Token

/-- The tokens in front of the first end mark. -/
def beforeEnd (ts : List Token) : List Token :=
  ts.takeWhile fun t => decide (t.kind ≠ .eof)

/-- The first end mark; where there is none, one at the place of the last token. -/
def endMark (ts : List Token) : Token :=
  match ts.find? fun t => decide (t.kind = .eof) with
  | some t => t
  | none => Token.eof ((ts.getLast?.map Token.position).getD Position.start)

end Token

namespace Tree

/-- The program that a token sequence spells. -/
def ofTokens (ts : List Token) : Except Diagnostic Tree :=
  let unread := Token.beforeEnd ts
  match Grammar.program (unread.length + 1) unread with
  | .read t _ => .ok t
  | .stuck rest => .error (.unexpectedToken (rest.headD (Token.endMark ts)))

/-- The program that a text spells. -/
def ofSource (source : String) : Except Diagnostic Tree :=
  ofTokens (Token.scan source)

end Tree

end EmojiLang
