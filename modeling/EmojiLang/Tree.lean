import EmojiLang.Glyph
import EmojiLang.Text.Lines

/-!
# Parse trees

A tree is a token, or a node with a kind and a list of subtrees.  Nodes keep the tokens that decide
what is done (operators, and the keywords of conditionals and jumps) in the spelling of the program;
delimiters and the other keywords are gone.  Trees of any shape are admitted, also ones that no
program text has.

`Tree.plain` puts the kept tokens into their plain spelling, and `Tree.respelled` counts how many of
them change.

**Results.** `leaves_mapTokens` says that a replacement of tokens acts on the leaves one by one and
leaves the shape alone.
-/

namespace EmojiLang

/-- The kinds of nodes.  Those from `disjunction` on have a value. -/
inductive NodeKind where
  | program
  | suite
  | declaration
  | assignment
  | printing
  | conditional
  | whileLoop
  | forLoop
  | forInit
  | forTest
  | forUpdates
  | jump
  | disjunction
  | conjunction
  | comparison
  | sum
  | product
  | unary
  | name
  | number
  | boolean
  | string
deriving DecidableEq, Repr, Inhabited

namespace NodeKind

/-- All kinds of nodes. -/
def all : List NodeKind :=
  [.program, .suite, .declaration, .assignment, .printing, .conditional, .whileLoop, .forLoop,
    .forInit, .forTest, .forUpdates, .jump, .disjunction, .conjunction, .comparison, .sum, .product,
    .unary, .name, .number, .boolean, .string]

/-- The tag of a node in a printed tree. -/
def tag : NodeKind → String
  | .program => "stmt"
  | .suite => "suite"
  | .declaration => "declare_stmt"
  | .assignment => "assignment_stmt"
  | .printing => "print_stmt"
  | .conditional => "if_stmt"
  | .whileLoop => "while_stmt"
  | .forLoop => "for_stmt"
  | .forInit => "for_decl"
  | .forTest => "for_test"
  | .forUpdates => "for_updates"
  | .jump => "flow_stmt"
  | .disjunction => "logicalorexpression"
  | .conjunction => "logicalandexpression"
  | .comparison => "equalityexpression"
  | .sum => "additiveexpression"
  | .product => "multiplicativeexpression"
  | .unary => "castexpression"
  | .name => "name"
  | .number => "number"
  | .boolean => "boolean"
  | .string => "string"

/-- The node stands for a value and not for an action. -/
def isExpression : NodeKind → Bool
  | .disjunction | .conjunction | .comparison | .sum | .product | .unary => true
  | .name | .number | .boolean | .string => true
  | _ => false

end NodeKind

/-- A token, or a node with its subtrees in order. -/
inductive Tree where
  | leaf (token : Token)
  | node (kind : NodeKind) (children : List Tree)
deriving Repr, Inhabited

namespace Tree

/-- A name or literal: a node around a single token. -/
def atom (kind : NodeKind) (t : Token) : Tree := .node kind [.leaf t]

/-- The token of a leaf. -/
def token? : Tree → Option Token
  | .leaf t => some t
  | .node _ _ => none

/-- The subtrees of a node; a leaf has none. -/
def children : Tree → List Tree
  | .leaf _ => []
  | .node _ children => children

/-- The tree is a node. -/
def isNode : Tree → Bool
  | .leaf _ => false
  | .node _ _ => true

/-- The `i`-th subtree, if it is a token. -/
def tokenAt (t : Tree) (i : Nat) : Option Token :=
  t.children[i]?.bind token?

/-- The `i`-th subtree, if it is a node. -/
def nodeAt (t : Tree) (i : Nat) : Option Tree :=
  t.children[i]?.filter isNode

/-- The subtrees that are nodes. -/
def nodes (t : Tree) : List Tree :=
  t.children.filter isNode

mutual

/-- The tokens of a tree from left to right. -/
def leaves : Tree → List Token
  | .leaf t => [t]
  | .node _ children => leavesOf children

/-- The tokens of a row of trees from left to right. -/
def leavesOf : List Tree → List Token
  | [] => []
  | t :: ts => leaves t ++ leavesOf ts

end

mutual

/-- Replaces every token, keeping the shape. -/
def mapTokens (f : Token → Token) : Tree → Tree
  | .leaf t => .leaf (f t)
  | .node kind children => .node kind (mapTokensOf f children)

/-- Replaces every token in a row of trees. -/
def mapTokensOf (f : Token → Token) : List Tree → List Tree
  | [] => []
  | t :: ts => mapTokens f t :: mapTokensOf f ts

end

mutual

theorem leaves_mapTokens (f : Token → Token) :
    ∀ t : Tree, (t.mapTokens f).leaves = t.leaves.map f
  | .leaf t => by
      simp [mapTokens, leaves]
  | .node kind children => by
      simp [mapTokens, leaves, leavesOf_mapTokensOf f children]

theorem leavesOf_mapTokensOf (f : Token → Token) :
    ∀ ts : List Tree, leavesOf (mapTokensOf f ts) = (leavesOf ts).map f
  | [] => by
      simp [mapTokensOf, leavesOf]
  | t :: ts => by
      simp [mapTokensOf, leavesOf, leaves_mapTokens f t, leavesOf_mapTokensOf f ts]

end

mutual

/-- One line for each node and token, indented by two blanks for each level. -/
def outline (depth : Nat) : Tree → String
  | .leaf t => Text.times depth "  " ++ t.shown ++ "\n"
  | .node kind children =>
      Text.times depth "  " ++ kind.tag ++ "\n" ++ outlineOf (depth + 1) children

/-- The lines of a row of trees. -/
def outlineOf (depth : Nat) : List Tree → String
  | [] => ""
  | t :: ts => outline depth t ++ outlineOf depth ts

end

/-- The tree as an indented outline. -/
def pretty (t : Tree) : String := t.outline 0

end Tree

namespace Token

/-- The token in its plain spelling.  Names, literals and the end mark are left as they are. -/
def plain (t : Token) : Token :=
  if t.kind.isSpelled then { t with text := Glyph.plain t.text } else t

/-- The plain spelling differs from the present one. -/
def isRespelled (t : Token) : Bool := t.plain.text != t.text

end Token

namespace Tree

/-- The tree with all tokens in their plain spelling. -/
def plain (t : Tree) : Tree := t.mapTokens Token.plain

/-- The number of tokens that `plain` changes. -/
def respelled (t : Tree) : Nat := t.leaves.countP Token.isRespelled

end Tree

end EmojiLang
