import EmojiLang.Eval
import EmojiLang.Proofs.Grammar.Derivation

/-!
# What phrases do

Running a tree of any shape passes over parts that are missing or misplaced.  In a tree of the grammar
nothing is missing, and running it is what the phrase says: the equations below have one line for each
production and no case for a gap.

**Results.** `visit_atom_name`, `visit_negation`, `visit_chain`, `visit_assignment`, `visit_declaration`,
`visit_printing`, `visit_conditional`, `visit_whileLoop`, `visit_forLoop` and their companions: running
a phrase, in terms of how its parts are run.
-/

namespace EmojiLang
namespace Eval

open Grammar (Derives Branch Guards branched chained closing signsOf)

section Access

@[simp]
theorem nodeAt_node (kind : NodeKind) (ts : List Tree) (i : Nat) :
    (Tree.node kind ts).nodeAt i = ts[i]?.filter Tree.isNode := rfl

@[simp]
theorem tokenAt_node (kind : NodeKind) (ts : List Tree) (i : Nat) :
    (Tree.node kind ts).tokenAt i = ts[i]?.bind Tree.token? := rfl

theorem nodes_eq_of_isNode (kind : NodeKind) {ts : List Tree} (h : ∀ t ∈ ts, t.isNode = true) :
    (Tree.node kind ts).nodes = ts :=
  List.filter_eq_self.mpr h

end Access

section Expressions

variable (fuel : Nat) (run : Tree → Exec Flow)

theorem visit_atom_name (t : Token) :
    visit fuel run (.atom .name t) = (do return .normal (← Exec.lookup t)) := rfl

theorem visit_atom_number (t : Token) :
    visit fuel run (.atom .number t) = return .normal (.ofNumeral t.text) := rfl

theorem visit_atom_boolean (t : Token) :
    visit fuel run (.atom .boolean t) = return .normal (.bool (t.spells "true")) := rfl

theorem visit_atom_string (t : Token) :
    visit fuel run (.atom .string t) = return .normal (.string t.text) := rfl

/-- The value of a negated operand; a token that is no sign of negation gives the unit value. -/
def negated (sign : Token) (v : Value) : Value :=
  match UnaryOp.ofText sign.text with
  | some op => op.apply v
  | none => .unit

theorem visit_negation (sign : Token) {operand : Tree} (node : operand.isNode = true) :
    visit fuel run (.node .unary [.leaf sign, operand]) =
      (do return .normal (negated sign (← value run operand))) := by
  have second : (Tree.node .unary [.leaf sign, operand]).nodeAt 1 = some operand := by
    simp [node]
  simp only [visit, unary, second, tokenAt_node, List.getElem?_cons_zero, Option.bind_some,
    Tree.token?]
  funext m
  simp only [Exec.bind_apply, negated]
  cases value run operand m with
  | done v after => cases UnaryOp.ofText sign.text <;> rfl
  | failed d after => rfl
  | outOfFuel => rfl

/-- Folds the links of a chain from the left. -/
def fold : Value → List (Token × Tree) → Exec Value
  | acc, [] => return acc
  | acc, link :: rest => do
      let right ← value run link.2
      let acc ← applyBinary link.1 acc right
      fold acc rest

theorem links_chained {pairs : List (Token × Tree)} (nodes : ∀ p ∈ pairs, p.2.isNode = true)
    (acc : Value) : links run acc (chained pairs) = fold run acc pairs := by
  induction pairs generalizing acc with
  | nil => rfl
  | cons pair rest ih =>
      obtain ⟨sign, right⟩ := pair
      have node : right.isNode = true := nodes (sign, right) (by simp)
      cases right with
      | leaf token =>
          simp [Tree.isNode] at node
      | node kind children =>
          simp only [Grammar.chained_cons, links, fold]
          simp only [ih fun p hp => nodes p (List.mem_cons_of_mem _ hp)]

theorem visit_chain {kind : NodeKind} {signs : List String} (own : signsOf kind = some signs)
    {first : Tree} {pairs : List (Token × Tree)} (node : first.isNode = true)
    (nodes : ∀ p ∈ pairs, p.2.isNode = true) :
    visit fuel run (.node kind (first :: chained pairs)) =
      (do
        let v ← value run first
        return .normal (← fold run v pairs)) := by
  have body : chain run (.node kind (first :: chained pairs)) =
      (do
        let v ← value run first
        fold run v pairs) := by
    have head : (Tree.node kind (first :: chained pairs)).nodeAt 0 = some first := by
      simp [node]
    simp only [chain, head, Tree.children, List.tail_cons, links_chained run nodes]
  have visited : visit fuel run (.node kind (first :: chained pairs)) =
      (do return .normal (← chain run (.node kind (first :: chained pairs)))) := by
    cases kind <;> simp [signsOf] at own <;> rfl
  rw [visited, body]
  exact Exec.bind_assoc _ _ _

end Expressions

section Statements

variable (fuel : Nat) (run : Tree → Exec Flow)

theorem assignment_eq (mode : Mode) (name : Token) {right : Tree} (node : right.isNode = true) :
    assignment run mode (.node .assignment [.atom .name name, right]) =
      (do
        let v ← value run right
        match mode with
        | .declare => Exec.declare name v
        | .assign => Exec.assign name v) := by
  have second : (Tree.node .assignment [.atom .name name, right]).nodeAt 1 = some right := by
    simp [node]
  simp only [assignment, second]
  rfl

theorem visit_assignment (name : Token) {right : Tree} (node : right.isNode = true) :
    visit fuel run (.node .assignment [.atom .name name, right]) =
      (do
        let v ← value run right
        Exec.assign name v
        return .unit) := by
  simp only [visit, assignment_eq run .assign name node]
  exact Exec.bind_assoc _ _ _

theorem entry_bare (name : Token) : entry run (.atom .name name) = Exec.declare name .unit := rfl

theorem entry_initialized (name : Token) {right : Tree} (node : right.isNode = true) :
    entry run (.node .assignment [.atom .name name, right]) =
      (do
        let v ← value run right
        Exec.declare name v) :=
  assignment_eq run .declare name node

theorem visit_declaration {ts : List Tree} (nodes : ∀ t ∈ ts, t.isNode = true) :
    visit fuel run (.node .declaration ts) =
      (do
        entries run ts
        return .unit) := by
  simp only [visit, nodes_eq_of_isNode _ nodes]

theorem visit_printing {operand : Tree} (node : operand.isNode = true) :
    visit fuel run (.node .printing [operand]) =
      (do
        let v ← value run operand
        Exec.print v.text
        return .unit) := by
  have first : (Tree.node .printing [operand]).nodeAt 0 = some operand := by
    simp [node]
  simp only [visit, first]

theorem visit_jump (keyword : Token) :
    visit fuel run (.node .jump [.leaf keyword]) =
      return (if keyword.spells "break" then .leave
        else if keyword.spells "continue" then .next else .unit) := rfl

theorem branches_branched_cons (b : Branch) (rest : List Tree)
    (spelled : b.keyword.spellsAny ["if", "elif"] = true) (test : b.test.isNode = true)
    (block : b.block.isNode = true) :
    branches run (.leaf b.keyword :: b.test :: b.block :: rest) =
      (do
        let v ← value run b.test
        if v.toBool then Exec.inScope (run b.block) else branches run rest) := by
  rw [branches]
  simp [spelled, test, block]

theorem branches_closing {last : Option (Token × Tree)}
    (spelled : ∀ e ∈ last, e.1.spells "else" = true) (block : ∀ e ∈ last, e.2.isNode = true) :
    branches run (closing last) =
      last.elim (return .unit) fun e => Exec.inScope (run e.2) := by
  cases last with
  | none => rfl
  | some e =>
      have closes : e.1.spells "else" = true := spelled e rfl
      have node : e.2.isNode = true := block e rfl
      -- a token that spells `else` begins no branch with a test
      have opens : e.1.spellsAny ["if", "elif"] = false := by
        simp only [Token.spells, Bool.and_eq_true, beq_iff_eq] at closes
        simp [Token.spellsAny, Token.spells, closes.2]
      obtain ⟨keyword, inner⟩ := e
      simp only [closing, branches]
      simp [closes, opens, node]

theorem branches_guards_nil {last : Option (Token × Tree)} (h : Guards [] last) :
    branches run (branched [] ++ closing last) =
      last.elim (return .unit) fun e => Exec.inScope (run e.2) := by
  rw [Grammar.branched_nil, List.nil_append]
  exact branches_closing run h.closes fun e he => (h.ends e he).isNode

theorem branches_guards_cons {b : Branch} {bs : List Branch} {last : Option (Token × Tree)}
    (h : Guards (b :: bs) last) :
    branches run (branched (b :: bs) ++ closing last) =
      (do
        let v ← value run b.test
        if v.toBool then Exec.inScope (run b.block)
        else branches run (branched bs ++ closing last)) :=
  branches_branched_cons run b _ (h.spelled b (by simp)) (h.tests b (by simp)).isNode
    (h.blocks b (by simp)).isNode

theorem visit_conditional (ts : List Tree) :
    visit fuel run (.node .conditional ts) = branches run ts := rfl

theorem visit_whileLoop {test block : Tree} (testNode : test.isNode = true)
    (blockNode : block.isNode = true) :
    visit fuel run (.node .whileLoop [test, block]) =
      (do
        rounds (condition run test) (Exec.inScope (run block)) (return ()) fuel
        return .unit) := by
  have first : (Tree.node .whileLoop [test, block]).nodeAt 0 = some test := by
    simp [testNode]
  have second : (Tree.node .whileLoop [test, block]).nodeAt 1 = some block := by
    simp [blockNode]
  simp only [visit, whileLoop, first, second]

theorem visit_forLoop {start test updates block : Tree} (startNode : start.isNode = true)
    (testNode : test.isNode = true) (updatesNode : updates.isNode = true)
    (blockNode : block.isNode = true) :
    visit fuel run (.node .forLoop [start, test, updates, block]) =
      (do
        Exec.inScope do
          let _ ← run start
          rounds (condition run test) (Exec.inScope (run block)) (do let _ ← run updates) fuel
        return .unit) := by
  have first : (Tree.node .forLoop [start, test, updates, block]).nodeAt 0 = some start := by
    simp [startNode]
  have second : (Tree.node .forLoop [start, test, updates, block]).nodeAt 1 = some test := by
    simp [testNode]
  have third : (Tree.node .forLoop [start, test, updates, block]).nodeAt 2 = some updates := by
    simp [updatesNode]
  have fourth : (Tree.node .forLoop [start, test, updates, block]).nodeAt 3 = some block := by
    simp [blockNode]
  simp only [visit, forLoop, first, second, third, fourth]

theorem visit_noTest :
    visit fuel run (.node .forTest []) = return .normal (.bool true) := rfl

theorem visit_test {t : Tree} (node : t.isNode = true) :
    visit fuel run (.node .forTest [t]) = (do return .normal (← value run t)) := by
  have first : (Tree.node .forTest [t]).nodeAt 0 = some t := by
    simp [node]
  simp only [visit, first]

theorem visit_forInit {ts : List Tree} (nodes : ∀ t ∈ ts, t.isNode = true) :
    visit fuel run (.node .forInit ts) =
      (do
        let _ ← lastValue run .unit ts
        return .unit) := by
  simp only [visit, nodes_eq_of_isNode _ nodes]

theorem visit_forUpdates {ts : List Tree} (nodes : ∀ t ∈ ts, t.isNode = true) :
    visit fuel run (.node .forUpdates ts) =
      (do
        let _ ← lastValue run .unit ts
        return .unit) := by
  simp only [visit, nodes_eq_of_isNode _ nodes]

theorem visit_suite {ts : List Tree} (nodes : ∀ t ∈ ts, t.isNode = true) :
    visit fuel run (.node .suite ts) = untilSignal run ts := by
  simp only [visit, nodes_eq_of_isNode _ nodes]

theorem visit_program {ts : List Tree} (nodes : ∀ t ∈ ts, t.isNode = true) :
    visit fuel run (.node .program ts) = (do return .normal (← lastValue run .unit ts)) := by
  simp only [visit, nodes_eq_of_isNode _ nodes]

end Statements

end Eval
end EmojiLang
