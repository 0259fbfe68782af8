import EmojiLang.Proofs.Eval.Blame
import EmojiLang.Proofs.Grammar.Layout
import EmojiLang.Proofs.Grammar.Respelling

/-!
# Nothing is passed over

Running a tree of any shape passes over parts that are missing, misplaced or not understood: gaps.  The
runs of this module do something of their own choice at each gap before they pass over it.  On a tree
that has been read it makes no difference what that is, so no run ever comes to a gap.

**Definitions.** `Watched.visit` and `Watched.exec` are the runs with an action `atGap` at every gap:
* a token where a node is to be run, and the other way round;
* a name, operand, condition or block that is missing;
* an operator that names no operation, and a keyword that begins no branch and no jump;
* an operand or condition that ends with a signal and has no value.

**Results.**
* `Watched.exec_pure`: on a tree of any shape, with nothing done at the gaps, this is the ordinary run.
* `Watched.exec_eq`: on a phrase of the grammar it is the ordinary run whatever is done at the gaps.
* `ofTokens_gapless`: a tree that has been read is laid out as the grammar says in all its parts, and its
  runs come to no gap.
-/

namespace EmojiLang
namespace Eval

open Grammar (Derives Phrase Branch Guards branched chained closing signsOf)

namespace Watched

section Parts

variable (atGap : Exec Unit) (run : Tree → Exec Flow)

/-- The value of a subtree; a signal in its place is a gap. -/
def value (t : Tree) : Exec Value := do
  match ← run t with
  | .normal v => return v
  | .leave | .next => do
      atGap
      return .unit

/-- The value of a subtree; its absence is a gap. -/
def valueOrUnit : Option Tree → Exec Value
  | some t => value atGap run t
  | none => do
      atGap
      return .unit

/-- Runs the nodes of a row, whatever their signals; a token among them is a gap. -/
def lastValue : Value → List Tree → Exec Value
  | last, [] => return last
  | last, .leaf _ :: ts => do
      atGap
      lastValue last ts
  | _, .node kind parts :: ts => do
      let v ← Eval.value run (.node kind parts)
      lastValue v ts

/-- Runs the nodes of a row up to the first signal; a token among them is a gap. -/
def untilSignal : List Tree → Exec Flow
  | [] => return .unit
  | .leaf _ :: ts => do
      atGap
      untilSignal ts
  | .node kind parts :: ts => do
      match ← run (.node kind parts) with
      | .normal _ => untilSignal ts
      | .leave => return .leave
      | .next => return .next

/-- An assignment; a missing name or right side is a gap. -/
def assignment (mode : Mode) (t : Tree) : Exec Unit :=
  match (t.nodeAt 0).bind fun left => left.tokenAt 0 with
  | none => atGap
  | some name => do
      let v ← valueOrUnit atGap run (t.nodeAt 1)
      match mode with
      | .declare => Exec.declare name v
      | .assign => Exec.assign name v

/-- An entry of a declaration; anything but a name or an assignment is a gap. -/
def entry : Tree → Exec Unit
  | .node .name parts =>
      match (Tree.node .name parts).tokenAt 0 with
      | some name => Exec.declare name .unit
      | none => atGap
  | .node .assignment parts => assignment atGap run .declare (.node .assignment parts)
  | _ => atGap

/-- The entries of a declaration from left to right. -/
def entries : List Tree → Exec Unit
  | [] => return ()
  | t :: ts => do
      entry atGap run t
      entries ts

/-- The branches of a conditional; whatever does not belong to one is a gap. -/
def branches : List Tree → Exec Flow
  | [] => return .unit
  | .node _ _ :: rest => do
      atGap
      branches rest
  | .leaf keyword :: rest =>
      if keyword.spellsAny ["if", "elif"] then
        match rest with
        | test :: block :: more =>
            if test.isNode && block.isNode then do
              let v ← value atGap run test
              if v.toBool then Exec.inScope (run block) else branches more
            else do
              atGap
              branches more
        | _ => do
            atGap
            return .unit
      else if keyword.spells "else" then
        match rest with
        | block :: more =>
            if block.isNode then Exec.inScope (run block)
            else do
              atGap
              branches more
        | [] => do
            atGap
            return .unit
      else do
        atGap
        branches rest

/-- The truth of a condition. -/
def condition (t : Tree) : Exec Bool := do
  let v ← value atGap run t
  return v.toBool

/-- A loop with a test only; without a test or a block there is a gap. -/
def whileLoop (fuel : Nat) (t : Tree) : Exec Unit :=
  match t.nodeAt 0, t.nodeAt 1 with
  | some test, some body =>
      rounds (condition atGap run test) (Exec.inScope (run body)) (return ()) fuel
  | _, _ => atGap

/-- A counting loop; without one of its four parts there is a gap. -/
def forLoop (fuel : Nat) (t : Tree) : Exec Unit :=
  match t.nodeAt 0, t.nodeAt 1, t.nodeAt 2, t.nodeAt 3 with
  | some start, some test, some updates, some body =>
      Exec.inScope do
        let _ ← run start
        rounds (condition atGap run test) (Exec.inScope (run body)) (do let _ ← run updates) fuel
  | _, _, _, _ => atGap

/-- A binary operator; a token that names no operation is a gap. -/
def applyBinary (sign : Token) (left right : Value) : Exec Value :=
  match BinaryOp.ofText sign.text with
  | none => do
      atGap
      return left
  | some op =>
      match op.apply left right with
      | some v => return v
      | none => Exec.fail (.remainderByZero sign.position)

/-- The operators and operands of a chain; a pair that is none, and a last part that belongs to no pair,
are gaps. -/
def links : Value → List Tree → Exec Value
  | acc, .leaf sign :: .node kind parts :: rest => do
      let right ← value atGap run (.node kind parts)
      let acc ← applyBinary atGap sign acc right
      links acc rest
  | acc, _ :: _ :: rest => do
      atGap
      links acc rest
  | acc, [_] => do
      atGap
      return acc
  | acc, [] => return acc

/-- The value of a chain; without a first operand there is a gap. -/
def chain (t : Tree) : Exec Value :=
  match t.nodeAt 0 with
  | none => do
      atGap
      return .unit
  | some first => do
      let v ← value atGap run first
      links atGap run v t.children.tail

/-- The value of a negated operand; a missing operand and a token that names no operation are gaps. -/
def unary (t : Tree) : Exec Value :=
  match t.tokenAt 0, t.nodeAt 1 with
  | some sign, some operand => do
      let v ← value atGap run operand
      match UnaryOp.ofText sign.text with
      | some op => return op.apply v
      | none => do
          atGap
          return .unit
  | _, _ => do
      atGap
      return .unit

/-- What is done with the only token of a node, or in its absence, which is a gap. -/
def single (known : Token → Exec Flow) (missing : Flow) (t : Tree) : Exec Flow :=
  match t.tokenAt 0 with
  | some token => known token
  | none => do
      atGap
      return missing

/-- The signal of a jump; a token that is no jump is a gap. -/
def jump (keyword : Token) : Exec Flow :=
  if keyword.spells "break" then return .leave
  else if keyword.spells "continue" then return .next
  else do
    atGap
    return .unit

end Parts

/-- Runs a tree, with an action at every gap. -/
def visit (atGap : Exec Unit) (fuel : Nat) (run : Tree → Exec Flow) (t : Tree) : Exec Flow :=
  match t with
  | .leaf _ => do
      atGap
      return .unit
  | .node kind parts =>
      match kind with
      | .program => do
          let v ← lastValue atGap run .unit parts
          return .normal v
      | .suite => untilSignal atGap run parts
      | .declaration => do
          entries atGap run parts
          return .unit
      | .assignment => do
          assignment atGap run .assign t
          return .unit
      | .printing =>
          match t.nodeAt 0 with
          | none => do
              atGap
              return .unit
          | some operand => do
              let v ← value atGap run operand
              Exec.print v.text
              return .unit
      | .conditional => branches atGap run parts
      | .whileLoop => do
          whileLoop atGap run fuel t
          return .unit
      | .forLoop => do
          forLoop atGap run fuel t
          return .unit
      | .forInit | .forUpdates => do
          let _ ← lastValue atGap run .unit parts
          return .unit
      | .forTest =>
          match t.nodeAt 0 with
          | none => do
              -- a loop without a test is none of the gaps
              unless parts.isEmpty do atGap
              return .normal (.bool true)
          | some test => do
              let v ← value atGap run test
              return .normal v
      | .jump => single atGap (jump atGap) .unit t
      | .disjunction | .conjunction | .comparison | .sum | .product => do
          let v ← chain atGap run t
          return .normal v
      | .unary => do
          let v ← unary atGap run t
          return .normal v
      | .name => single atGap (fun name => do return .normal (← Exec.lookup name)) .unit t
      | .number =>
          single atGap (fun literal => return .normal (.ofNumeral literal.text)) (.normal (.int 0)) t
      | .boolean =>
          single atGap (fun literal => return .normal (.bool (literal.spells "true")))
            (.normal (.bool false)) t
      | .string =>
          single atGap (fun literal => return .normal (.string literal.text)) (.normal (.string "")) t

/-- Runs a tree, with an action at every gap. -/
def exec (atGap : Exec Unit) : (fuel : Nat) → Tree → Exec Flow
  | 0, _ => Exec.giveUp
  | fuel + 1, t => visit atGap fuel (exec atGap fuel) t

section Erasure

/-! Nothing is done at the gaps. -/

variable (run : Tree → Exec Flow)

theorem value_pure (t : Tree) : value (pure ()) run t = Eval.value run t := by
  funext m
  simp only [value, Eval.value, Exec.bind_apply]
  cases run t m with
  | done flow after => cases flow <;> rfl
  | failed d after => rfl
  | outOfFuel => rfl

theorem valueOrUnit_pure (t : Option Tree) :
    valueOrUnit (pure ()) run t = Eval.valueOrUnit run t := by
  cases t with
  | none => rfl
  | some t => exact value_pure run t

theorem lastValue_pure (v : Value) (ts : List Tree) :
    lastValue (pure ()) run v ts = Eval.lastValue run v (ts.filter Tree.isNode) := by
  induction ts generalizing v with
  | nil => rfl
  | cons t ts ih =>
      cases t with
      | leaf token => exact ih v
      | node kind parts =>
          rw [List.filter_cons_of_pos rfl]
          simp only [lastValue, Eval.lastValue, ih]

theorem untilSignal_pure (ts : List Tree) :
    untilSignal (pure ()) run ts = Eval.untilSignal run (ts.filter Tree.isNode) := by
  induction ts with
  | nil => rfl
  | cons t ts ih =>
      cases t with
      | leaf token => exact ih
      | node kind parts =>
          rw [List.filter_cons_of_pos rfl]
          simp only [untilSignal, ih]
          rfl

theorem assignment_pure (mode : Mode) (t : Tree) :
    assignment (pure ()) run mode t = Eval.assignment run mode t := by
  simp only [assignment, valueOrUnit_pure]
  rfl

theorem entries_pure (ts : List Tree) :
    entries (pure ()) run ts = Eval.entries run (ts.filter Tree.isNode) := by
  induction ts with
  | nil => rfl
  | cons t ts ih =>
      cases t with
      | leaf token => exact ih
      | node kind parts =>
          have first : entry (pure ()) run (.node kind parts) = Eval.entry run (.node kind parts) := by
            cases kind with
            | assignment => exact assignment_pure run .declare _
            | _ => rfl
          rw [List.filter_cons_of_pos rfl]
          simp only [entries, Eval.entries, first, ih]

theorem branches_pure (ts : List Tree) :
    branches (pure ()) run ts = Eval.branches run ts := by
  fun_induction Eval.branches run ts with
  | case1 => rfl
  | case2 kind parts rest ih => exact ih
  | case3 keyword spelled test block more nodes ih =>
      unfold branches
      simp only [spelled, nodes, value_pure, ih]
      rfl
  | case4 keyword spelled test block more nodes ih =>
      unfold branches
      simp only [spelled, nodes]
      exact ih
  | case5 keyword rest spelled short =>
      unfold branches
      rw [if_pos spelled]
      split
      · next test block more => exact (short test block more rfl).elim
      · rfl
  | case6 keyword spelled closes block more node =>
      unfold branches
      simp only [spelled, closes, node]
      rfl
  | case7 keyword spelled closes block more node ih =>
      unfold branches
      simp only [spelled, closes, node]
      exact ih
  | case8 keyword spelled closes =>
      unfold branches
      simp only [spelled, closes]
      rfl
  | case9 keyword rest spelled other ih =>
      unfold branches
      simp only [spelled, other]
      exact ih

theorem condition_pure (t : Tree) : condition (pure ()) run t = Eval.condition run t := by
  simp only [condition, Eval.condition, value_pure]

theorem whileLoop_pure (fuel : Nat) (t : Tree) :
    whileLoop (pure ()) run fuel t = Eval.whileLoop run fuel t := by
  simp only [whileLoop, condition_pure]
  rfl

theorem forLoop_pure (fuel : Nat) (t : Tree) :
    forLoop (pure ()) run fuel t = Eval.forLoop run fuel t := by
  simp only [forLoop, condition_pure]
  rfl

theorem links_pure (acc : Value) (ts : List Tree) :
    links (pure ()) run acc ts = Eval.links run acc ts := by
  fun_induction links (pure ()) run acc ts with
  | case1 acc sign kind parts rest ih =>
      simp only [Eval.links, value_pure, ih]
      rfl
  | case2 acc first second rest other ih =>
      rw [Eval.links]
      · exact ih
      · exact other
  | case3 acc last => cases last <;> rfl
  | case4 acc => rfl

theorem chain_pure (t : Tree) : chain (pure ()) run t = Eval.chain run t := by
  simp only [chain, value_pure, links_pure]
  rfl

theorem unary_pure (t : Tree) : unary (pure ()) run t = Eval.unary run t := by
  simp only [unary, value_pure]
  rfl

theorem jump_pure (t : Tree) :
    single (pure ()) (jump (pure ())) .unit t = (return Eval.jump t : Exec Flow) := by
  unfold single jump Eval.jump
  cases t.tokenAt 0 with
  | none => rfl
  | some keyword =>
      simp only
      split
      · rfl
      · split <;> rfl

/-- One step: without anything to do at the gaps, a node does what it always does. -/
theorem visit_pure (fuel : Nat) (t : Tree) : visit (pure ()) fuel run t = Eval.visit fuel run t := by
  cases t with
  | leaf token => rfl
  | node kind parts =>
      cases kind with
      | program | forInit | forUpdates =>
          simp only [visit, Eval.visit, lastValue_pure]
          rfl
      | suite => exact untilSignal_pure run parts
      | declaration =>
          simp only [visit, Eval.visit, entries_pure]
          rfl
      | assignment => simp only [visit, Eval.visit, assignment_pure]
      | printing =>
          simp only [visit, Eval.visit, value_pure]
          rfl
      | conditional => exact branches_pure run parts
      | whileLoop => simp only [visit, Eval.visit, whileLoop_pure]
      | forLoop => simp only [visit, Eval.visit, forLoop_pure]
      | forTest =>
          simp only [visit, Eval.visit, value_pure]
          cases parts <;> rfl
      | jump => exact jump_pure (.node .jump parts)
      | disjunction | conjunction | comparison | sum | product =>
          simp only [visit, Eval.visit, chain_pure]
      | unary => simp only [visit, Eval.visit, unary_pure]
      | name | number | boolean | string =>
          simp only [visit, Eval.visit, single, Eval.number, Eval.boolean, Eval.text]
          cases (Tree.node _ parts).tokenAt 0 <;> rfl

/-- With nothing done at the gaps, this is the ordinary run of any tree. -/
theorem exec_pure (fuel : Nat) (t : Tree) : exec (pure ()) fuel t = Eval.exec fuel t := by
  induction fuel generalizing t with
  | zero => rfl
  | succ fuel ih =>
      rw [exec, Eval.exec, funext ih]
      exact visit_pure (Eval.exec fuel) fuel t

end Erasure

section Values

/-- The action ends with a value and not with a signal, if it ends. -/
def YieldsValue (x : Exec Flow) : Prop := ∃ y : Exec Value, x = (do return .normal (← y))

/-- Expressions and the tests of loops have values, however their parts are run. -/
theorem visit_yieldsValue (fuel : Nat) (run : Tree → Exec Flow) {t : Tree}
    (h : Derives .expression t ∨ Derives .forTest t) : YieldsValue (Eval.visit fuel run t) := by
  rcases h with h | h
  · cases h with
    | atom own =>
        rcases Grammar.operandKind_cases own with ⟨-, rfl⟩ | ⟨-, rfl⟩ | ⟨-, rfl⟩ | ⟨-, rfl⟩
        · exact ⟨pure _, visit_atom_boolean fuel run _⟩
        · exact ⟨pure _, visit_atom_number fuel run _⟩
        · exact ⟨_, visit_atom_name fuel run _⟩
        · exact ⟨pure _, visit_atom_string fuel run _⟩
    | @negation sign operand _ part =>
        refine ⟨do return negated sign (← Eval.value run operand), ?_⟩
        rw [visit_negation fuel run sign part.isNode]
        funext m
        simp only [Exec.bind_apply]
        cases Eval.value run operand m <;> rfl
    | @chain kind _ first links own _ _ left right =>
        refine ⟨do let v ← Eval.value run first; fold run v links, ?_⟩
        rw [visit_chain fuel run own left.isNode fun p hp => (right p hp).isNode]
        exact (Exec.bind_assoc _ _ _).symm
  · cases h with
    | noTest => exact ⟨pure _, visit_noTest fuel run⟩
    | test part => exact ⟨_, visit_test fuel run part.isNode⟩

theorem exec_yieldsValue (fuel : Nat) {t : Tree}
    (h : Derives .expression t ∨ Derives .forTest t) : YieldsValue (Eval.exec fuel t) := by
  cases fuel with
  | zero => exact ⟨Exec.giveUp, rfl⟩
  | succ fuel => exact visit_yieldsValue fuel (Eval.exec fuel) h

end Values

section Operators

theorem ofText_of_signsOf {kind : NodeKind} {signs : List String} {sign : Token}
    (own : signsOf kind = some signs) (spelled : sign.spellsAny signs = true) :
    ∃ op, BinaryOp.ofText sign.text = some op := by
  have known : ∀ kind ∈ NodeKind.all, ∀ signs ∈ signsOf kind, ∀ text ∈ signs,
      (BinaryOp.spellings.lookup text).isSome = true := by
    decide
  have listed : kind ∈ NodeKind.all := by
    cases kind <;> decide
  exact Option.isSome_iff_exists.1 (known kind listed signs own _ (Token.spellsAny_iff.1 spelled).2)

theorem ofText_of_unarySigns {sign : Token} (spelled : sign.spellsAny Grammar.unarySigns = true) :
    ∃ op, UnaryOp.ofText sign.text = some op := by
  have known : ∀ text ∈ Grammar.unarySigns, (UnaryOp.spellings.lookup text).isSome = true := by
    decide
  exact Option.isSome_iff_exists.1 (known _ (Token.spellsAny_iff.1 spelled).2)

end Operators

theorem nodeAt_eq_some {kind : NodeKind} {parts : List Tree} {i : Nat} {t : Tree}
    (place : parts[i]? = some t) (node : t.isNode = true) :
    (Tree.node kind parts).nodeAt i = some t := by
  simp [place, node]

section Phrases

/-! In a phrase there are no gaps. -/

variable (atGap : Exec Unit) {run : Tree → Exec Flow}

theorem value_eq {t : Tree} (h : YieldsValue (run t)) : value atGap run t = Eval.value run t := by
  obtain ⟨y, same⟩ := h
  funext m
  simp only [value, Eval.value, same, Exec.bind_apply]
  cases y m <;> rfl

theorem lastValue_eq {ts : List Tree} (nodes : ∀ t ∈ ts, t.isNode = true) (v : Value) :
    lastValue atGap run v ts = Eval.lastValue run v ts := by
  induction ts generalizing v with
  | nil => rfl
  | cons t ts ih =>
      simp only [List.forall_mem_cons] at nodes
      cases t with
      | leaf token => cases nodes.1
      | node kind parts => simp only [lastValue, Eval.lastValue, ih nodes.2]

theorem untilSignal_eq {ts : List Tree} (nodes : ∀ t ∈ ts, t.isNode = true) :
    untilSignal atGap run ts = Eval.untilSignal run ts := by
  induction ts with
  | nil => rfl
  | cons t ts ih =>
      simp only [List.forall_mem_cons] at nodes
      cases t with
      | leaf token => cases nodes.1
      | node kind parts =>
          simp only [untilSignal, ih nodes.2]
          rfl

theorem applyBinary_eq {sign : Token} {op : BinaryOp} (named : BinaryOp.ofText sign.text = some op)
    (left right : Value) :
    applyBinary atGap sign left right = Eval.applyBinary sign left right := by
  unfold applyBinary Eval.applyBinary
  generalize BinaryOp.ofText sign.text = found at named ⊢
  subst named
  rfl

variable (values : ∀ {t : Tree}, Derives .expression t ∨ Derives .forTest t → YieldsValue (run t))
include values

theorem assignment_eq (mode : Mode) (name : Token) {right : Tree} (h : Derives .expression right) :
    assignment atGap run mode (.node .assignment [.atom .name name, right]) =
      Eval.assignment run mode (.node .assignment [.atom .name name, right]) := by
  have second : (Tree.node .assignment [.atom .name name, right]).nodeAt 1 = some right :=
    nodeAt_eq_some rfl h.isNode
  simp only [assignment, Eval.assignment, second, valueOrUnit, Eval.valueOrUnit,
    value_eq atGap (values (Or.inl h))]
  rfl

theorem entry_eq {t : Tree} (h : Derives .entry t) : entry atGap run t = Eval.entry run t := by
  cases h with
  | bareEntry _ => rfl
  | initializedEntry part =>
      cases part with
      | assignment _ right => exact assignment_eq atGap values .declare _ right

theorem entries_eq {ts : List Tree} (h : ∀ t ∈ ts, Derives .entry t) :
    entries atGap run ts = Eval.entries run ts := by
  induction ts with
  | nil => rfl
  | cons t ts ih =>
      simp only [List.forall_mem_cons] at h
      simp only [entries, Eval.entries, entry_eq atGap values h.1, ih h.2]

theorem branches_eq {bs : List Branch} {last : Option (Token × Tree)} (guards : Guards bs last) :
    branches atGap run (branched bs ++ closing last) =
      Eval.branches run (branched bs ++ closing last) := by
  induction bs with
  | nil =>
      rw [branches_guards_nil run guards]
      cases last with
      | none => rfl
      | some e =>
          have closes := guards.closes e rfl
          have opens : e.1.spellsAny ["if", "elif"] = false :=
            (Token.SpellsOnly.of_spells closes).spellsAny_eq_false (by decide)
          rw [Grammar.branched_nil, List.nil_append, closing]
          unfold branches
          simp [opens, closes, (guards.ends e rfl).isNode]
  | cons b bs ih =>
      have test := guards.tests b (by simp)
      have block := guards.blocks b (by simp)
      rw [branches_guards_cons run guards, ← ih guards.tail, ← value_eq atGap (values (Or.inl test))]
      rw [Grammar.branched_cons, List.cons_append, List.cons_append, List.cons_append, branches]
      simp [guards.spelled b (by simp), test.isNode, block.isNode]

theorem condition_eq {t : Tree} (h : Derives .expression t ∨ Derives .forTest t) :
    condition atGap run t = Eval.condition run t := by
  simp only [condition, Eval.condition, value_eq atGap (values h)]

theorem links_eq {kind : NodeKind} {signs : List String} (own : signsOf kind = some signs)
    {pairs : List (Token × Tree)} (spelled : ∀ p ∈ pairs, p.1.spellsAny signs = true)
    (operands : ∀ p ∈ pairs, Derives .expression p.2) (acc : Value) :
    links atGap run acc (chained pairs) = Eval.links run acc (chained pairs) := by
  induction pairs generalizing acc with
  | nil => rfl
  | cons pair pairs ih =>
      simp only [List.forall_mem_cons] at spelled operands
      obtain ⟨sign, right⟩ := pair
      obtain ⟨op, named⟩ := ofText_of_signsOf own spelled.1
      have first := value_eq atGap (values (Or.inl operands.1))
      cases right with
      | leaf token => cases operands.1.isNode
      | node kind parts =>
          simp only [Grammar.chained_cons, links, applyBinary_eq atGap named, first,
            ih spelled.2 operands.2]
          rfl

theorem chain_eq {kind : NodeKind} {signs : List String} (own : signsOf kind = some signs)
    {first : Tree} {pairs : List (Token × Tree)} (spelled : ∀ p ∈ pairs, p.1.spellsAny signs = true)
    (left : Derives .expression first) (operands : ∀ p ∈ pairs, Derives .expression p.2) :
    chain atGap run (.node kind (first :: chained pairs)) =
      Eval.chain run (.node kind (first :: chained pairs)) := by
  have head : (Tree.node kind (first :: chained pairs)).nodeAt 0 = some first :=
    nodeAt_eq_some rfl left.isNode
  simp only [chain, Eval.chain, head, Tree.children, List.tail_cons,
    value_eq atGap (values (Or.inl left)), links_eq atGap values own spelled operands]

theorem unary_eq {sign : Token} {operand : Tree}
    (spelled : sign.spellsAny Grammar.unarySigns = true) (h : Derives .expression operand) :
    unary atGap run (.node .unary [.leaf sign, operand]) =
      Eval.unary run (.node .unary [.leaf sign, operand]) := by
  obtain ⟨op, named⟩ := ofText_of_unarySigns spelled
  have first : (Tree.node .unary [.leaf sign, operand]).tokenAt 0 = some sign := rfl
  have second : (Tree.node .unary [.leaf sign, operand]).nodeAt 1 = some operand :=
    nodeAt_eq_some rfl h.isNode
  simp only [unary, Eval.unary, first, second, named, value_eq atGap (values (Or.inl h))]

omit values in
theorem jump_eq {keyword : Token} (spelled : keyword.spellsAny ["break", "continue"] = true) :
    jump atGap keyword = (return Eval.jump (.node .jump [.leaf keyword]) : Exec Flow) := by
  have first : (Tree.node .jump [.leaf keyword]).tokenAt 0 = some keyword := rfl
  obtain ⟨isSpelled, mem⟩ := Token.spellsAny_iff.1 spelled
  simp only [List.mem_cons, List.not_mem_nil, or_false] at mem
  simp only [jump, Eval.jump, first]
  rcases mem with plain | plain
  · simp [Token.spells, isSpelled, plain]
  · simp [Token.spells, isSpelled, plain]

theorem whileLoop_eq (fuel : Nat) {test block : Tree} (ht : Derives .expression test)
    (hb : Derives .suite block) :
    whileLoop atGap run fuel (.node .whileLoop [test, block]) =
      Eval.whileLoop run fuel (.node .whileLoop [test, block]) := by
  have first : (Tree.node .whileLoop [test, block]).nodeAt 0 = some test :=
    nodeAt_eq_some rfl ht.isNode
  have second : (Tree.node .whileLoop [test, block]).nodeAt 1 = some block :=
    nodeAt_eq_some rfl hb.isNode
  simp only [whileLoop, Eval.whileLoop, first, second, condition_eq atGap values (Or.inl ht)]

theorem forLoop_eq (fuel : Nat) {start test updates block : Tree} (hs : Derives .forInit start)
    (ht : Derives .forTest test) (hu : Derives .forUpdates updates) (hb : Derives .suite block) :
    forLoop atGap run fuel (.node .forLoop [start, test, updates, block]) =
      Eval.forLoop run fuel (.node .forLoop [start, test, updates, block]) := by
  have first : (Tree.node .forLoop [start, test, updates, block]).nodeAt 0 = some start :=
    nodeAt_eq_some rfl hs.isNode
  have second : (Tree.node .forLoop [start, test, updates, block]).nodeAt 1 = some test :=
    nodeAt_eq_some rfl ht.isNode
  have third : (Tree.node .forLoop [start, test, updates, block]).nodeAt 2 = some updates :=
    nodeAt_eq_some rfl hu.isNode
  have fourth : (Tree.node .forLoop [start, test, updates, block]).nodeAt 3 = some block :=
    nodeAt_eq_some rfl hb.isNode
  simp only [forLoop, Eval.forLoop, first, second, third, fourth,
    condition_eq atGap values (Or.inr ht)]

/-- One step: a phrase does the same whatever is done at gaps, if its expressions yield values. -/
theorem visit_eq (fuel : Nat) {p : Phrase} {t : Tree} (h : Derives p t) :
    visit atGap fuel run t = Eval.visit fuel run t := by
  induction h with
  | atom own =>
      rcases Grammar.operandKind_cases own with ⟨-, rfl⟩ | ⟨-, rfl⟩ | ⟨-, rfl⟩ | ⟨-, rfl⟩ <;> rfl
  | bareEntry _ => rfl
  | negation spelled operand =>
      simp only [visit, Eval.visit, unary_eq atGap values spelled operand]
  | @chain kind _ _ _ own _ spelled left right =>
      have same := chain_eq atGap values own spelled left right
      cases kind <;> simp [signsOf] at own <;> simp only [visit, Eval.visit, same]
  | assignment _ right =>
      simp only [visit, Eval.visit, assignment_eq atGap values .assign _ right]
  | declaration parts =>
      rw [visit_declaration fuel run (Derives.isNode_of_mem parts)]
      simp only [visit, entries_eq atGap values parts]
  | @printing operand part =>
      have first : (Tree.node .printing [operand]).nodeAt 0 = some operand :=
        nodeAt_eq_some rfl part.isNode
      simp only [visit, Eval.visit, first, value_eq atGap (values (Or.inl part))]
  | jump spelled => exact jump_eq atGap spelled
  | conditional opens elifs closes tests blocks ends =>
      exact branches_eq atGap values (.of_keywords opens elifs closes tests blocks ends)
  | whileLoop test block =>
      simp only [visit, Eval.visit, whileLoop_eq atGap values fuel test block]
  | forLoop start test updates block =>
      simp only [visit, Eval.visit, forLoop_eq atGap values fuel start test updates block]
  | noTest | noStart => rfl
  | @test operand part =>
      have first : (Tree.node .forTest [operand]).nodeAt 0 = some operand :=
        nodeAt_eq_some rfl part.isNode
      simp only [visit, Eval.visit, first, value_eq atGap (values (Or.inl part))]
  | declaringStart part | assigningStart part =>
      have nodes := Derives.isNode_of_mem (List.forall_mem_singleton.2 part)
      rw [visit_forInit fuel run nodes]
      simp only [visit, lastValue_eq atGap nodes]
  | updates parts =>
      have nodes := Derives.isNode_of_mem parts
      rw [visit_forUpdates fuel run nodes]
      simp only [visit, lastValue_eq atGap nodes]
  | suite parts =>
      have nodes := Derives.isNode_of_mem parts
      rw [visit_suite fuel run nodes]
      exact untilSignal_eq atGap nodes
  | program parts =>
      have nodes := Derives.isNode_of_mem parts
      rw [visit_program fuel run nodes]
      simp only [visit, lastValue_eq atGap nodes]
  | initializedEntry _ ih | ofExpression _ ih | ofDeclaration _ ih | ofAssignment _ ih => exact ih

omit values in
/-- On a phrase it makes no difference what is done at gaps. -/
theorem exec_eq (fuel : Nat) {p : Phrase} {t : Tree} (h : Derives p t) :
    exec atGap fuel t = Eval.exec fuel t := by
  induction fuel generalizing p t with
  | zero => rfl
  | succ fuel ih =>
      have values {s : Tree} (part : Derives .expression s ∨ Derives .forTest s) :
          YieldsValue (exec atGap fuel s) := by
        have same : exec atGap fuel s = Eval.exec fuel s := part.elim ih ih
        rw [same]
        exact exec_yieldsValue fuel part
      -- first the node itself comes to no gap, then neither do its parts
      calc visit atGap fuel (exec atGap fuel) t
        _ = Eval.visit fuel (exec atGap fuel) t := visit_eq atGap values fuel h
        _ = Eval.visit fuel (Eval.exec fuel) t := visit_congr ih fuel h

end Phrases

end Watched
end Eval

/-- The operators of all levels, and the signs of negation. -/
def Grammar.operators : List String :=
  orSigns ++ andSigns ++ comparisonSigns ++ sumSigns ++ productSigns ++ unarySigns

/-- A tree that has been read off any tokens whatever is laid out as the grammar says in all its parts,
and no run of it comes to a gap: whatever is done at gaps, it is the ordinary run.  If the tokens are
those of a program text, what spells an operator in the tree is a token of that class. -/
theorem ofTokens_gapless {ts : List Token} {t : Tree} (made : Tree.ofTokens ts = .ok t) :
    t.isOf .program ∧ (∀ s, Tree.Within s t → s.LaidOut) ∧
      (∀ atGap fuel m, Eval.Watched.exec atGap fuel t m = Eval.exec fuel t m) ∧
      ∀ source, ts = Token.scan source →
        ∀ a ∈ t.leaves, a.spellsAny Grammar.operators = true → a.kind = .operator := by
  have derived := Grammar.ofTokens_derives made
  refine ⟨derived.isOf, fun s part => derived.laidOut_within part, ?_, ?_⟩
  · intro atGap fuel m
    rw [Eval.Watched.exec_eq atGap fuel derived]
  · rintro source rfl a mem spelled
    exact Token.kind_eq_operator_of_mem_scan (by decide) (mem_of_mem_leaves made mem) spelled

/-- A counting loop without parentheses, test, updates and closing brace. -/
def openLoop : List Token :=
  [⟨.keyword, "for", ⟨1, 1⟩⟩, ⟨.keyword, "📢", ⟨1, 5⟩⟩, ⟨.name, "i", ⟨1, 6⟩⟩,
    ⟨.operator, "=", ⟨1, 7⟩⟩, ⟨.number, "7", ⟨1, 8⟩⟩, ⟨.delimiter, ";", ⟨1, 9⟩⟩,
    ⟨.delimiter, "👄", ⟨1, 10⟩⟩, ⟨.delimiter, "\x7b", ⟨1, 11⟩⟩, ⟨.keyword, "print", ⟨1, 12⟩⟩,
    ⟨.operator, "❗", ⟨1, 18⟩⟩, ⟨.name, "i", ⟨1, 19⟩⟩, ⟨.operator, "mod", ⟨1, 21⟩⟩,
    ⟨.number, "2", ⟨1, 25⟩⟩]

/-- The tree of `openLoop`. -/
def openLoopTree : Tree :=
  .node .program
    [.node .forLoop
      [.node .forInit
          [.node .declaration
            [.node .assignment
              [.atom .name ⟨.name, "i", ⟨1, 6⟩⟩, .atom .number ⟨.number, "7", ⟨1, 8⟩⟩]]],
        .node .forTest [],
        .node .forUpdates [],
        .node .suite
          [.node .printing
            [.node .product
              [.node .unary [.leaf ⟨.operator, "❗", ⟨1, 18⟩⟩, .atom .name ⟨.name, "i", ⟨1, 19⟩⟩],
                .leaf ⟨.operator, "mod", ⟨1, 21⟩⟩, .atom .number ⟨.number, "2", ⟨1, 25⟩⟩]]]]]

/-- The loop is read, its parts are in order, and it runs as if all gaps were failures. -/
theorem ofTokens_gapless_openLoop :
    Tree.ofTokens openLoop = .ok openLoopTree ∧ (∀ s, Tree.Within s openLoopTree → s.LaidOut) ∧
      ∀ d fuel m, Eval.Watched.exec (Exec.fail d) fuel openLoopTree m =
        Eval.exec fuel openLoopTree m := by
  have made : Tree.ofTokens openLoop = .ok openLoopTree := by
    rfl
  obtain ⟨-, parts, runs, -⟩ := ofTokens_gapless made
  exact ⟨made, parts, fun d => runs (Exec.fail d)⟩

/-- A chain with a sign of another kind in it comes to a gap. -/
example (d : Diagnostic) :
    Eval.Watched.exec (Exec.fail d) 2
        (.node .sum
          [.atom .boolean ⟨.boolean, "true", ⟨1, 1⟩⟩, .leaf ⟨.operator, "=", ⟨1, 6⟩⟩,
            .atom .boolean ⟨.boolean, "true", ⟨1, 7⟩⟩]) {} = .failed d {} := by
  rfl

end EmojiLang
