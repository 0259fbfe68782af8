import EmojiLang.Proofs.Token.Spelling
import EmojiLang.Tree.Parser

/-!
# Phrases and their trees

The grammar has a few categories of phrases, and `Derives` says which trees belong to each of them.
It says nothing about delimiters, which the trees do not keep, and nothing about the budgets by which
the readers end.

**Productions.**
* an operand is a literal or a name, a negation has one sign and one operand, and a chain has at least
  two operands with operators of one and the same level between them;
* a declaration has any number of entries, which are names or assignments;
* a conditional has one `if`, any number of `elif` and at most one `else` behind them;
* a counting loop has its start, test, updates and block, the first three possibly empty.

**Definitions.** `Tree.Within` says that a tree is part of another one, and `Guards` what matters about
the branches of a conditional when it is run.

**Results.**
* `Derives.within`: every node in a derived tree is derived as some phrase.
* `Derives.expression_of_isExpression`: a derived node that stands for a value is an expression.
-/

namespace EmojiLang

namespace Tree

/-- `Within s t` says that `s` is `t` or a part of it. -/
inductive Within (s : Tree) : Tree → Prop
  | here : Within s s
  | inside {kind : NodeKind} {children : List Tree} {t : Tree} :
      t ∈ children → Within s t → Within s (.node kind children)

theorem within_leaf {s : Tree} {token : Token} : Within s (.leaf token) ↔ s = .leaf token := by
  constructor
  · rintro ⟨⟩
    rfl
  · rintro rfl
    exact .here

theorem within_node {s : Tree} {kind : NodeKind} {children : List Tree} :
    Within s (.node kind children) ↔ s = .node kind children ∨ ∃ t ∈ children, Within s t := by
  constructor
  · rintro (_ | ⟨mem, inner⟩)
    · exact Or.inl rfl
    · exact Or.inr ⟨_, mem, inner⟩
  · rintro (rfl | ⟨t, mem, inner⟩)
    · exact .here
    · exact .inside mem inner

theorem Within.trans {r s t : Tree} (outer : Within s t) (inner : Within r s) : Within r t := by
  induction outer with
  | here => exact inner
  | inside mem _ ih => exact .inside mem ih

end Tree

namespace Grammar

section Productions

/-- The operators of a kind of chain.  Other nodes are no chains. -/
def signsOf : NodeKind → Option (List String)
  | .disjunction => some orSigns
  | .conjunction => some andSigns
  | .comparison => some comparisonSigns
  | .sum => some sumSigns
  | .product => some productSigns
  | _ => none

/-- Operators with the operands behind them, as subtrees of a chain. -/
def chained (links : List (Token × Tree)) : List Tree :=
  links.flatMap fun link => [.leaf link.1, link.2]

/-- A branch of a conditional that has a test. -/
structure Branch where
  keyword : Token
  test : Tree
  block : Tree

/-- Branches as subtrees of a conditional. -/
def branched (branches : List Branch) : List Tree :=
  branches.flatMap fun b => [.leaf b.keyword, b.test, b.block]

/-- The branch without a test, if there is one, as subtrees of a conditional. -/
def closing : Option (Token × Tree) → List Tree
  | none => []
  | some (keyword, block) => [.leaf keyword, block]

/-- The categories of phrases. -/
inductive Phrase where
  | program
  | suite
  | statement
  | declaration
  | entry
  | assignment
  | forInit
  | forTest
  | forUpdates
  | expression
deriving DecidableEq, Repr

/-- The trees of each category. -/
inductive Derives : Phrase → Tree → Prop
  | atom {kind : NodeKind} {t : Token} :
      operandKind t.kind = some kind →
      Derives .expression (.atom kind t)
  | negation {sign : Token} {operand : Tree} :
      sign.spellsAny unarySigns = true →
      Derives .expression operand →
      Derives .expression (.node .unary [.leaf sign, operand])
  | chain {kind : NodeKind} {signs : List String} {first : Tree} {links : List (Token × Tree)} :
      signsOf kind = some signs →
      links ≠ [] →
      (∀ link ∈ links, link.1.spellsAny signs = true) →
      Derives .expression first →
      (∀ link ∈ links, Derives .expression link.2) →
      Derives .expression (.node kind (first :: chained links))
  | assignment {name : Token} {right : Tree} :
      name.kind = .name →
      Derives .expression right →
      Derives .assignment (.node .assignment [.atom .name name, right])
  | bareEntry {name : Token} :
      name.kind = .name →
      Derives .entry (.atom .name name)
  | initializedEntry {t : Tree} :
      Derives .assignment t →
      Derives .entry t
  | declaration {entries : List Tree} :
      (∀ t ∈ entries, Derives .entry t) →
      Derives .declaration (.node .declaration entries)
  | ofExpression {t : Tree} :
      Derives .expression t →
      Derives .statement t
  | ofDeclaration {t : Tree} :
      Derives .declaration t →
      Derives .statement t
  | ofAssignment {t : Tree} :
      Derives .assignment t →
      Derives .statement t
  | printing {operand : Tree} :
      Derives .expression operand →
      Derives .statement (.node .printing [operand])
  | jump {keyword : Token} :
      keyword.spellsAny ["break", "continue"] = true →
      Derives .statement (.node .jump [.leaf keyword])
  | conditional {first : Branch} {more : List Branch} {last : Option (Token × Tree)} :
      first.keyword.spells "if" = true →
      (∀ b ∈ more, b.keyword.spells "elif" = true) →
      (∀ e ∈ last, e.1.spells "else" = true) →
      (∀ b ∈ first :: more, Derives .expression b.test) →
      (∀ b ∈ first :: more, Derives .suite b.block) →
      (∀ e ∈ last, Derives .suite e.2) →
      Derives .statement (.node .conditional (branched (first :: more) ++ closing last))
  | whileLoop {test block : Tree} :
      Derives .expression test →
      Derives .suite block →
      Derives .statement (.node .whileLoop [test, block])
  | forLoop {start test updates block : Tree} :
      Derives .forInit start →
      Derives .forTest test →
      Derives .forUpdates updates →
      Derives .suite block →
      Derives .statement (.node .forLoop [start, test, updates, block])
  | noStart :
      Derives .forInit (.node .forInit [])
  | declaringStart {t : Tree} :
      Derives .declaration t →
      Derives .forInit (.node .forInit [t])
  | assigningStart {t : Tree} :
      Derives .assignment t →
      Derives .forInit (.node .forInit [t])
  | noTest :
      Derives .forTest (.node .forTest [])
  | test {t : Tree} :
      Derives .expression t →
      Derives .forTest (.node .forTest [t])
  | updates {assignments : List Tree} :
      (∀ t ∈ assignments, Derives .assignment t) →
      Derives .forUpdates (.node .forUpdates assignments)
  | suite {statements : List Tree} :
      (∀ t ∈ statements, Derives .statement t) →
      Derives .suite (.node .suite statements)
  | program {statements : List Tree} :
      (∀ t ∈ statements, Derives .statement t) →
      Derives .program (.node .program statements)

end Productions

section Parts

@[simp]
theorem chained_nil : chained [] = [] := rfl

@[simp]
theorem chained_cons (link : Token × Tree) (links : List (Token × Tree)) :
    chained (link :: links) = .leaf link.1 :: link.2 :: chained links := rfl

@[simp]
theorem branched_nil : branched [] = [] := rfl

@[simp]
theorem branched_cons (b : Branch) (branches : List Branch) :
    branched (b :: branches) = .leaf b.keyword :: b.test :: b.block :: branched branches := rfl

theorem mem_chained {t : Tree} {links : List (Token × Tree)} (h : t ∈ chained links) :
    ∃ link ∈ links, t = .leaf link.1 ∨ t = link.2 := by
  simpa [chained] using h

theorem mem_branched {t : Tree} {branches : List Branch} (h : t ∈ branched branches) :
    ∃ b ∈ branches, t = .leaf b.keyword ∨ t = b.test ∨ t = b.block := by
  simpa [branched] using h

theorem test_mem_branched {b : Branch} {branches : List Branch} (h : b ∈ branches) :
    b.test ∈ branched branches :=
  List.mem_flatMap.2 ⟨b, h, by simp⟩

theorem block_mem_branched {b : Branch} {branches : List Branch} (h : b ∈ branches) :
    b.block ∈ branched branches :=
  List.mem_flatMap.2 ⟨b, h, by simp⟩

theorem block_mem_closing {e : Token × Tree} {last : Option (Token × Tree)} (h : e ∈ last) :
    e.2 ∈ closing last := by
  obtain rfl : last = some e := h
  simp [closing]

theorem mem_closing {t : Tree} {last : Option (Token × Tree)} (h : t ∈ closing last) :
    ∃ e ∈ last, t = .leaf e.1 ∨ t = e.2 := by
  cases last with
  | none =>
      simp [closing] at h
  | some e =>
      simpa [closing] using h

/-- The four classes of tokens that are operands by themselves. -/
theorem operandKind_cases {k : TokenKind} {kind : NodeKind} (h : operandKind k = some kind) :
    k = .boolean ∧ kind = .boolean ∨ k = .number ∧ kind = .number ∨ k = .name ∧ kind = .name ∨
      k = .string ∧ kind = .string := by
  cases k <;> simp_all [operandKind]

theorem isExpression_of_operandKind {k : TokenKind} {kind : NodeKind}
    (h : operandKind k = some kind) : kind.isExpression = true := by
  rcases operandKind_cases h with ⟨-, rfl⟩ | ⟨-, rfl⟩ | ⟨-, rfl⟩ | ⟨-, rfl⟩ <;> rfl

theorem isExpression_of_signsOf {kind : NodeKind} {signs : List String}
    (h : signsOf kind = some signs) : kind.isExpression = true := by
  cases kind <;> simp [signsOf] at h <;> rfl

namespace Derives

/-- A phrase is a node, never a bare token. -/
theorem isNode {p : Phrase} {t : Tree} (h : Derives p t) : t.isNode = true := by
  induction h with
  | initializedEntry _ ih | ofExpression _ ih | ofDeclaration _ ih | ofAssignment _ ih => exact ih
  | _ => rfl

theorem isNode_of_mem {p : Phrase} {ts : List Tree} (h : ∀ t ∈ ts, Derives p t) :
    ∀ t ∈ ts, t.isNode = true :=
  fun t ht => (h t ht).isNode

/-- The parts of a phrase are tokens and phrases. -/
theorem of_mem_children {p : Phrase} {t s : Tree} (h : Derives p t) (hs : s ∈ t.children) :
    (∃ token, s = .leaf token) ∨ ∃ q, Derives q s := by
  induction h with
  | atom own =>
      simp only [Tree.atom, Tree.children, List.mem_singleton] at hs
      exact Or.inl ⟨_, hs⟩
  | negation _ operand =>
      simp only [Tree.children, List.mem_cons, List.not_mem_nil, or_false] at hs
      rcases hs with rfl | rfl
      · exact Or.inl ⟨_, rfl⟩
      · exact Or.inr ⟨_, operand⟩
  | chain _ _ _ left right =>
      simp only [Tree.children, List.mem_cons] at hs
      rcases hs with rfl | hs
      · exact Or.inr ⟨_, left⟩
      · obtain ⟨link, hlink, rfl | rfl⟩ := mem_chained hs
        · exact Or.inl ⟨_, rfl⟩
        · exact Or.inr ⟨_, right link hlink⟩
  | assignment named right =>
      simp only [Tree.children, List.mem_cons, List.not_mem_nil, or_false] at hs
      rcases hs with rfl | rfl
      · exact Or.inr ⟨_, .bareEntry named⟩
      · exact Or.inr ⟨_, right⟩
  | bareEntry named =>
      simp only [Tree.atom, Tree.children, List.mem_singleton] at hs
      exact Or.inl ⟨_, hs⟩
  | jump _ =>
      simp only [Tree.children, List.mem_singleton] at hs
      exact Or.inl ⟨_, hs⟩
  | conditional _ _ _ tests blocks last =>
      simp only [Tree.children, List.mem_append] at hs
      rcases hs with hs | hs
      · obtain ⟨b, hb, rfl | rfl | rfl⟩ := mem_branched hs
        · exact Or.inl ⟨_, rfl⟩
        · exact Or.inr ⟨_, tests b hb⟩
        · exact Or.inr ⟨_, blocks b hb⟩
      · obtain ⟨e, he, rfl | rfl⟩ := mem_closing hs
        · exact Or.inl ⟨_, rfl⟩
        · exact Or.inr ⟨_, last e he⟩
  | whileLoop test block =>
      simp only [Tree.children, List.mem_cons, List.not_mem_nil, or_false] at hs
      rcases hs with rfl | rfl
      · exact Or.inr ⟨_, test⟩
      · exact Or.inr ⟨_, block⟩
  | forLoop start test updates block =>
      simp only [Tree.children, List.mem_cons, List.not_mem_nil, or_false] at hs
      rcases hs with rfl | rfl | rfl | rfl
      · exact Or.inr ⟨_, start⟩
      · exact Or.inr ⟨_, test⟩
      · exact Or.inr ⟨_, updates⟩
      · exact Or.inr ⟨_, block⟩
  | noStart | noTest =>
      simp [Tree.children] at hs
  | printing part | declaringStart part | assigningStart part | test part =>
      simp only [Tree.children, List.mem_singleton] at hs
      exact Or.inr ⟨_, hs ▸ part⟩
  | declaration parts | updates parts | suite parts | program parts =>
      exact Or.inr ⟨_, parts s hs⟩
  | initializedEntry _ ih | ofExpression _ ih | ofDeclaration _ ih | ofAssignment _ ih =>
      exact ih hs

/-- Every node in a phrase is a phrase. -/
theorem within {p : Phrase} {t s : Tree} (h : Derives p t) (hs : Tree.Within s t)
    (node : s.isNode = true) : ∃ q, Derives q s := by
  induction hs generalizing p with
  | here =>
      exact ⟨p, h⟩
  | @inside kind children t mem inner ih =>
      rcases h.of_mem_children (s := t) mem with ⟨token, rfl⟩ | ⟨q, part⟩
      · cases inner
        simp [Tree.isNode] at node
      · exact ih part

/-- An expression is a node that stands for a value. -/
theorem isExpression {t : Tree} (h : Derives .expression t) :
    ∃ kind children, t = .node kind children ∧ kind.isExpression = true := by
  cases h with
  | atom own => exact ⟨_, _, rfl, isExpression_of_operandKind own⟩
  | negation _ _ => exact ⟨_, _, rfl, rfl⟩
  | chain own _ _ _ _ => exact ⟨_, _, rfl, isExpression_of_signsOf own⟩

/-- A phrase whose node stands for a value is an expression. -/
theorem expression_of_isExpression {p : Phrase} {kind : NodeKind} {children : List Tree}
    (h : Derives p (.node kind children)) (value : kind.isExpression = true) :
    Derives .expression (.node kind children) := by
  generalize same : Tree.node kind children = t at h
  induction h with
  | atom own => exact .atom own
  | negation sign operand => exact .negation sign operand
  | chain own nonempty signs left right => exact .chain own nonempty signs left right
  | bareEntry named => exact .atom (by rw [named]; rfl)
  | initializedEntry _ ih | ofExpression _ ih | ofDeclaration _ ih | ofAssignment _ ih =>
      exact ih same
  | _ =>
      injection same with hkind
      subst hkind
      simp [NodeKind.isExpression] at value

/-- A phrase that is a conditional or a counting loop is a statement. -/
theorem statement_of_kind {p : Phrase} {kind : NodeKind} {children : List Tree}
    (h : Derives p (.node kind children)) (outer : kind = .conditional ∨ kind = .forLoop) :
    Derives .statement (.node kind children) := by
  generalize same : Tree.node kind children = t at h
  induction h with
  | conditional opens elifs closes tests blocks ends =>
      exact .conditional opens elifs closes tests blocks ends
  | forLoop start test updates block => exact .forLoop start test updates block
  | atom own => exact .ofExpression (.atom own)
  | chain own nonempty signs left right => exact .ofExpression (.chain own nonempty signs left right)
  | initializedEntry _ ih | ofExpression _ ih | ofDeclaration _ ih | ofAssignment _ ih => exact ih same
  | _ =>
      injection same with hkind
      subst hkind
      simp at outer

/-- The parts of a counting loop. -/
theorem parts_of_forLoop {p : Phrase} {children : List Tree} (h : Derives p (.node .forLoop children)) :
    ∃ start test updates block, children = [start, test, updates, block] ∧ Derives .forInit start ∧
      Derives .forTest test ∧ Derives .forUpdates updates ∧ Derives .suite block := by
  cases h.statement_of_kind (Or.inr rfl) with
  | forLoop start test updates block => exact ⟨_, _, _, _, rfl, start, test, updates, block⟩
  | ofExpression value =>
      obtain ⟨kind, parts, same, expression⟩ := value.isExpression
      injection same with hkind
      simp [← hkind, NodeKind.isExpression] at expression
  | ofDeclaration part | ofAssignment part => cases part

end Derives

/-- The branches of a conditional as far as running them goes: `if` and `elif` make no difference. -/
structure Guards (bs : List Branch) (last : Option (Token × Tree)) : Prop where
  spelled : ∀ b ∈ bs, b.keyword.spellsAny ["if", "elif"] = true
  closes : ∀ e ∈ last, e.1.spells "else" = true
  tests : ∀ b ∈ bs, Derives .expression b.test
  blocks : ∀ b ∈ bs, Derives .suite b.block
  ends : ∀ e ∈ last, Derives .suite e.2

namespace Guards

variable {b : Branch} {bs : List Branch} {last : Option (Token × Tree)}

theorem tail (h : Guards (b :: bs) last) : Guards bs last where
  spelled c hc := h.spelled c (List.mem_cons_of_mem _ hc)
  closes := h.closes
  tests c hc := h.tests c (List.mem_cons_of_mem _ hc)
  blocks c hc := h.blocks c (List.mem_cons_of_mem _ hc)
  ends := h.ends

theorem of_keywords (opens : b.keyword.spells "if" = true)
    (elifs : ∀ c ∈ bs, c.keyword.spells "elif" = true)
    (closes : ∀ e ∈ last, e.1.spells "else" = true)
    (tests : ∀ c ∈ b :: bs, Derives .expression c.test)
    (blocks : ∀ c ∈ b :: bs, Derives .suite c.block)
    (ends : ∀ e ∈ last, Derives .suite e.2) : Guards (b :: bs) last := by
  refine ⟨?_, closes, tests, blocks, ends⟩
  intro c hc
  rcases List.mem_cons.1 hc with rfl | hc
  · exact Token.spellsAny_of_spells opens (by simp)
  · exact Token.spellsAny_of_spells (elifs c hc) (by simp)

end Guards

end Parts

end Grammar

end EmojiLang
