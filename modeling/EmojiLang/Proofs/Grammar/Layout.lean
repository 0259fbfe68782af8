import EmojiLang.Proofs.Grammar.Soundness

/-!
# The layout of trees

`Tree.LaidOut` says what the parts of a single node are: how many there are, which of them are tokens
and what these spell, and of which kinds the others are.  It says nothing about what lies further below,
so a tree is in order if all trees within it are laid out.

**Layout.**
* a program or block has statements and expressions, a declaration names and assignments;
* a chain has operands and operators by turns, at least two operands, and all its operators are of the
  level of the chain and of no other;
* a conditional has three parts for `if` and for each `elif`, and two for an `else` at the end;
* a counting loop has four parts, the first three of which may be empty nodes;
* a name or literal is one token of its class.

**Results.**
* `Derives.isOf`: the node of a phrase is of one of the kinds of its category.
* `Derives.laidOut` and `Derives.laidOut_within`: phrases, and all trees within them, are laid out.
-/

namespace EmojiLang
namespace Grammar

/-- The kinds of nodes that stand for a value. -/
def expressionKinds : List NodeKind :=
  [.disjunction, .conjunction, .comparison, .sum, .product, .unary, .name, .number, .boolean, .string]

/-- The kinds of nodes in each category of phrases. -/
def Phrase.kinds : Phrase → List NodeKind
  | .program => [.program]
  | .suite => [.suite]
  | .statement =>
      [.declaration, .assignment, .printing, .conditional, .whileLoop, .forLoop, .jump]
        ++ expressionKinds
  | .declaration => [.declaration]
  | .entry => [.name, .assignment]
  | .assignment => [.assignment]
  | .forInit => [.forInit]
  | .forTest => [.forTest]
  | .forUpdates => [.forUpdates]
  | .expression => expressionKinds

/-- The operator belongs to the chains of this kind, and to no others. -/
def OfLevel (kind : NodeKind) (sign : Token) : Prop :=
  ∀ level signs, signsOf level = some signs → (sign.spellsAny signs = true ↔ level = kind)

end Grammar

namespace Tree

open Grammar

/-- The tree is a node of one of the kinds of a category; a token is none. -/
def isOf (p : Phrase) : Tree → Prop
  | .leaf _ => False
  | .node kind _ => kind ∈ p.kinds

theorem isOf.mono {p q : Phrase} {t : Tree} (h : t.isOf p) (le : p.kinds ⊆ q.kinds) : t.isOf q := by
  cases t with
  | leaf token => exact h
  | node kind parts => exact le h

/-- The parts of a chain: operands in the even places, operators of its level in the odd ones. -/
structure Alternate (kind : NodeKind) (parts : List Tree) : Prop where
  long : 3 ≤ parts.length
  odd : parts.length % 2 = 1
  operand {i : Nat} {t : Tree} : parts[2 * i]? = some t → t.isOf .expression
  operator {i : Nat} {t : Tree} :
    parts[2 * i + 1]? = some t → ∃ sign, t = .leaf sign ∧ OfLevel kind sign

/-- The parts of a conditional behind its first branch: any number of branches with `elif`, and then at
most one with `else`. -/
inductive FurtherBranches : List Tree → Prop
  | done : FurtherBranches []
  | last {keyword : Token} {block : Tree} :
      keyword.spells "else" = true →
      block.isOf .suite →
      FurtherBranches [.leaf keyword, block]
  | more {keyword : Token} {test block : Tree} {rest : List Tree} :
      keyword.spells "elif" = true →
      test.isOf .expression →
      block.isOf .suite →
      FurtherBranches rest →
      FurtherBranches (.leaf keyword :: test :: block :: rest)

/-- The parts of a name or literal: one token of the class. -/
def Holds (kind : TokenKind) (parts : List Tree) : Prop :=
  ∃ token, parts = [.leaf token] ∧ token.kind = kind

/-- What the parts of a node are, whatever lies further below. -/
def LaidOut : Tree → Prop
  | .leaf _ => True
  | .node kind parts =>
      match kind with
      | .program | .suite => ∀ t ∈ parts, t.isOf .statement
      | .declaration => ∀ t ∈ parts, t.isOf .entry
      | .assignment =>
          ∃ name right, parts = [.node .name name, right] ∧ right.isOf .expression
      | .printing => ∃ operand, parts = [operand] ∧ operand.isOf .expression
      | .conditional =>
          ∃ keyword test block rest, parts = .leaf keyword :: test :: block :: rest ∧
            keyword.spells "if" = true ∧ test.isOf .expression ∧ block.isOf .suite ∧
            FurtherBranches rest
      | .whileLoop =>
          ∃ test block, parts = [test, block] ∧ test.isOf .expression ∧ block.isOf .suite
      | .forLoop =>
          ∃ start test updates block, parts = [start, test, updates, block] ∧
            start.isOf .forInit ∧ test.isOf .forTest ∧ updates.isOf .forUpdates ∧
            block.isOf .suite
      | .forInit =>
          parts.length ≤ 1 ∧ ∀ t ∈ parts, t.isOf .declaration ∨ t.isOf .assignment
      | .forTest => parts.length ≤ 1 ∧ ∀ t ∈ parts, t.isOf .expression
      | .forUpdates => ∀ t ∈ parts, t.isOf .assignment
      | .jump =>
          ∃ keyword, parts = [.leaf keyword] ∧ keyword.spellsAny ["break", "continue"] = true
      | .disjunction | .conjunction | .comparison | .sum | .product => Alternate kind parts
      | .unary =>
          ∃ sign operand, parts = [.leaf sign, operand] ∧ sign.spellsAny unarySigns = true ∧
            operand.isOf .expression
      | .name => Holds .name parts
      | .number => Holds .number parts
      | .boolean => Holds .boolean parts
      | .string => Holds .string parts

end Tree

namespace Grammar

section Operators

/-- The levels of chains have no operator in common. -/
theorem signsOf_apart {kind level : NodeKind} {signs others : List String}
    (own : signsOf kind = some signs) (other : signsOf level = some others) (ne : level ≠ kind) :
    ∀ text ∈ signs, text ∉ others := by
  have apart : ∀ kind ∈ NodeKind.all, ∀ level ∈ NodeKind.all, level ≠ kind →
      ∀ signs ∈ signsOf kind, ∀ others ∈ signsOf level, ∀ text ∈ signs, text ∉ others := by
    decide
  have all : ∀ kind : NodeKind, kind ∈ NodeKind.all := by
    rintro ⟨⟩ <;> decide
  exact apart kind (all kind) level (all level) ne signs own others other

theorem ofLevel_of_spellsAny {kind : NodeKind} {signs : List String} {sign : Token}
    (own : signsOf kind = some signs) (spelled : sign.spellsAny signs = true) :
    OfLevel kind sign := by
  intro level others other
  constructor
  · intro also
    by_cases same : level = kind
    · exact same
    · have apart := signsOf_apart own other same
      rw [(Token.SpellsOnly.of_spellsAny spelled).spellsAny_eq_false apart] at also
      cases also
  · rintro rfl
    rw [own] at other
    injection other with same
    exact same ▸ spelled

end Operators

section Places

theorem length_chained (links : List (Token × Tree)) :
    (chained links).length = 2 * links.length := by
  induction links with
  | nil => rfl
  | cons link links ih =>
      simp only [chained_cons, List.length_cons, ih]
      omega

theorem chained_getElem?_even (links : List (Token × Tree)) (i : Nat) :
    (chained links)[2 * i]? = links[i]?.map fun link => .leaf link.1 := by
  induction links generalizing i with
  | nil => simp
  | cons link links ih =>
      cases i with
      | zero => rfl
      | succ i => simpa [Nat.mul_succ] using ih i

theorem chained_getElem?_odd (links : List (Token × Tree)) (i : Nat) :
    (chained links)[2 * i + 1]? = links[i]?.map Prod.snd := by
  induction links generalizing i with
  | nil => simp
  | cons link links ih =>
      cases i with
      | zero => rfl
      | succ i => simpa [Nat.mul_succ] using ih i

end Places

namespace Derives

/-- The node of a phrase is of one of the kinds of its category. -/
theorem isOf {p : Phrase} {t : Tree} (h : Derives p t) : t.isOf p := by
  induction h with
  | atom own =>
      rcases operandKind_cases own with ⟨-, rfl⟩ | ⟨-, rfl⟩ | ⟨-, rfl⟩ | ⟨-, rfl⟩ <;>
        simp [Tree.atom, Tree.isOf, Phrase.kinds, expressionKinds]
  | @chain kind _ _ _ own _ _ _ _ _ _ =>
      cases kind <;> simp [signsOf] at own <;> simp [Tree.isOf, Phrase.kinds, expressionKinds]
  | initializedEntry _ ih | ofExpression _ ih | ofDeclaration _ ih | ofAssignment _ ih =>
      exact ih.mono (by decide)
  | _ => simp [Tree.atom, Tree.isOf, Phrase.kinds, expressionKinds]

theorem isOf_of_mem {p : Phrase} {ts : List Tree} (h : ∀ t ∈ ts, Derives p t) :
    ∀ t ∈ ts, t.isOf p :=
  fun t ht => (h t ht).isOf

/-- The parts of a chain by their places. -/
theorem alternate {kind : NodeKind} {signs : List String} {first : Tree}
    {links : List (Token × Tree)} (own : signsOf kind = some signs) (nonempty : links ≠ [])
    (spelled : ∀ link ∈ links, link.1.spellsAny signs = true) (left : Derives .expression first)
    (right : ∀ link ∈ links, Derives .expression link.2) :
    Tree.Alternate kind (first :: chained links) where
  long := by
    have := List.length_pos_iff.2 nonempty
    simp only [List.length_cons, length_chained]
    omega
  odd := by
    simp only [List.length_cons, length_chained]
    omega
  operand {i t} found := by
    cases i with
    | zero =>
        obtain rfl : first = t := by simpa using found
        exact left.isOf
    | succ i =>
        rw [Nat.mul_succ, List.getElem?_cons_succ, chained_getElem?_odd,
          Option.map_eq_some_iff] at found
        obtain ⟨link, found, rfl⟩ := found
        exact (right link (List.mem_of_getElem? found)).isOf
  operator {i t} found := by
    rw [List.getElem?_cons_succ, chained_getElem?_even, Option.map_eq_some_iff] at found
    obtain ⟨link, found, rfl⟩ := found
    exact ⟨link.1, rfl, ofLevel_of_spellsAny own (spelled link (List.mem_of_getElem? found))⟩

theorem furtherBranches {more : List Branch} {last : Option (Token × Tree)}
    (elifs : ∀ b ∈ more, b.keyword.spells "elif" = true)
    (closes : ∀ e ∈ last, e.1.spells "else" = true)
    (tests : ∀ b ∈ more, Derives .expression b.test)
    (blocks : ∀ b ∈ more, Derives .suite b.block) (ends : ∀ e ∈ last, Derives .suite e.2) :
    Tree.FurtherBranches (branched more ++ closing last) := by
  induction more with
  | nil =>
      cases last with
      | none => exact .done
      | some e => exact .last (closes e rfl) (ends e rfl).isOf
  | cons b more ih =>
      simp only [List.forall_mem_cons] at elifs tests blocks
      exact .more elifs.1 tests.1.isOf blocks.1.isOf (ih elifs.2 tests.2 blocks.2)

/-- Phrases are laid out. -/
theorem laidOut {p : Phrase} {t : Tree} (h : Derives p t) : t.LaidOut := by
  induction h with
  | atom own =>
      rcases operandKind_cases own with ⟨hk, rfl⟩ | ⟨hk, rfl⟩ | ⟨hk, rfl⟩ | ⟨hk, rfl⟩ <;>
        exact ⟨_, rfl, hk⟩
  | bareEntry named => exact ⟨_, rfl, named⟩
  | negation sign operand => exact ⟨_, _, rfl, sign, operand.isOf⟩
  | @chain kind _ _ _ own nonempty spelled left right =>
      have parts := alternate own nonempty spelled left right
      cases kind <;> simp [signsOf] at own <;> exact parts
  | assignment _ right => exact ⟨_, _, rfl, right.isOf⟩
  | printing operand => exact ⟨_, rfl, operand.isOf⟩
  | jump spelled => exact ⟨_, rfl, spelled⟩
  | conditional opens elifs closes tests blocks ends =>
      simp only [List.forall_mem_cons] at tests blocks
      exact ⟨_, _, _, _, rfl, opens, tests.1.isOf, blocks.1.isOf,
        furtherBranches elifs closes tests.2 blocks.2 ends⟩
  | whileLoop test block => exact ⟨_, _, rfl, test.isOf, block.isOf⟩
  | forLoop start test updates block =>
      exact ⟨_, _, _, _, rfl, start.isOf, test.isOf, updates.isOf, block.isOf⟩
  | noStart | noTest => exact ⟨by simp, by simp⟩
  | declaringStart part => exact ⟨by simp, by simpa using Or.inl part.isOf⟩
  | assigningStart part => exact ⟨by simp, by simpa using Or.inr part.isOf⟩
  | test part => exact ⟨by simp, by simpa using part.isOf⟩
  | declaration parts | updates parts | suite parts | program parts => exact isOf_of_mem parts
  | initializedEntry _ ih | ofExpression _ ih | ofDeclaration _ ih | ofAssignment _ ih => exact ih

/-- All trees within a phrase are laid out. -/
theorem laidOut_within {p : Phrase} {t s : Tree} (h : Derives p t) (part : Tree.Within s t) :
    s.LaidOut := by
  cases s with
  | leaf token => exact trivial
  | node kind parts =>
      obtain ⟨q, derived⟩ := h.within part rfl
      exact derived.laidOut

end Derives

end Grammar
end EmojiLang
