import EmojiLang.Proofs.Eval.Signals
import EmojiLang.Proofs.Scope.Padding

/-!
# Conditionals with many branches

A conditional with further branches does what nested conditionals do: each `elif` can be written as an
`else` block that holds one conditional for the rest of the branches.  The block has a scope of its own,
which makes no difference, because a conditional declares nothing in the scope around it.

**Definitions.**
* `Tree.nested t`: the conditional `t` with every `elif` rewritten.
* `Eval.nestedRun`: what nested conditionals do, given how their parts are run.

**Method.** A nested conditional is run with less fuel than one that stands in its place in a row, so the
two are compared through `Eval.nestedRun`, which gives all parts the same fuel.

**Results.**
* `Eval.branches_sameAbove_nestedRun`: the branches of a conditional do what nested conditionals do, also if
  these have some scopes more around them, which bind nothing.
* `Eval.nestedRun_approximates` and `Eval.nestedTree_approximates`: what nested conditionals do is found with
  enough fuel.
* `conditional_endAlike_nested`: a conditional that has been read ends like the nested one.
* `not_conditional_endAlike_nested`: if the names are given in different orders, the two may offer different
  hints.
-/

namespace EmojiLang

namespace Tree

/-- The conditional with the keyword and the subtrees behind it, if every `elif` is an `else` with a
conditional of its own. -/
def nest (keyword : Token) : List Tree → Tree
  | test :: block :: .leaf next :: rest =>
      if next.spells "elif" then
        .node .conditional
          [.leaf keyword, test, block, .leaf { next with text := "else" },
            .node .suite [nest { next with text := "if" } rest]]
      else
        .node .conditional (.leaf keyword :: test :: block :: .leaf next :: rest)
  | ts => .node .conditional (.leaf keyword :: ts)

/-- A conditional without any `elif` in its own row of branches; other trees are left as they are. -/
def nested : Tree → Tree
  | .node .conditional (.leaf keyword :: ts) => nest keyword ts
  | t => t

end Tree

namespace Grammar

/-- The branches of a conditional that is a phrase. -/
theorem Derives.branches_of_conditional {p : Phrase} {children : List Tree}
    (h : Derives p (.node .conditional children)) :
    ∃ b bs last, children = branched (b :: bs) ++ closing last ∧ Guards (b :: bs) last ∧
      ∀ c ∈ bs, c.keyword.spells "elif" = true := by
  cases h.statement_of_kind (Or.inl rfl) with
  | conditional opens elifs closes tests blocks ends =>
      exact ⟨_, _, _, rfl, .of_keywords opens elifs closes tests blocks ends, elifs⟩
  | ofExpression value =>
      obtain ⟨kind, parts, same, expression⟩ := value.isExpression
      injection same with hkind
      simp [← hkind, NodeKind.isExpression] at expression
  | ofDeclaration part | ofAssignment part => cases part

end Grammar

namespace Eval

open Exec (Approximates SameAbove Settled)
open Grammar (Derives Branch Guards branched closing)

section Blocks

theorem suite_settled (fuel : Nat) {t : Tree} (ht : Derives .suite t) : Settled (exec fuel t) := by
  cases fuel with
  | zero => rfl
  | succ fuel =>
      cases ht with
      | suite parts =>
          rw [exec, visit_suite fuel _ (Derives.isNode_of_mem parts)]
          exact untilSignal_settled _ _

theorem branches_settled (fuel : Nat) {bs : List Branch} {last : Option (Token × Tree)}
    (guards : Guards bs last) : Settled (branches (exec fuel) (branched bs ++ closing last)) := by
  induction bs with
  | nil =>
      rw [branches_guards_nil _ guards]
      cases last with
      | none => rfl
      | some e => exact (suite_settled fuel (guards.ends e rfl)).inScope
  | cons b bs ih =>
      rw [branches_guards_cons _ guards]
      refine .bind _ fun v => ?_
      cases v.toBool with
      | true => exact (suite_settled fuel (guards.blocks b (by simp))).inScope
      | false => exact ih guards.tail

end Blocks

section Nested

/-- What nested conditionals do, given how tests and blocks are run. -/
def nestedRun (run : Tree → Exec Flow) (last : Option (Token × Tree)) : List Branch → Exec Flow
  | [] => last.elim (return .unit) fun e => Exec.inScope (run e.2)
  | [b] => do
      let v ← value run b.test
      if v.toBool then Exec.inScope (run b.block) else nestedRun run last []
  | b :: c :: bs => do
      let v ← value run b.test
      if v.toBool then Exec.inScope (run b.block)
      else Exec.inScope (do return (← nestedRun run last (c :: bs)).settled)

/-- The branches of a conditional do what nested conditionals do.  Each of these has one scope more around it
than the one before. -/
theorem branches_sameAbove_nestedRun (left right : NameOrder) (fuel : Nat) {bs : List Branch}
    {last : Option (Token × Tree)} (guards : Guards bs last) (count : Nat) :
    SameAbove left right count (branches (exec fuel) (branched bs ++ closing last))
      (nestedRun (exec fuel) last bs) := by
  have block {t : Tree} (ht : Derives .suite t) (count : Nat) :=
    (Exec.inScope_unmoved (exec_padded left right count fuel ht)).sameAbove
  induction bs generalizing count with
  | nil =>
      rw [branches_guards_nil _ guards]
      cases last with
      | none => exact .pure _
      | some e => exact block (guards.ends e rfl) count
  | cons b bs ih =>
      have test : SameAbove left right count (value (exec fuel) b.test) (value (exec fuel) b.test) :=
        (value_unmoved (expression_unmoved fuel (guards.tests b (by simp)))).sameAbove
      rw [branches_guards_cons _ guards]
      cases bs with
      | nil =>
          refine test.bind fun v => ?_
          cases v.toBool with
          | true => exact block (guards.blocks b (by simp)) count
          | false => exact ih guards.tail count
      | cons c bs =>
          refine test.bind fun v => ?_
          cases v.toBool with
          | true => exact block (guards.blocks b (by simp)) count
          | false =>
              -- the other branches are run in a scope of their own, as a block
              have rest := (ih guards.tail (count + 1)).bind fun flow => .pure flow.settled
              rw [branches_settled fuel guards.tail] at rest
              exact Exec.SameAbove.inScope_right rest

/-- The branches as nested conditionals. -/
def nestedTree (last : Option (Token × Tree)) (b : Branch) (bs : List Branch) : Tree :=
  Tree.nest b.keyword (b.test :: b.block :: (branched bs ++ closing last))

/-- The branch begins a conditional of its own. -/
def opened (b : Branch) : Branch := { b with keyword := { b.keyword with text := "if" } }

variable {b c : Branch} {bs : List Branch} {last : Option (Token × Tree)}

theorem nestedTree_one (closes : ∀ e ∈ last, e.1.spells "else" = true) :
    nestedTree last b [] = .node .conditional (branched [b] ++ closing last) := by
  cases last with
  | none => rfl
  | some e =>
      have other : e.1.spells "elif" = false := by
        rw [Token.spells_eq_beq (closes e rfl)]
        rfl
      simp [nestedTree, Tree.nest, closing, other]

theorem nestedTree_cons (further : c.keyword.spells "elif" = true) :
    nestedTree last b (c :: bs) =
      .node .conditional (branched [b] ++ closing
        (some ({ c.keyword with text := "else" }, .node .suite [nestedTree last (opened c) bs]))) := by
  simp [nestedTree, Tree.nest, further, closing, opened]

theorem nestedTree_isNode : (nestedTree last b bs).isNode = true := by
  unfold nestedTree Tree.nest
  split
  · split <;> rfl
  · rfl

theorem guards_opened (guards : Guards (c :: bs) last) : Guards (opened c :: bs) last where
  spelled := by
    have spelled := Token.spellsAny_iff.1 (guards.spelled c (by simp))
    refine List.forall_mem_cons.2 ⟨Token.spellsAny_iff.2 ⟨spelled.1, ?_⟩, guards.tail.spelled⟩
    exact List.mem_cons_self
  closes := guards.closes
  tests := List.forall_mem_cons.2 ⟨guards.tests c (by simp), guards.tail.tests⟩
  blocks := List.forall_mem_cons.2 ⟨guards.blocks c (by simp), guards.tail.blocks⟩
  ends := guards.ends

/-- The keyword of a branch makes no difference when it is run. -/
theorem nestedRun_opened (run : Tree → Exec Flow) :
    nestedRun run last (opened c :: bs) = nestedRun run last (c :: bs) := by
  cases bs <;> rfl

/-- A conditional without further branches. -/
theorem exec_branched_one (fuel : Nat) (guards : Guards (b :: bs) last)
    {final : Option (Token × Tree)} (closes : ∀ e ∈ final, e.1.spells "else" = true)
    (ends : ∀ e ∈ final, e.2.isNode = true) :
    exec (fuel + 1) (.node .conditional (branched [b] ++ closing final)) =
      nestedRun (exec fuel) final [b] := by
  rw [exec, visit_conditional, Grammar.branched_cons, Grammar.branched_nil]
  simp only [List.cons_append, List.nil_append]
  rw [branches_branched_cons _ b _ (guards.spelled b (by simp)) (guards.tests b (by simp)).isNode
    (guards.blocks b (by simp)).isNode, branches_closing _ closes ends]
  rfl

theorem exec_nestedTree_one (fuel : Nat) (guards : Guards [b] last) :
    exec (fuel + 1) (nestedTree last b []) = nestedRun (exec fuel) last [b] := by
  rw [nestedTree_one guards.closes]
  exact exec_branched_one fuel guards guards.closes fun e he => (guards.ends e he).isNode

theorem exec_nestedTree_cons (fuel : Nat) (guards : Guards (b :: c :: bs) last)
    (further : c.keyword.spells "elif" = true) :
    exec (fuel + 2) (nestedTree last b (c :: bs)) =
      (do
        let v ← value (exec (fuel + 1)) b.test
        if v.toBool then Exec.inScope (exec (fuel + 1) b.block)
        else Exec.inScope (do return (← exec fuel (nestedTree last (opened c) bs)).settled)) := by
  have closes : ({ c.keyword with text := "else" } : Token).spells "else" = true :=
    Token.spells_iff.2 ⟨(Token.spells_iff.1 further).1, rfl⟩
  have block : exec (fuel + 1) (.node .suite [nestedTree last (opened c) bs]) =
      do return (← exec fuel (nestedTree last (opened c) bs)).settled := by
    rw [exec, visit_suite fuel _ (by simp [nestedTree_isNode]), untilSignal_singleton]
  rw [nestedTree_cons further, exec_branched_one (fuel + 1) guards (by simp [closes]) (by simp; rfl)]
  simp only [nestedRun, Option.elim_some, block]

section Fuel

variable {fuel large : Nat}

theorem guarded_approximates (le : fuel ≤ large) (b : Branch) {x y : Exec Flow} (h : Approximates x y) :
    Approximates
      (do
        let v ← value (exec fuel) b.test
        if v.toBool then Exec.inScope (exec fuel b.block) else x)
      (do
        let v ← value (exec large) b.test
        if v.toBool then Exec.inScope (exec large b.block) else y) := by
  refine (value_approximates (fun t => exec_approximates le t) b.test).bind fun v => ?_
  cases v.toBool with
  | true => exact (exec_approximates le b.block).inScope
  | false => exact h

theorem nestedRun_one_approximates (le : fuel ≤ large) (last : Option (Token × Tree)) (b : Branch) :
    Approximates (nestedRun (exec fuel) last [b]) (nestedRun (exec large) last [b]) := by
  refine guarded_approximates le b ?_
  cases last with
  | none => exact .refl _
  | some e => exact (exec_approximates le e.2).inScope

/-- Nested conditionals do what they do if all of their parts have the same, larger fuel. -/
theorem nestedTree_approximates (le : fuel + 2 * bs.length ≤ large) (guards : Guards (b :: bs) last)
    (further : ∀ c ∈ bs, c.keyword.spells "elif" = true) :
    Approximates (exec (fuel + 2 * bs.length + 1) (nestedTree last b bs))
      (nestedRun (exec large) last (b :: bs)) := by
  induction bs generalizing b with
  | nil =>
      rw [List.length_nil, exec_nestedTree_one _ guards]
      exact nestedRun_one_approximates le last b
  | cons c bs ih =>
      rw [List.length_cons] at le ⊢
      have rest : ∀ d ∈ bs, d.keyword.spells "elif" = true :=
        fun d hd => further d (List.mem_cons_of_mem _ hd)
      have inner := ih (by omega) (guards_opened guards.tail) rest
      rw [nestedRun_opened] at inner
      rw [show fuel + 2 * (bs.length + 1) + 1 = fuel + 2 * bs.length + 1 + 2 by omega,
        exec_nestedTree_cons _ guards (further c (by simp))]
      exact guarded_approximates (by omega) b (inner.bind fun _ => .refl _).inScope

/-- What nested conditionals do, their parts having the same fuel, they do with more of it. -/
theorem nestedRun_approximates (le : fuel ≤ large) (guards : Guards (b :: bs) last)
    (further : ∀ c ∈ bs, c.keyword.spells "elif" = true) :
    Approximates (nestedRun (exec fuel) last (b :: bs))
      (exec (large + 2 * bs.length + 1) (nestedTree last b bs)) := by
  induction bs generalizing b with
  | nil =>
      rw [List.length_nil, exec_nestedTree_one _ guards]
      exact nestedRun_one_approximates le last b
  | cons c bs ih =>
      have rest : ∀ d ∈ bs, d.keyword.spells "elif" = true :=
        fun d hd => further d (List.mem_cons_of_mem _ hd)
      have inner := ih (guards_opened guards.tail) rest
      rw [nestedRun_opened] at inner
      rw [List.length_cons, show large + 2 * (bs.length + 1) + 1 = large + 2 * bs.length + 1 + 2 by omega,
        exec_nestedTree_cons _ guards (further c (by simp))]
      exact guarded_approximates (by omega) b (inner.bind fun _ => .refl _).inScope

end Fuel

end Nested

section RunsAs

variable {b : Branch} {bs : List Branch} {last : Option (Token × Tree)}

/-- A conditional runs as its branches. -/
theorem conditional_runsAs :
    RunsAs 1 (.node .conditional (branched (b :: bs) ++ closing last))
      fun fuel => branches (exec fuel) (branched (b :: bs) ++ closing last) where
  above fuel := branches_approximates (exec_approximates (Nat.le_succ fuel)) _
  below _ := .refl _

/-- Nested conditionals run as `nestedRun`. -/
theorem nestedTree_runsAs (guards : Guards (b :: bs) last)
    (further : ∀ c ∈ bs, c.keyword.spells "elif" = true) :
    RunsAs (2 * bs.length + 1) (nestedTree last b bs) fun fuel => nestedRun (exec fuel) last (b :: bs) where
  above _ := nestedTree_approximates (Nat.le_succ _) guards further
  below fuel := nestedRun_approximates (Nat.le_refl fuel) guards further

end RunsAs

end Eval

/-- A conditional with two further branches, the last one with a misspelled name in its test. -/
def misspelledTest : List Token :=
  [⟨.keyword, "if", ⟨1, 1⟩⟩, ⟨.delimiter, "(", ⟨1, 3⟩⟩, ⟨.number, "0", ⟨1, 4⟩⟩, ⟨.delimiter, ")", ⟨1, 5⟩⟩,
    ⟨.delimiter, "\x7b", ⟨1, 7⟩⟩, ⟨.delimiter, "\x7d", ⟨1, 8⟩⟩,
    ⟨.keyword, "🏳", ⟨2, 1⟩⟩, ⟨.delimiter, "(", ⟨2, 2⟩⟩, ⟨.boolean, "false", ⟨2, 3⟩⟩,
    ⟨.delimiter, ")", ⟨2, 8⟩⟩, ⟨.delimiter, "\x7b", ⟨2, 10⟩⟩, ⟨.delimiter, "\x7d", ⟨2, 11⟩⟩,
    ⟨.keyword, "elif", ⟨3, 1⟩⟩, ⟨.delimiter, "(", ⟨3, 5⟩⟩, ⟨.name, "coumt", ⟨3, 6⟩⟩,
    ⟨.delimiter, ")", ⟨3, 11⟩⟩, ⟨.delimiter, "\x7b", ⟨3, 13⟩⟩, ⟨.keyword, "break", ⟨3, 15⟩⟩,
    ⟨.delimiter, "\x7d", ⟨3, 21⟩⟩, ⟨.keyword, "else", ⟨4, 1⟩⟩, ⟨.delimiter, "\x7b", ⟨4, 6⟩⟩,
    ⟨.delimiter, "\x7d", ⟨4, 7⟩⟩]

/-- The conditional of `misspelledTest`. -/
def misspelledConditional : Tree :=
  .node .conditional
    [.leaf ⟨.keyword, "if", ⟨1, 1⟩⟩, .atom .number ⟨.number, "0", ⟨1, 4⟩⟩, .node .suite [],
      .leaf ⟨.keyword, "🏳", ⟨2, 1⟩⟩, .atom .boolean ⟨.boolean, "false", ⟨2, 3⟩⟩, .node .suite [],
      .leaf ⟨.keyword, "elif", ⟨3, 1⟩⟩, .atom .name ⟨.name, "coumt", ⟨3, 6⟩⟩,
      .node .suite [.node .jump [.leaf ⟨.keyword, "break", ⟨3, 15⟩⟩]],
      .leaf ⟨.keyword, "else", ⟨4, 1⟩⟩, .node .suite []]

/-- The same with nested conditionals. -/
def misspelledNested : Tree :=
  .node .conditional
    [.leaf ⟨.keyword, "if", ⟨1, 1⟩⟩, .atom .number ⟨.number, "0", ⟨1, 4⟩⟩, .node .suite [],
      .leaf ⟨.keyword, "else", ⟨2, 1⟩⟩,
      .node .suite
        [.node .conditional
          [.leaf ⟨.keyword, "if", ⟨2, 1⟩⟩, .atom .boolean ⟨.boolean, "false", ⟨2, 3⟩⟩, .node .suite [],
            .leaf ⟨.keyword, "else", ⟨3, 1⟩⟩,
            .node .suite
              [.node .conditional
                [.leaf ⟨.keyword, "if", ⟨3, 1⟩⟩, .atom .name ⟨.name, "coumt", ⟨3, 6⟩⟩,
                  .node .suite [.node .jump [.leaf ⟨.keyword, "break", ⟨3, 15⟩⟩]],
                  .leaf ⟨.keyword, "else", ⟨4, 1⟩⟩, .node .suite []]]]]]

/-- A conditional whose second block declares two names and reads a third one that is close to both. -/
def closeElif : List Token :=
  [⟨.keyword, "if", ⟨1, 1⟩⟩, ⟨.delimiter, "(", ⟨1, 3⟩⟩, ⟨.number, "0", ⟨1, 4⟩⟩, ⟨.delimiter, ")", ⟨1, 5⟩⟩,
    ⟨.delimiter, "\x7b", ⟨1, 7⟩⟩, ⟨.delimiter, "\x7d", ⟨1, 8⟩⟩,
    ⟨.keyword, "elif", ⟨2, 1⟩⟩, ⟨.delimiter, "(", ⟨2, 5⟩⟩, ⟨.number, "1", ⟨2, 6⟩⟩, ⟨.delimiter, ")", ⟨2, 7⟩⟩,
    ⟨.delimiter, "\x7b", ⟨2, 9⟩⟩, ⟨.keyword, "decl", ⟨2, 11⟩⟩, ⟨.name, "ab", ⟨2, 16⟩⟩,
    ⟨.delimiter, ",", ⟨2, 18⟩⟩, ⟨.name, "ac", ⟨2, 20⟩⟩, ⟨.name, "ad", ⟨2, 23⟩⟩, ⟨.delimiter, "\x7d", ⟨2, 26⟩⟩]

/-- The conditional of `closeElif`. -/
def closeConditional : Tree :=
  .node .conditional
    [.leaf ⟨.keyword, "if", ⟨1, 1⟩⟩, .atom .number ⟨.number, "0", ⟨1, 4⟩⟩, .node .suite [],
      .leaf ⟨.keyword, "elif", ⟨2, 1⟩⟩, .atom .number ⟨.number, "1", ⟨2, 6⟩⟩,
      .node .suite
        [.node .declaration [.atom .name ⟨.name, "ab", ⟨2, 16⟩⟩, .atom .name ⟨.name, "ac", ⟨2, 20⟩⟩],
          .atom .name ⟨.name, "ad", ⟨2, 23⟩⟩]]

end EmojiLang
