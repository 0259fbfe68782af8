import EmojiLang.Proofs.Eval.Signals
import EmojiLang.Proofs.Scope.Padding

/-!
# Counting loops

A counting loop does what a loop with a test only does, if its start stands in front of that loop, in a
block around both, and its updates behind its body, which becomes a block in a block.  Nothing must go on
with the loop from inside the body, because the updates would be left out then.

**Definitions.**
* `Tree.asWhile p t`: the counting loop `t` with a test only; `p` is the place of the tokens that are new.
* `Loop`: the parts of a counting loop, as actions.
* `Loop.counting` and `Loop.repeating`: what the one loop and the other do with them.

**Method.** The body and the updates have one more scope around them in the other loop.  They notice no
difference, because the body has a scope of its own and the updates declare nothing; so a round does the
same.  The two loops are compared with the same fuel for all parts, and any other fuel is led back to that.

**Results.**
* `Loop.rounds_same` and `Loop.counting_same_repeating`: the rounds and the loops do the same.
* `Eval.exec_forLoop` and `Eval.exec_asWhile`: the trees are run as these loops.
* `forLoop_endAlike_asWhile`: a counting loop that has been read ends like the one with a test only.
* `not_forLoop_endAlike_asWhile`: if the names are given in different orders, the two may offer different hints.
-/

namespace EmojiLang

namespace Tree

variable (p : Position)

/-- The literal `true`. -/
def truth : Tree := .atom .boolean ⟨.boolean, "true", p⟩

/-- The conditional that always runs a block. -/
def always (block : Tree) : Tree := .node .conditional [.leaf ⟨.keyword, "if", p⟩, truth p, block]

/-- The test of a counting loop, where an empty one is `true`. -/
def whileTest (test : Tree) : Tree := test.children.headD (truth p)

/-- The counting loop as a block with its start and a loop with a test only, whose body ends with the
updates; other trees are left as they are. -/
def asWhile : Tree → Tree
  | .node .forLoop [start, test, updates, block] =>
      always p (.node .suite (start.children ++
        [.node .whileLoop [whileTest p test, .node .suite (always p block :: updates.children)]]))
  | t => t

end Tree

/-- The parts of a counting loop. -/
structure Loop where
  start : Exec Unit
  test : Exec Bool
  body : Exec Flow
  update : Exec Unit

namespace Loop

open Exec (Same SameAbove Simulates Unmoved Yields)
open Eval (rounds)
open Machine (Padded)

variable {left right : NameOrder} (l : Loop)

/-- The start, the test and the updates share a scope around that of the body. -/
def counting (fuel : Nat) : Exec Flow :=
  Exec.inScope do
    l.start
    rounds l.test (Exec.inScope l.body) l.update fuel
    return .unit

/-- The body in a scope of its own, and the update behind it unless there is a signal. -/
def turn : Exec Flow := do
  match ← Exec.inScope l.body with
  | .normal _ => do
      l.update
      return .unit
  | .leave => return .leave
  | .next => return .next

/-- The update is part of the body, and the loop has a test only. -/
def repeating (fuel : Nat) : Exec Flow :=
  Exec.inScope do
    l.start
    rounds l.test (Exec.inScope l.turn) (return ()) fuel
    return .unit

/-- The parts do not notice the scope that makes the difference, and the body does not ask for another
round before its end. -/
structure Regular (left right : NameOrder) : Prop where
  start : Same left right l.start l.start
  test : Same left right l.test l.test
  body : Simulates (fun depth => Padded left right 1 (depth + 1)) (Diagnostic.Reordered left right)
    l.body l.body
  update : Unmoved left right 1 l.update
  never : Yields (· ≠ .next) l.body

variable {l}

namespace Regular

variable (h : l.Regular left right)
include h

theorem turn_unmoved : Unmoved left right 1 l.turn := by
  refine (Exec.inScope_unmoved h.body).bind fun flow => ?_
  cases flow with
  | normal v => exact h.update.bind fun _ => .pure _
  | leave => exact .pure _
  | next => exact .pure _

/-- A turn may as well have a scope of its own. -/
theorem turn_same_inScope : Same left right l.turn (Exec.inScope l.turn) := by
  have above : SameAbove left right (0 + 1) l.turn l.turn := h.turn_unmoved.sameAbove
  exact above.inScope_right.same

/-- What follows the update may as well follow the turn. -/
theorem bind_turn {α : Type} (leave next : Exec α) :
    (Exec.inScope l.body >>= fun flow =>
      match flow with
      | .leave => leave
      | .next | .normal _ => l.update >>= fun _ => next) =
    l.turn >>= fun flow =>
      match flow with
      | .leave => leave
      | .next | .normal _ => next := by
  funext m
  simp only [turn, Exec.bind_apply]
  cases ended : Exec.inScope l.body m with
  | outOfFuel => rfl
  | failed d after => rfl
  | done flow after =>
      cases flow with
      | leave => rfl
      | next => exact absurd rfl (h.never.inScope _ _ _ ended)
      | normal v =>
          simp only [Exec.bind_apply]
          cases l.update after <;> rfl

end Regular

/-- The rounds do the same with the update as the end of the body. -/
theorem rounds_same (h : l.Regular left right) (fuel : Nat) :
    Same left right (rounds l.test (Exec.inScope l.body) l.update fuel)
      (rounds l.test (Exec.inScope l.turn) (return ()) fuel) := by
  induction fuel with
  | zero => exact .giveUp
  | succ fuel ih =>
      rw [Eval.rounds_succ, Eval.rounds_succ]
      refine h.test.bind fun holds => ?_
      cases holds with
      | false => exact .pure _
      | true =>
          have turned := h.bind_turn (return ()) (rounds l.test (Exec.inScope l.body) l.update fuel)
          refine turned ▸ h.turn_same_inScope.bind fun flow => ?_
          cases flow with
          | leave => exact .pure _
          | next => exact ih
          | normal v => exact ih

theorem counting_same_repeating (h : l.Regular left right) (fuel : Nat) :
    Same left right (l.counting fuel) (l.repeating fuel) :=
  Same.inScope (h.start.bind fun _ => (rounds_same h fuel).bind fun _ => .pure _)

section Fuel

/-- The parts of the second loop do what those of the first one do, as far as these have fuel. -/
structure Approximates (l more : Loop) : Prop where
  start : Exec.Approximates l.start more.start
  test : Exec.Approximates l.test more.test
  body : Exec.Approximates l.body more.body
  update : Exec.Approximates l.update more.update

variable {more : Loop} {fuel large : Nat} (h : l.Approximates more) (le : fuel ≤ large)
include h le

theorem counting_approximates : Exec.Approximates (l.counting fuel) (more.counting large) :=
  (h.start.bind fun _ => (Eval.rounds_approximates h.test h.body.inScope h.update le).bind
    fun _ => .refl _).inScope

omit le in
theorem turn_approximates : Exec.Approximates l.turn more.turn := by
  refine h.body.inScope.bind fun flow => ?_
  cases flow with
  | normal v => exact h.update.bind fun _ => .refl _
  | leave => exact .refl _
  | next => exact .refl _

theorem repeating_approximates : Exec.Approximates (l.repeating fuel) (more.repeating large) :=
  (h.start.bind fun _ => (Eval.rounds_approximates h.test (turn_approximates h).inScope (.refl _)
    le).bind fun _ => .refl _).inScope

end Fuel

end Loop

namespace Eval

open Exec (Simulates Unmoved Yields)
open Grammar (Derives)
open EmojiLang.Tree (truth always whileTest asWhile)

section Equations

variable (p : Position)

theorem exec_truth (fuel : Nat) : exec (fuel + 1) (truth p) = return .normal (.bool true) := by
  have spelled : (⟨.boolean, "true", p⟩ : Token).spells "true" = true := Token.spells_iff.2 ⟨rfl, rfl⟩
  rw [truth, exec, visit_atom_boolean, spelled]

theorem exec_always (fuel : Nat) {block : Tree} (node : block.isNode = true) :
    exec (fuel + 2) (always p block) = Exec.inScope (exec (fuel + 1) block) := by
  have spelled : (⟨.keyword, "if", p⟩ : Token).spellsAny ["if", "elif"] = true :=
    Token.spellsAny_iff.2 ⟨rfl, List.mem_cons_self⟩
  rw [always, exec, visit_conditional,
    branches_branched_cons _ ⟨⟨.keyword, "if", p⟩, truth p, block⟩ [] spelled rfl node]
  simp only [value, exec_truth]
  rfl

/-- The parts of a loop that is made of these trees, where each part has its own fuel. -/
def loopOf (starts : List Tree) (test : Tree) (updates : List Tree) (block : Tree)
    (startFuel testFuel blockFuel updateFuel : Nat) : Loop where
  start := do let _ ← lastValue (exec startFuel) .unit starts
  test := condition (exec testFuel) test
  body := exec blockFuel block
  update := do let _ ← lastValue (exec updateFuel) .unit updates

variable {starts updates : List Tree} {test block : Tree}

theorem loopOf_approximates {a b c d a' b' c' d' : Nat} (ha : a ≤ a') (hb : b ≤ b') (hc : c ≤ c')
    (hd : d ≤ d') :
    (loopOf starts test updates block a b c d).Approximates
      (loopOf starts test updates block a' b' c' d') where
  start := (lastValue_approximates (exec_approximates ha) _ _).bind fun _ => .refl _
  test := condition_approximates (exec_approximates hb) _
  body := exec_approximates hc _
  update := (lastValue_approximates (exec_approximates hd) _ _).bind fun _ => .refl _

end Equations

section Trees

variable {start test block : Tree}

/-- The trees are the parts of a counting loop that is a phrase. -/
structure CountingParts (starts : List Tree) (test : Tree) (updates : List Tree) (block : Tree) :
    Prop where
  starts : ∀ t ∈ starts, Derives .declaration t ∨ Derives .assignment t
  test : Derives .forTest test
  updates : ∀ t ∈ updates, Derives .assignment t
  block : Derives .suite block

theorem declarations_of_forInit (h : Derives .forInit start) :
    ∃ starts, start = .node .forInit starts ∧
      ∀ t ∈ starts, Derives .declaration t ∨ Derives .assignment t := by
  cases h with
  | noStart => exact ⟨[], rfl, by simp⟩
  | declaringStart part => exact ⟨_, rfl, by simpa using Or.inl part⟩
  | assigningStart part => exact ⟨_, rfl, by simpa using Or.inr part⟩

/-- A counting loop that is a phrase has such parts. -/
theorem countingParts_of_derives {q : Grammar.Phrase} {children : List Tree}
    (h : Derives q (.node .forLoop children)) :
    ∃ starts test us block, children = [.node .forInit starts, test, .node .forUpdates us, block] ∧
      CountingParts starts test us block := by
  obtain ⟨start, test, updates, block, rfl, hs, ht, hu, hb⟩ := h.parts_of_forLoop
  obtain ⟨starts, rfl, declares⟩ := declarations_of_forInit hs
  cases hu with
  | updates assigns => exact ⟨starts, test, _, block, rfl, declares, ht, assigns, hb⟩

theorem isNode_of_declares {ts : List Tree}
    (h : ∀ t ∈ ts, Derives .declaration t ∨ Derives .assignment t) : ∀ t ∈ ts, t.isNode = true :=
  fun t mem => (h t mem).elim Derives.isNode Derives.isNode

/-- Declarations and assignments end normally. -/
theorem exec_yields_of_declares (fuel : Nat) {t : Tree}
    (h : Derives .declaration t ∨ Derives .assignment t) :
    Yields Flow.IsNormal (exec fuel t) := by
  rcases h with h | h
  · cases h with
    | declaration _ => exact exec_yields_normal fuel rfl _
  · cases h with
    | assignment _ _ => exact exec_yields_normal fuel rfl _

theorem whileTest_derives (p : Position) (h : Derives .forTest test) :
    Derives .expression (whileTest p test) := by
  cases h with
  | noTest => exact .atom rfl
  | test part => exact part

theorem condition_whileTest (p : Position) (fuel : Nat) (h : Derives .forTest test) :
    condition (exec (fuel + 2)) test = condition (exec (fuel + 1)) (whileTest p test) := by
  cases h with
  | noTest =>
      have empty : exec (fuel + 2) (.node .forTest []) = exec (fuel + 1) (truth p) := by
        rw [exec, visit_noTest, exec_truth]
      simp only [condition, value, empty]
      rfl
  | @test t part =>
      have inner : exec (fuel + 2) (.node .forTest [t]) =
          do return .normal (← value (exec (fuel + 1)) t) := by
        rw [exec, visit_test _ _ part.isNode]
      simp only [condition, value, inner, bind_assoc, pure_bind]
      rfl

variable (p : Position) {starts us : List Tree} (parts : CountingParts starts test us block)
include parts

/-- A counting loop with enough fuel for an empty test. -/
theorem exec_forLoop (fuel : Nat) :
    exec (fuel + 3) (.node .forLoop [.node .forInit starts, test, .node .forUpdates us, block]) =
      (loopOf starts (whileTest p test) us block (fuel + 1) (fuel + 1) (fuel + 2) (fuel + 1)).counting
        (fuel + 2) := by
  have start : exec (fuel + 2) (.node .forInit starts) =
      do let _ ← lastValue (exec (fuel + 1)) .unit starts; return .unit := by
    rw [exec, visit_forInit _ _ (isNode_of_declares parts.starts)]
  have update : exec (fuel + 2) (.node .forUpdates us) =
      do let _ ← lastValue (exec (fuel + 1)) .unit us; return .unit := by
    rw [exec, visit_forUpdates _ _ (Derives.isNode_of_mem parts.updates)]
  rw [exec, visit_forLoop _ _ rfl parts.test.isNode rfl parts.block.isNode,
    condition_whileTest p fuel parts.test, ← Exec.inScope_map, start, update]
  simp only [Loop.counting, loopOf, bind_assoc, pure_bind]

/-- The body of the loop with a test only is a turn of the counting loop. -/
theorem exec_always_updates (startFuel testFuel fuel : Nat) :
    exec (fuel + 3) (.node .suite (always p block :: us)) =
      (loopOf starts test us block startFuel testFuel (fuel + 1) (fuel + 2)).turn := by
  have updates : untilSignal (exec (fuel + 2)) us =
      do let _ ← lastValue (exec (fuel + 2)) .unit us; return .unit := by
    have rest := untilSignal_append (exec (fuel + 2))
      (fun t mem => exec_yields_of_declares _ (Or.inr (parts.updates t mem))) .unit []
    rwa [List.append_nil] at rest
  have nodes : ∀ t ∈ always p block :: us, t.isNode = true :=
    List.forall_mem_cons.2 ⟨rfl, Derives.isNode_of_mem parts.updates⟩
  rw [exec, visit_suite _ _ nodes, untilSignal, exec_always _ _ parts.block.isNode, updates]
  funext m
  simp only [Loop.turn, loopOf, Exec.bind_apply]
  cases Exec.inScope (exec (fuel + 1) block) m with
  | outOfFuel => rfl
  | failed d after => rfl
  | done flow after =>
      cases flow with
      | leave => rfl
      | next => rfl
      | normal v =>
          simp only [Exec.bind_apply]
          cases lastValue (exec (fuel + 2)) .unit us after <;> rfl

/-- The loop with a test only, in the block with its start, with enough fuel for the blocks around its
parts. -/
theorem exec_asWhile (fuel : Nat) :
    exec (fuel + 6) (asWhile p
        (.node .forLoop [.node .forInit starts, test, .node .forUpdates us, block])) =
      (loopOf starts (whileTest p test) us block (fuel + 4) (fuel + 3) (fuel + 1) (fuel + 2)).repeating
        (fuel + 3) := by
  have nodes : ∀ t ∈ starts ++
      [.node .whileLoop [whileTest p test, .node .suite (always p block :: us)]], t.isNode = true := by
    simpa [or_imp, forall_and] using ⟨isNode_of_declares parts.starts, rfl⟩
  simp only [asWhile, Tree.children]
  rw [exec_always _ _ rfl, exec, visit_suite _ _ nodes,
    untilSignal_append _ (fun t mem => exec_yields_of_declares _ (parts.starts t mem)) .unit,
    untilSignal_singleton, exec, visit_whileLoop _ _ (whileTest_derives p parts.test).isNode rfl,
    exec_always_updates p parts (fuel + 4) (fuel + 3) fuel]
  simp only [Loop.repeating, loopOf, bind_assoc, pure_bind, Flow.settled]
  rfl

end Trees

section Alike

theorem lastValue_simulates_self {M : Nat → Machine → Machine → Prop} {D : Diagnostic → Diagnostic → Prop}
    {run : Tree → Exec Flow} {ts : List Tree} (h : ∀ t ∈ ts, Simulates M D (run t) (run t)) (last : Value) :
    Simulates M D (lastValue run last ts) (lastValue run last ts) := by
  induction ts generalizing last with
  | nil => exact .pure _
  | cons t ts ih =>
      have rest := ih fun t ht => h t (List.mem_cons_of_mem _ ht)
      exact ((h t (by simp)).bind fun _ => .pure _).bind fun v => rest v

variable {starts us : List Tree} {test block : Tree} (p : Position)
  (parts : CountingParts starts test us block)
include parts

/-- All parts have the same fuel here. -/
theorem loopOf_regular (left right : NameOrder) (fuel : Nat) (steady : block.resumes = false) :
    (loopOf starts (whileTest p test) us block fuel fuel fuel fuel).Regular left right where
  start := by
    refine (lastValue_simulates_self (fun t mem => ?_) .unit).bind fun _ => .pure _
    rcases parts.starts t mem with declares | assigns
    · exact exec_same left right fuel declares
    · exact exec_same left right fuel assigns
  test := by
    have same := exec_same left right fuel (whileTest_derives p parts.test)
    exact (same.bind fun _ => .pure _).bind fun _ => .pure _
  body := exec_padded left right 1 fuel parts.block
  update := by
    have assigns : ∀ t ∈ us, Unmoved left right 1 (exec fuel t) :=
      fun t mem => assignment_unmoved fuel (parts.updates t mem)
    exact (lastValue_simulates_self assigns .unit).bind fun _ => .pure _
  never := exec_yields_of_resumes fuel steady

/-- A counting loop runs as `Loop.counting`. -/
theorem forLoop_runsAs :
    RunsAs 3 (.node .forLoop [.node .forInit starts, test, .node .forUpdates us, block])
      fun fuel => (loopOf starts (whileTest p test) us block fuel fuel fuel fuel).counting fuel where
  above fuel := by
    rw [exec_forLoop p parts fuel]
    exact Loop.counting_approximates (loopOf_approximates (by omega) (by omega) (by omega) (by omega))
      (by omega)
  below fuel := by
    rw [exec_forLoop p parts fuel]
    exact Loop.counting_approximates (loopOf_approximates (by omega) (by omega) (by omega) (by omega))
      (by omega)

/-- The block with the start and the loop with a test only runs as `Loop.repeating`. -/
theorem asWhile_runsAs :
    RunsAs 6 (asWhile p (.node .forLoop [.node .forInit starts, test, .node .forUpdates us, block]))
      fun fuel => (loopOf starts (whileTest p test) us block fuel fuel fuel fuel).repeating fuel where
  above fuel := by
    rw [exec_asWhile p parts fuel]
    exact Loop.repeating_approximates (loopOf_approximates (by omega) (by omega) (by omega) (by omega))
      (by omega)
  below fuel := by
    rw [exec_asWhile p parts fuel]
    exact Loop.repeating_approximates (loopOf_approximates (by omega) (by omega) (by omega) (by omega))
      (by omega)

end Alike

end Eval

/-- A counting loop with a misspelled name in its update.  Its body declares the counter once more and goes
on with a loop of its own. -/
def misspelledUpdate : List Token :=
  [⟨.keyword, "for", ⟨1, 1⟩⟩, ⟨.delimiter, "(", ⟨1, 5⟩⟩, ⟨.keyword, "decl", ⟨1, 6⟩⟩,
    ⟨.name, "i", ⟨1, 11⟩⟩, ⟨.delimiter, ";", ⟨1, 12⟩⟩, ⟨.delimiter, ";", ⟨1, 13⟩⟩,
    ⟨.name, "i", ⟨1, 15⟩⟩, ⟨.operator, "=", ⟨1, 17⟩⟩, ⟨.name, "setp", ⟨1, 19⟩⟩,
    ⟨.delimiter, ")", ⟨1, 23⟩⟩, ⟨.delimiter, "\x7b", ⟨1, 25⟩⟩, ⟨.keyword, "decl", ⟨2, 1⟩⟩,
    ⟨.name, "i", ⟨2, 6⟩⟩, ⟨.keyword, "while", ⟨3, 1⟩⟩, ⟨.delimiter, "(", ⟨3, 7⟩⟩,
    ⟨.boolean, "false", ⟨3, 8⟩⟩, ⟨.delimiter, ")", ⟨3, 13⟩⟩, ⟨.delimiter, "\x7b", ⟨3, 15⟩⟩,
    ⟨.keyword, "continue", ⟨3, 17⟩⟩, ⟨.delimiter, "\x7d", ⟨3, 26⟩⟩, ⟨.delimiter, "\x7d", ⟨4, 1⟩⟩]

/-- The body of `misspelledUpdate`. -/
def shadowingBody : Tree :=
  .node .suite
    [.node .declaration [.atom .name ⟨.name, "i", ⟨2, 6⟩⟩],
      .node .whileLoop
        [.atom .boolean ⟨.boolean, "false", ⟨3, 8⟩⟩,
          .node .suite [.node .jump [.leaf ⟨.keyword, "continue", ⟨3, 17⟩⟩]]]]

/-- The update of `misspelledUpdate`. -/
def setpUpdate : Tree :=
  .node .assignment [.atom .name ⟨.name, "i", ⟨1, 15⟩⟩, .atom .name ⟨.name, "setp", ⟨1, 19⟩⟩]

/-- The loop of `misspelledUpdate`. -/
def misspelledLoop : Tree :=
  .node .forLoop
    [.node .forInit [.node .declaration [.atom .name ⟨.name, "i", ⟨1, 11⟩⟩]], .node .forTest [],
      .node .forUpdates [setpUpdate], shadowingBody]

/-- The same with a test only. -/
def misspelledWhile : Tree :=
  .node .conditional
    [.leaf ⟨.keyword, "if", ⟨1, 1⟩⟩, .atom .boolean ⟨.boolean, "true", ⟨1, 1⟩⟩,
      .node .suite
        [.node .declaration [.atom .name ⟨.name, "i", ⟨1, 11⟩⟩],
          .node .whileLoop
            [.atom .boolean ⟨.boolean, "true", ⟨1, 1⟩⟩,
              .node .suite
                [.node .conditional
                  [.leaf ⟨.keyword, "if", ⟨1, 1⟩⟩, .atom .boolean ⟨.boolean, "true", ⟨1, 1⟩⟩,
                    shadowingBody],
                  setpUpdate]]]]

/-- A counting loop that declares two names and has a third one, close to both, as its test. -/
def closeTest : List Token :=
  [⟨.keyword, "for", ⟨1, 1⟩⟩, ⟨.delimiter, "(", ⟨1, 5⟩⟩, ⟨.keyword, "decl", ⟨1, 6⟩⟩, ⟨.name, "ab", ⟨1, 11⟩⟩,
    ⟨.delimiter, ",", ⟨1, 13⟩⟩, ⟨.name, "ac", ⟨1, 15⟩⟩, ⟨.delimiter, ";", ⟨1, 17⟩⟩, ⟨.name, "ad", ⟨1, 19⟩⟩,
    ⟨.delimiter, ";", ⟨1, 21⟩⟩, ⟨.delimiter, ")", ⟨1, 22⟩⟩, ⟨.delimiter, "\x7b", ⟨1, 24⟩⟩,
    ⟨.delimiter, "\x7d", ⟨1, 25⟩⟩]

/-- The loop of `closeTest`. -/
def closeLoop : Tree :=
  .node .forLoop
    [.node .forInit
      [.node .declaration [.atom .name ⟨.name, "ab", ⟨1, 11⟩⟩, .atom .name ⟨.name, "ac", ⟨1, 15⟩⟩]],
      .node .forTest [.atom .name ⟨.name, "ad", ⟨1, 19⟩⟩], .node .forUpdates [], .node .suite []]

end EmojiLang
