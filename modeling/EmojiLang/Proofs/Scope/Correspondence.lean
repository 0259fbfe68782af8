import EmojiLang.Proofs.Eval.Blame

/-!
# Corresponding stacks of scopes

A program is run on two stacks of scopes.  The stacks may differ, as long as reading, declaring and
assigning a name of the program does corresponding things on both of them; then the whole runs do.  The
listings of scopes in a trace are left out of the comparison, because they show the difference.

**Definitions.**
* `Machine.Paired left right envs m n`: the scopes are related, the same has been printed, and the names are
  given in these orders.
* `Correspondence`: a relation of stacks, by the number of scopes that have been entered, with what the
  operations on scopes have to satisfy.
* `Machine.SameState`: the scopes are equal and the same has been printed.
* `Exec.Same`: from equal scopes two actions do the same, up to the order of the names.
* `Eval.RunsAs`: what a tree does is said by actions that need less fuel.

**Results.**
* `Correspondence.simulation`: a correspondence of stacks is a simulation of runs.
* `Correspondence.exec_simulates`: phrases with corresponding names run alike.
* `exec_same`: what a phrase does is decided neither by the trace nor, up to the hint, by the order of the
  names.
* `endAlike_of_same`: trees end alike if they run as actions that do the same.
-/

namespace EmojiLang

/-- The scopes are related, the same has been printed, and the names are given in these orders.  What has been
traced may differ. -/
structure Machine.Paired (left right : NameOrder) (envs : Env → Env → Prop) (m n : Machine) : Prop where
  envs : envs m.env n.env
  output : m.output = n.output
  left : m.order = left
  right : n.order = right

/-- Stacks of scopes that correspond, depending on the number of scopes that have been entered, and names
that can be read, declared and assigned alike on corresponding stacks, which give their names in the orders
`left` and `right`. -/
structure Correspondence where
  left : NameOrder
  right : NameOrder
  names : String → String → Prop
  envs : (depth : Nat) → Env → Env → Prop
  causes : Diagnostic → Diagnostic → Prop
  causes_self : ∀ d, causes d d
  lookup {a b : String} {depth : Nat} {env env' : Env} (p : Position) :
    names a b → envs depth env env' →
      ResultsRelated Eq causes (env.lookup a p left) (env'.lookup b p right)
  declare {a b : String} {depth : Nat} {env env' : Env} (v : Value) (p : Position) :
    names a b → envs depth env env' →
      ResultsRelated (envs depth) causes (env.declare a v p) (env'.declare b v p)
  assign {a b : String} {depth : Nat} {env env' : Env} (v : Value) (p : Position) :
    names a b → envs depth env env' →
      ResultsRelated (envs depth) causes (env.assign a v p left) (env'.assign b v p right)
  push {depth : Nat} {env env' : Env} :
    envs depth env env' → envs (depth + 1) env.push env'.push
  pop {depth : Nat} {env env' : Env} :
    envs (depth + 1) env env' → envs depth env.pop env'.pop

namespace Machine.Paired

variable {left right : NameOrder} {envs : Env → Env → Prop} {D : Diagnostic → Diagnostic → Prop}
  {m n : Machine} (h : Machine.Paired left right envs m n)
include h

theorem withEnv {envs' : Env → Env → Prop} {env env' : Env} (related : envs' env env') :
    Paired left right envs' { m with env } { n with env := env' } :=
  ⟨related, h.output, h.left, h.right⟩

theorem store_related {r s : Except Diagnostic Env} (results : ResultsRelated envs D r s) :
    Outcome.Related (Paired left right envs) D (Exec.store r m) (Exec.store s n) := by
  cases results with
  | ok next => exact .done ⟨next, h.output, h.left, h.right⟩
  | error causes => exact .failed causes h

theorem lookup_related {a b : Token} (position : a.position = b.position)
    (results : ResultsRelated Eq D (m.env.lookup a.text a.position left)
      (n.env.lookup b.text a.position right)) :
    Outcome.Related (Paired left right envs) D (Exec.lookup a m) (Exec.lookup b n) := by
  simp only [Exec.lookup, ← position, h.left, h.right]
  generalize m.env.lookup a.text a.position left = r, n.env.lookup b.text a.position right = s at results
  cases results with
  | ok same => exact same ▸ .done h
  | error causes => exact .failed causes h

end Machine.Paired

namespace Correspondence

variable (c : Correspondence)

/-- The tokens are equal but for names, which correspond. -/
structure Tokens (a b : Token) : Prop where
  kind : a.kind = b.kind
  position : a.position = b.position
  text : a.kind ≠ .name → a.text = b.text
  name : a.kind = .name → c.names a.text b.text

/-- The scopes correspond, and the same has been printed. -/
def machines (depth : Nat) : Machine → Machine → Prop := Machine.Paired c.left c.right (c.envs depth)

/-- What corresponds at every single operation corresponds in whole runs. -/
def simulation : Simulation where
  tokens := c.Tokens
  machines := c.machines
  causes := c.causes
  kind_eq tokens := tokens.kind
  plain_eq tokens spelled := by
    rw [tokens.text (TokenKind.ne_of_isSpelled spelled rfl)]
  literal_eq tokens literal := by
    refine tokens.text ?_
    rcases literal with number | string
    · simp [number]
    · simp [string]
  remainder tokens _ _ := tokens.position ▸ c.causes_self _
  lookup tokens named := fun _ _ _ related =>
    related.lookup_related tokens.position (c.lookup _ (tokens.name named) related.envs)
  declare {a b} v tokens named := by
    intro depth m n related
    simp only [Exec.declare, ← tokens.position]
    exact related.store_related (c.declare v a.position (tokens.name named) related.envs)
  assign {a b} v tokens named := by
    intro depth m n related
    simp only [Exec.assign, ← tokens.position, related.left, related.right]
    exact related.store_related (c.assign v a.position (tokens.name named) related.envs)
  print text := fun _ _ _ related =>
    .done ⟨related.envs, congrArg (· ++ text ++ "\n") related.output, related.left, related.right⟩
  push related := related.withEnv (c.push related.envs)
  pop related := related.withEnv (c.pop related.envs)

/-- A phrase runs alike on corresponding stacks, if its names correspond to themselves. -/
theorem exec_simulates (fuel : Nat) {p : Grammar.Phrase} {t : Tree} (derived : Grammar.Derives p t)
    (names : ∀ a ∈ t.leaves, a.kind = .name → c.names a.text a.text) :
    Exec.Simulates c.machines c.causes (Eval.exec fuel t) (Eval.exec fuel t) := by
  have alike : Tree.Alike c.Tokens t t :=
    Tree.alike_self fun a mem => ⟨rfl, rfl, fun _ => rfl, names a mem⟩
  exact c.simulation.exec_simulates fuel derived alike

end Correspondence

section SameState

/-- The scopes are equal and the same has been printed.  What has been traced may differ, and so may the order
of the names. -/
def Machine.SameState (m n : Machine) : Prop := m.env = n.env ∧ m.output = n.output

variable {left right : NameOrder}

theorem Machine.Paired.sameState {m n : Machine} (h : Machine.Paired left right Eq m n) :
    m.SameState n := ⟨h.envs, h.output⟩

theorem Machine.SameState.paired {m n : Machine} (same : m.SameState n) :
    Machine.Paired m.order n.order Eq m n := ⟨same.1, same.2, rfl, rfl⟩

/-- Equal stacks, whose scopes may give their names in different orders. -/
def Correspondence.equal (left right : NameOrder) : Correspondence where
  left := left
  right := right
  names := Eq
  envs _ := Eq
  causes := Diagnostic.Reordered left right
  causes_self := .same
  lookup := by
    rintro name _ depth env _ p rfl rfl
    exact lookup_related (respectsPlaces_reordered left right) rfl env name
  declare := by
    rintro name _ depth env _ v p rfl rfl
    exact declare_related (respectsPlaces_reordered left right) rfl env name v
  assign := by
    rintro name _ depth env _ v p rfl rfl
    exact assign_related (respectsPlaces_reordered left right) rfl env name v
  push same := congrArg Env.push same
  pop same := congrArg Env.pop same

/-- From machines with the same scopes, which give their names in these orders, the two actions do the
same. -/
abbrev Exec.Same {α : Type} (left right : NameOrder) (x y : Exec α) : Prop :=
  Exec.Simulates (fun _ => Machine.Paired left right Eq) (Diagnostic.Reordered left right) x y

theorem Exec.Same.inScope {α : Type} {x y : Exec α} (h : Exec.Same left right x y) :
    Exec.Same left right (Exec.inScope x) (Exec.inScope y) :=
  (Correspondence.equal left right).simulation.inScope_simulates h

/-- What a phrase does is decided neither by the trace nor by the order of the names. -/
theorem exec_same (left right : NameOrder) (fuel : Nat) {p : Grammar.Phrase} {t : Tree}
    (derived : Grammar.Derives p t) : Exec.Same left right (Eval.exec fuel t) (Eval.exec fuel t) :=
  (Correspondence.equal left right).exec_simulates fuel derived fun _ _ _ => rfl

/-- What the tree does is said by actions, one for each fuel.  The tree needs some fuel more than they
do. -/
structure Eval.RunsAs (extra : Nat) (t : Tree) (x : Nat → Exec Flow) : Prop where
  above (fuel : Nat) : Exec.Approximates (Eval.exec (fuel + extra) t) (x (fuel + extra))
  below (fuel : Nat) : Exec.Approximates (x fuel) (Eval.exec (fuel + extra) t)

theorem Eval.RunsAs.found {extra : Nat} {t : Tree} {x : Nat → Exec Flow} (h : Eval.RunsAs extra t x)
    {fuel : Nat} {m : Machine} (answered : Eval.exec fuel t m ≠ .outOfFuel) :
    x (fuel + extra) m = Eval.exec fuel t m := by
  have more : Eval.exec (fuel + extra) t m = Eval.exec fuel t m :=
    Eval.exec_of_le (Nat.le_add_right fuel extra) answered
  rw [h.above fuel m (more ▸ answered), more]

/-- Trees end alike if they run as actions that do related things for each fuel. -/
theorem endAlike_of_runsAs {M : Machine → Machine → Prop} {D : Diagnostic → Diagnostic → Prop}
    {extra extra' : Nat} {t u : Tree} {x y : Nat → Exec Flow} {m n : Machine}
    (runs : Eval.RunsAs extra t x) (runs' : Eval.RunsAs extra' u y)
    (related : ∀ fuel, Outcome.Related M D (x fuel m) (y fuel n)) :
    EndAlike M D (fun fuel => Eval.exec fuel t m) (fun fuel => Eval.exec fuel u n) := by
  refine endAlike_of_answers (fun le => Eval.exec_of_le le) (fun fuel answered => ?_)
    fun fuel answered => ?_
  · have run := runs.found answered ▸ related (fuel + extra)
    have last := runs'.below (fuel + extra) n fun out => answered (run.outOfFuel_iff.2 out)
    exact ⟨fuel + extra + extra', last ▸ run⟩
  · have run := runs'.found answered ▸ related (fuel + extra')
    have answered' : x (fuel + extra') m ≠ .outOfFuel := fun out => answered (run.outOfFuel_iff.1 out)
    have last := runs.below (fuel + extra') m answered'
    exact ⟨fuel + extra' + extra, last ▸ answered'⟩

/-- Trees that run as actions that do the same end alike up to the hint.  If the names are given in one order
by both, which is decided by the single scopes, the hint is the same, too. -/
theorem endAlike_of_same {extra extra' : Nat} {t u : Tree} {x y : Nat → Exec Flow}
    (runs : Eval.RunsAs extra t x) (runs' : Eval.RunsAs extra' u y) {m n : Machine}
    (same : ∀ fuel, Exec.Same m.order n.order (x fuel) (y fuel)) (state : m.SameState n) :
    EndAlike Machine.SameState Diagnostic.SameButHint (fun fuel => Eval.exec fuel t m)
        (fun fuel => Eval.exec fuel u n) ∧
      (m.order = n.order → m.order.IsLocal →
        EndAlike Machine.SameState Eq (fun fuel => Eval.exec fuel t m) (fun fuel => Eval.exec fuel u n)) := by
  have alike := endAlike_of_runsAs runs runs' fun fuel => same fuel 0 m n state.paired
  refine ⟨alike.mono Machine.Paired.sameState Diagnostic.Reordered.sameButHint, fun orders fixed => ?_⟩
  rw [← orders] at alike
  exact alike.mono Machine.Paired.sameState fun causes => causes.eq fixed

end SameState

end EmojiLang
