import EmojiLang.Proofs.Scope.Frame
import Mathlib.Logic.Equiv.Basic

/-!
# Names can be chosen freely

A name is a key and nothing else.  It is compared with other names only, and all that matters of the
comparison is whether the two are equal.  If the names of a program and those that the scopes bind are
replaced by an injective function, the run stays the same up to that replacement, even where a name becomes
the spelling of a keyword.

**Definitions.**
* `Token.rename`, `Tree.rename`, `Scope.rename` and `Env.rename`: every name is replaced by its image.
* `Machine.Renamed`: the scopes of the second machine are the renamed ones of the first.
* `Diagnostic.SameCause`: the diagnostics report one kind of failure at one place.

**Results.**
* `Env.lookup_rename`, `Env.declare_rename` and `Env.assign_rename`: each operation on scopes does the same
  to renamed ones.
* `Correspondence.renamed`: renamed stacks correspond.
* `endAlike_rename`: a program that has been read and its renamed form end alike.
-/

namespace EmojiLang

/-- A name is replaced by its image, every other token is kept. -/
def Token.rename (r : String → String) (t : Token) : Token :=
  if t.kind = .name then { t with text := r t.text } else t

/-- All names in the tree are replaced by their images. -/
def Tree.rename (r : String → String) (t : Tree) : Tree := t.mapTokens (Token.rename r)

/-- The bindings under the images of their names. -/
def Scope.rename (r : String → String) (s : Scope) : Scope :=
  s.map fun binding => (r binding.1, binding.2)

/-- The stack of the renamed scopes. -/
def Env.rename (r : String → String) (env : Env) : Env := env.map (Scope.rename r)

theorem Scope.rename_cons (r : String → String) (key : String) (v : Value) (s : Scope) :
    Scope.rename r ((key, v) :: s) = (r key, v) :: Scope.rename r s := rfl

theorem Env.rename_cons (r : String → String) (s : Scope) (outer : Env) :
    Env.rename r (s :: outer) = s.rename r :: Env.rename r outer := rfl

/-- The diagnostics are of one kind and about one place. -/
structure Diagnostic.SameCause (d e : Diagnostic) : Prop where
  kind : d.kind = e.kind
  location : d.location = e.location

theorem Diagnostic.SameCause.refl (d : Diagnostic) : d.SameCause d := ⟨rfl, rfl⟩

/-- Neither the kind nor the place depends on the name or on what is visible. -/
theorem Diagnostic.undeclared_sameCause (name name' : String) (p : Position)
    (visible visible' : List String) :
    (Diagnostic.undeclared name p visible).SameCause (.undeclared name' p visible') where
  kind := by rw [undeclared_kind, undeclared_kind]
  location := by rw [undeclared_location, undeclared_location]

section Operations

variable {r : String → String} (inj : Function.Injective r)
include inj

namespace Scope

theorem get?_rename (s : Scope) (name : String) : get? (s.rename r) (r name) = get? s name := by
  induction s with
  | nil => rfl
  | cons binding s ih =>
      obtain ⟨key, w⟩ := binding
      simp only [Scope.rename_cons, get?, inj.eq_iff, ih]

theorem holds_rename (s : Scope) (name : String) : holds (s.rename r) (r name) = holds s name := by
  rw [holds, holds, get?_rename inj]

omit inj in
theorem rename_bind (s : Scope) (name : String) (v : Value) :
    (s.bind name v).rename r = (s.rename r).bind (r name) v := by
  simp [Scope.rename, Scope.bind]

theorem rename_update (s : Scope) (name : String) (v : Value) :
    (update name v s).rename r = update (r name) v (s.rename r) := by
  induction s with
  | nil => rfl
  | cons binding s ih =>
      obtain ⟨key, w⟩ := binding
      by_cases here : name = key
      · simp [update, Scope.rename_cons, here]
      · have apart : r name ≠ r key := fun same => here (inj same)
        simp only [update, here, apart, if_false, Scope.rename_cons, ih]

end Scope

namespace Env

theorem get?_rename (env : Env) (name : String) : (env.rename r).get? (r name) = env.get? name := by
  induction env with
  | nil => rfl
  | cons s outer ih =>
      rw [Env.rename_cons, get?_cons, get?_cons, Scope.get?_rename inj, ih]

theorem lookup_rename (env : Env) (name : String) (p : Position) (left right : NameOrder) :
    ResultsRelated Eq Diagnostic.SameCause (env.lookup name p left)
      ((env.rename r).lookup (r name) p right) := by
  rw [Env.lookup, Env.lookup, get?_rename inj]
  cases env.get? name with
  | some v => exact .ok rfl
  | none => exact .error (Diagnostic.undeclared_sameCause ..)

theorem declare_rename (env : Env) (name : String) (v : Value) (p : Position) :
    ResultsRelated (fun after after' => after' = after.rename r) Diagnostic.SameCause
      (env.declare name v p) ((env.rename r).declare (r name) v p) := by
  cases env with
  | nil => exact .ok rfl
  | cons s outer =>
      rw [Env.rename_cons, Env.declare, Env.declare, Scope.holds_rename inj]
      cases s.holds name with
      | true => exact .error ⟨rfl, rfl⟩
      | false =>
          exact .ok (by rw [Env.rename_cons, Scope.rename_bind])

theorem assign?_rename (env : Env) (name : String) (v : Value) :
    assign? (r name) v (env.rename r) = (assign? name v env).map (Env.rename r) := by
  induction env with
  | nil => rfl
  | cons s outer ih =>
      rw [Env.rename_cons, assign?, assign?, Scope.holds_rename inj]
      cases s.holds name with
      | true => simp [Env.rename_cons, Scope.rename_update inj]
      | false => simp [Env.rename_cons, ih, Function.comp_def]

theorem assign_rename (env : Env) (name : String) (v : Value) (p : Position) (left right : NameOrder) :
    ResultsRelated (fun after after' => after' = after.rename r) Diagnostic.SameCause
      (env.assign name v p left) ((env.rename r).assign (r name) v p right) := by
  rw [Env.assign, Env.assign, assign?_rename inj]
  cases assign? name v env with
  | some after => exact .ok rfl
  | none => exact .error (Diagnostic.undeclared_sameCause ..)

end Env

/-- A stack corresponds to its renamed form. -/
def Correspondence.renamed (left right : NameOrder) : Correspondence where
  left := left
  right := right
  names a b := b = r a
  envs _ env env' := env' = env.rename r
  causes := Diagnostic.SameCause
  causes_self := Diagnostic.SameCause.refl
  lookup := by
    rintro name _ depth env _ p rfl rfl
    exact env.lookup_rename inj name p left right
  declare := by
    rintro name _ depth env _ v p rfl rfl
    exact env.declare_rename inj name v p
  assign := by
    rintro name _ depth env _ v p rfl rfl
    exact env.assign_rename inj name v p left right
  push := by
    rintro depth env _ rfl
    rfl
  pop := by
    rintro depth env _ rfl
    exact List.map_tail.symm

/-- A token corresponds to its renamed form. -/
theorem Correspondence.renamed_tokens (left right : NameOrder) (t : Token) :
    (Correspondence.renamed inj left right).Tokens t (t.rename r) := by
  unfold Token.rename
  split
  · next named => exact ⟨rfl, rfl, fun other => absurd named other, fun _ => rfl⟩
  · next other => exact ⟨rfl, rfl, fun _ => rfl, fun named => absurd named other⟩

end Operations

section Programs

variable {r : String → String}

/-- The second machine has the renamed scopes of the first one, and the same has been printed. -/
def Machine.Renamed (r : String → String) (m n : Machine) : Prop :=
  n.env = m.env.rename r ∧ m.output = n.output

section Fuel

variable (inj : Function.Injective r) {p : Grammar.Phrase} {t : Tree}
  (derived : Grammar.Derives p t) (fuel : Nat) {m n : Machine} (renamed : m.Renamed r n)
include inj derived

/-- A phrase and its renamed form run alike on renamed scopes. -/
theorem exec_rename (left right : NameOrder) :
    (Correspondence.renamed inj left right).simulation.Simulates (Eval.exec fuel t)
      (Eval.exec fuel (t.rename r)) := by
  have alike := Tree.alike_mapTokens (Correspondence.renamed_tokens inj left right) t
  exact (Correspondence.renamed inj left right).simulation.exec_simulates fuel derived alike

include renamed

theorem continueWith_rename :
    Outcome.Related (Machine.Renamed r) Diagnostic.SameCause (Machine.continueWith fuel t m)
      (Machine.continueWith fuel (t.rename r) n) := by
  have values := (exec_rename inj derived fuel m.order n.order).bind fun flow => .pure flow.value
  -- the outermost scope is made on both sides or on neither
  have empty : n.env.isEmpty = m.env.isEmpty := renamed.1 ▸ List.isEmpty_map
  have start : Machine.Paired m.order n.order (fun env env' => env' = env.rename r)
      { m with env := if m.env.isEmpty then m.env.push else m.env }
      { n with env := if n.env.isEmpty then n.env.push else n.env } := by
    refine ⟨?_, renamed.2, rfl, rfl⟩
    rw [empty]
    cases m.env.isEmpty with
    | true => exact congrArg Env.push renamed.1
    | false => exact renamed.1
  exact (values 0 _ _ start).mono (fun paired => ⟨paired.envs, paired.output⟩) id

theorem startWith_rename :
    Outcome.Related (Machine.Renamed r) Diagnostic.SameCause (Machine.startWith fuel t m)
      (Machine.startWith fuel (t.rename r) n) := by
  have runs := (exec_rename inj derived fuel m.order n.order).bind fun _ => Exec.Simulates.pure ()
  have start : Machine.Paired m.order n.order (fun env env' => env' = env.rename r)
      { m with env := Env.empty.push } { n with env := Env.empty.push } :=
    ⟨rfl, renamed.2, rfl, rfl⟩
  exact (runs 0 _ _ start).mono (fun paired => ⟨paired.envs, paired.output⟩) id

end Fuel

/-- A program that has been read comes to an end on any scopes exactly if its renamed form does on the
renamed scopes.  Both then have the same value and have printed the same, or fail in the same way at the same
place, and they leave the same scopes up to the renaming. -/
theorem endAlike_rename (inj : Function.Injective r) {tokens : List Token} {program : Tree}
    (made : Tree.ofTokens tokens = .ok program) {m n : Machine} (renamed : m.Renamed r n) :
    EndAlike (Machine.Renamed r) Diagnostic.SameCause
        (fun fuel => Machine.continueWith fuel program m)
        (fun fuel => Machine.continueWith fuel (program.rename r) n) ∧
      EndAlike (Machine.Renamed r) Diagnostic.SameCause
        (fun fuel => Machine.startWith fuel program m)
        (fun fuel => Machine.startWith fuel (program.rename r) n) := by
  have derived := Grammar.ofTokens_derives made
  constructor
  · exact endAlike_of_related (fun fuel => continueWith_rename inj derived fuel renamed) continueWith_of_le
  · exact endAlike_of_related (fun fuel => startWith_rename inj derived fuel renamed) startWith_of_le

/-- An endless loop that counts a name down and divides by it. -/
def countdown : List Token :=
  [⟨.keyword, "while", ⟨1, 1⟩⟩, ⟨.delimiter, "(", ⟨1, 6⟩⟩, ⟨.boolean, "true", ⟨1, 7⟩⟩, ⟨.delimiter, ")", ⟨1, 11⟩⟩,
    ⟨.delimiter, "\x7b", ⟨1, 13⟩⟩, ⟨.keyword, "print", ⟨2, 3⟩⟩, ⟨.number, "7", ⟨2, 9⟩⟩, ⟨.operator, "%", ⟨2, 11⟩⟩,
    ⟨.name, "left", ⟨2, 13⟩⟩, ⟨.name, "left", ⟨3, 3⟩⟩, ⟨.operator, "=", ⟨3, 8⟩⟩, ⟨.name, "left", ⟨3, 10⟩⟩,
    ⟨.operator, "-", ⟨3, 15⟩⟩, ⟨.number, "1", ⟨3, 17⟩⟩, ⟨.delimiter, "\x7d", ⟨4, 1⟩⟩]

/-- The tree of `countdown`, with any name for the counter. -/
def countdownTree (name : String) : Tree :=
  .node .program
    [.node .whileLoop
      [.atom .boolean ⟨.boolean, "true", ⟨1, 7⟩⟩,
        .node .suite
          [.node .printing
              [.node .product
                [.atom .number ⟨.number, "7", ⟨2, 9⟩⟩, .leaf ⟨.operator, "%", ⟨2, 11⟩⟩,
                  .atom .name ⟨.name, name, ⟨2, 13⟩⟩]],
            .node .assignment
              [.atom .name ⟨.name, name, ⟨3, 3⟩⟩,
                .node .sum
                  [.atom .name ⟨.name, name, ⟨3, 10⟩⟩, .leaf ⟨.operator, "-", ⟨3, 15⟩⟩,
                    .atom .number ⟨.number, "1", ⟨3, 17⟩⟩]]]]]

/-- The counter is given a name that is spelled like the keyword of the loop.  Both runs print the same
and fail at the same sign the next time round. -/
theorem endAlike_rename_countdown :
    Tree.ofTokens countdown = .ok (countdownTree "left") ∧
      (countdownTree "left").rename (Equiv.swap "left" "while") = countdownTree "while" ∧
      ∃ d after d' after',
        Machine.continueWith 9 (countdownTree "left") { env := [[("left", .int 1)]] } = .failed d after ∧
          Machine.continueWith 9 (countdownTree "while") { env := [[("while", .int 1)]] } =
            .failed d' after' ∧
          d = .remainderByZero ⟨2, 11⟩ ∧ d.SameCause d' ∧
          Machine.Renamed (Equiv.swap "left" "while") after after' ∧ after.output = "0\n" := by
  have made : Tree.ofTokens countdown = .ok (countdownTree "left") := by
    rfl
  have renamed : (countdownTree "left").rename (Equiv.swap "left" "while") = countdownTree "while" := by
    rfl
  have fails : Machine.continueWith 9 (countdownTree "left") { env := [[("left", .int 1)]] } =
      .failed (.remainderByZero ⟨2, 11⟩) { env := [[("left", .int 0)]], output := "0\n" } := by
    rfl
  have fails' : Machine.continueWith 9 (countdownTree "while") { env := [[("while", .int 1)]] } =
      .failed (.remainderByZero ⟨2, 11⟩) { env := [[("while", .int 0)]], output := "0\n" } := by
    rfl
  have machines : Machine.Renamed (Equiv.swap "left" "while") { env := [[("left", .int 1)]] }
      { env := [[("while", .int 1)]] } :=
    ⟨rfl, rfl⟩
  obtain ⟨alike, -⟩ := endAlike_rename (Equiv.swap "left" "while").injective made machines
  rw [renamed] at alike
  have related := alike.2 9 9 (by simp [fails]) (by simp [fails'])
  simp only [fails, fails'] at related
  cases related with
  | failed cause machines =>
      exact ⟨made, renamed, _, _, _, _, fails, fails', rfl, cause, machines, rfl⟩

end Programs

end EmojiLang
