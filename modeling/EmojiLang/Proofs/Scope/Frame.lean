import EmojiLang.Proofs.Scope.Correspondence
import EmojiLang.Proofs.Scope.Discipline
import Mathlib.Data.List.Forall2

/-!
# Names that a program does not mention

A program reads and writes only the names that occur in it.  On two stacks of scopes that agree on these
names it does the same, whatever else they bind; only the remarks on a name without a binding may differ,
since they offer a name that is there.  And the bindings of all other names stay as they are, each in its
scope.

**Definitions.**
* `Tree.names t`: the names that occur in `t`.
* `Scope.AgreeOn` and `Env.AgreeOn`: two scopes, or two stacks scope by scope, bind certain names to the
  same values or not at all.
* `Scope.others names s`: the bindings in `s` of all other names.
* `Diagnostic.SameFault`: the diagnostics differ at most in what they offer.

**Results.**
* `Correspondence.agreeing`: stacks that agree correspond.
* `Correspondence.framed`: the bindings of the other names are left alone by each operation.
* `continueWith_frame`: both for a program on top of the scopes that are there.
-/

namespace EmojiLang

/-- The names that occur in a tree. -/
def Tree.names (t : Tree) : List String :=
  (t.leaves.filter fun token => token.kind = .name).map Token.text

theorem Tree.text_mem_names {t : Tree} {token : Token} (mem : token ∈ t.leaves)
    (named : token.kind = .name) : token.text ∈ t.names :=
  List.mem_map.2 ⟨token, List.mem_filter.2 ⟨mem, by simpa using named⟩, rfl⟩

/-- The diagnostics are equal but for the suggestion and the help. -/
def Diagnostic.SameFault (d e : Diagnostic) : Prop :=
  e = { d with suggestion := e.suggestion, help := e.help }

theorem Diagnostic.SameFault.refl (d : Diagnostic) : d.SameFault d := rfl

/-- What is visible decides about the suggestion and the help only. -/
theorem Diagnostic.undeclared_sameFault (name : String) (p : Position)
    (visible visible' : List String) :
    (Diagnostic.undeclared name p visible).SameFault (.undeclared name p visible') := by
  unfold undeclared
  cases Text.closest name visible <;> cases Text.closest name visible' <;> rfl

namespace Scope

variable {names : List String} {name : String} {s s' : Scope}

theorem get?_bind (s : Scope) (name other : String) (v : Value) :
    get? (s.bind name v) other = (get? s other).or (if other = name then some v else none) := by
  induction s with
  | nil => rfl
  | cons binding s ih =>
      obtain ⟨key, w⟩ := binding
      have cons : Scope.bind ((key, w) :: s) name v = (key, w) :: Scope.bind s name v := rfl
      by_cases here : other = key
      · simp [cons, get?, here]
      · simp only [cons, get?, here, if_false, ih]

theorem get?_update (s : Scope) (name other : String) (v : Value) :
    get? (update name v s) other =
      if other = name then (get? s name).map fun _ => v else get? s other := by
  induction s with
  | nil => simp [update, get?]
  | cons binding s ih =>
      obtain ⟨key, w⟩ := binding
      by_cases here : name = key
      · by_cases same : other = name
        · simp [update, get?, here, same]
        · simp [update, get?, ← here, same]
      · by_cases found : other = key
        · have apart : key ≠ name := fun same => here same.symm
          simp [update, get?, here, found, apart]
        · simp only [update, get?, here, found, if_false, ih]

/-- The scopes bind each of the names to the same value, or both do not bind it. -/
def AgreeOn (names : List String) (s s' : Scope) : Prop := ∀ name ∈ names, get? s name = get? s' name

theorem AgreeOn.holds_eq (h : AgreeOn names s s') (mem : name ∈ names) :
    holds s' name = holds s name := by
  rw [holds, holds, h name mem]

theorem AgreeOn.bind (h : AgreeOn names s s') (name : String) (v : Value) :
    AgreeOn names (Scope.bind s name v) (Scope.bind s' name v) := by
  intro other mem
  rw [get?_bind, get?_bind, h other mem]

theorem AgreeOn.update (h : AgreeOn names s s') (mem : name ∈ names) (v : Value) :
    AgreeOn names (Scope.update name v s) (Scope.update name v s') := by
  intro other mem'
  rw [get?_update, get?_update, h name mem, h other mem']

/-- The bindings of all other names. -/
def others (names : List String) (s : Scope) : Scope := s.filter fun binding => binding.1 ∉ names

theorem others_bind (mem : name ∈ names) (s : Scope) (v : Value) :
    others names (Scope.bind s name v) = others names s := by
  simp [others, Scope.bind, mem]

theorem others_update (mem : name ∈ names) (s : Scope) (v : Value) :
    others names (Scope.update name v s) = others names s := by
  induction s with
  | nil => rfl
  | cons binding s ih =>
      obtain ⟨key, w⟩ := binding
      by_cases here : name = key
      · simp [Scope.update, others, ← here, mem]
      · simp only [others] at ih
        simp only [Scope.update, others, here, if_false, List.filter_cons, ih]

end Scope

namespace Env

variable {names : List String} {name : String} {env env' : Env}

/-- Scope by scope, the stacks agree on the names. -/
def AgreeOn (names : List String) (env env' : Env) : Prop := List.Forall₂ (Scope.AgreeOn names) env env'

theorem AgreeOn.get?_eq (h : AgreeOn names env env') (mem : name ∈ names) :
    env'.get? name = env.get? name := by
  induction h with
  | nil => rfl
  | cons first rest ih => rw [get?_cons, get?_cons, first name mem, ih]

theorem AgreeOn.lookup (h : AgreeOn names env env') (mem : name ∈ names) (p : Position)
    (left right : NameOrder) :
    ResultsRelated Eq Diagnostic.SameFault (env.lookup name p left) (env'.lookup name p right) := by
  rw [Env.lookup, Env.lookup, h.get?_eq mem]
  cases env.get? name with
  | some v => exact .ok rfl
  | none => exact .error (Diagnostic.undeclared_sameFault ..)

theorem AgreeOn.declare (h : AgreeOn names env env') (mem : name ∈ names) (v : Value) (p : Position) :
    ResultsRelated (AgreeOn names) Diagnostic.SameFault (env.declare name v p)
      (env'.declare name v p) := by
  cases h with
  | nil => exact .ok (.cons (fun _ _ => rfl) .nil)
  | @cons s s' outer outer' first rest =>
      rw [Env.declare, Env.declare, first.holds_eq mem]
      cases s.holds name with
      | true => exact .error rfl
      | false => exact .ok (.cons (first.bind name v) rest)

/-- The same scope of both stacks is changed, or none is. -/
theorem AgreeOn.assign? (h : AgreeOn names env env') (mem : name ∈ names) (v : Value) :
    Option.Rel (AgreeOn names) (Env.assign? name v env) (Env.assign? name v env') := by
  induction h with
  | nil => exact .none
  | @cons s s' outer outer' first rest ih =>
      rw [Env.assign?, Env.assign?, first.holds_eq mem]
      cases s.holds name with
      | true => exact .some (.cons (first.update mem v) rest)
      | false =>
          generalize Env.assign? name v outer = r, Env.assign? name v outer' = r' at ih
          cases ih with
          | none => exact .none
          | some inner => exact .some (.cons first inner)

theorem AgreeOn.assign (h : AgreeOn names env env') (mem : name ∈ names) (v : Value) (p : Position)
    (left right : NameOrder) :
    ResultsRelated (AgreeOn names) Diagnostic.SameFault (env.assign name v p left)
      (env'.assign name v p right) := by
  have changed := h.assign? mem v
  rw [Env.assign, Env.assign]
  generalize Env.assign? name v env = r, Env.assign? name v env' = r' at changed
  cases changed with
  | none => exact .error (Diagnostic.undeclared_sameFault ..)
  | some after => exact .ok after

theorem AgreeOn.pop (h : AgreeOn names env env') : AgreeOn names env.pop env'.pop := by
  cases h with
  | nil => exact .nil
  | cons first rest => exact rest

/-- The bindings of all other names, scope by scope. -/
def others (names : List String) (env : Env) : Env := env.map (Scope.others names)

theorem others_declare (mem : name ∈ names) (nonempty : env ≠ []) {after : Env} {v : Value} {p : Position}
    (h : env.declare name v p = .ok after) : after.others names = env.others names := by
  obtain ⟨s, outer, rfl⟩ := List.exists_cons_of_ne_nil nonempty
  simp only [Env.declare] at h
  split at h
  · cases h
  · injection h with same
    rw [← same, others, others, List.map_cons, List.map_cons, Scope.others_bind mem]

theorem others_assign? (mem : name ∈ names) {after : Env} {v : Value}
    (h : Env.assign? name v env = some after) : after.others names = env.others names := by
  induction env generalizing after with
  | nil => cases h
  | cons s outer ih =>
      rw [Env.assign?] at h
      split at h
      · injection h with same
        rw [← same, others, others, List.map_cons, List.map_cons, Scope.others_update mem]
      · obtain ⟨inner, found, rfl⟩ := Option.map_eq_some_iff.1 h
        simp only [others] at ih
        rw [others, others, List.map_cons, List.map_cons, ih found]

theorem others_assign (mem : name ∈ names) {after : Env} {v : Value} {p : Position} {order : NameOrder}
    (h : env.assign name v p order = .ok after) : after.others names = env.others names := by
  unfold Env.assign at h
  split at h
  · next found =>
      injection h with same
      exact same ▸ others_assign? mem found
  · cases h

end Env

namespace Correspondence

/-- Stacks that agree on the names. -/
def agreeing (left right : NameOrder) (names : List String) : Correspondence where
  left := left
  right := right
  names a b := a = b ∧ a ∈ names
  envs _ := Env.AgreeOn names
  causes := Diagnostic.SameFault
  causes_self := Diagnostic.SameFault.refl
  lookup := by
    rintro name _ depth env env' p ⟨rfl, mem⟩ agree
    exact agree.lookup mem p left right
  declare := by
    rintro name _ depth env env' v p ⟨rfl, mem⟩ agree
    exact agree.declare mem v p
  assign := by
    rintro name _ depth env env' v p ⟨rfl, mem⟩ agree
    exact agree.assign mem v p left right
  push agree := .cons (fun _ _ => rfl) agree
  pop agree := agree.pop

/-- One stack that keeps the bindings `kept` of all other names, below the scopes that have been entered
and that bind no other names. -/
def framed (order : NameOrder) (names : List String) (kept : Env) (nonempty : kept ≠ []) :
    Correspondence where
  left := order
  right := order
  names a b := a = b ∧ a ∈ names
  envs depth env env' := env = env' ∧ env.others names = List.replicate depth [] ++ kept
  causes := Eq
  causes_self := Eq.refl
  lookup := by
    rintro name _ depth env _ p ⟨rfl, -⟩ ⟨rfl, -⟩
    exact lookup_related (respectsPlaces_eq order) rfl env name
  declare := by
    rintro name _ depth env env' v p ⟨rfl, mem⟩ ⟨rfl, frame⟩
    have inside : env ≠ [] := by
      rintro rfl
      exact nonempty (List.append_eq_nil_iff.1 frame.symm).2
    cases declared : env.declare name v p with
    | ok after => exact .ok ⟨rfl, (Env.others_declare mem inside declared).trans frame⟩
    | error d => exact .error rfl
  assign := by
    rintro name _ depth env env' v p ⟨rfl, mem⟩ ⟨rfl, frame⟩
    cases assigned : env.assign name v p order with
    | ok after => exact .ok ⟨rfl, (Env.others_assign mem assigned).trans frame⟩
    | error d => exact .error rfl
  push := by
    rintro depth env _ ⟨rfl, frame⟩
    exact ⟨rfl, congrArg ([] :: ·) frame⟩
  pop := by
    rintro depth env _ ⟨rfl, frame⟩
    refine ⟨rfl, ?_⟩
    have tails := congrArg List.tail frame
    simpa [Env.others, Env.pop, List.map_tail, List.replicate_succ] using tails

end Correspondence

/-- The scopes agree on the names, and the same has been printed. -/
def Machine.AgreeOn (names : List String) (m n : Machine) : Prop :=
  m.env.AgreeOn names n.env ∧ m.output = n.output

/-- What a run that is related to itself leaves is related to itself. -/
theorem Outcome.Related.of_endsIn {α : Type} {M : Machine → Machine → Prop}
    {D : Diagnostic → Diagnostic → Prop} {o : Outcome α} {after : Machine} (h : Outcome.Related M D o o)
    (ends : o.EndsIn after) : M after after := by
  rcases ends with ⟨a, rfl⟩ | ⟨d, rfl⟩
  · cases h with
    | done kept => exact kept
  · cases h with
    | failed _ kept => exact kept

section Programs

theorem continueWith_of_ne_nil {m : Machine} (nonempty : m.env ≠ []) (fuel : Nat) (t : Tree) :
    Machine.continueWith fuel t m = Eval.value (Eval.exec fuel) t m := by
  simp only [Machine.continueWith, List.isEmpty_eq_false_iff.2 nonempty, Bool.false_eq_true, if_false]

variable {p : Grammar.Phrase} {t : Tree} (derived : Grammar.Derives p t) {m : Machine} (nonempty : m.env ≠ [])
include derived nonempty

/-- On stacks that agree on its names a phrase does the same. -/
theorem continueWith_agree {n : Machine} (agree : m.AgreeOn t.names n) (fuel : Nat) :
    Outcome.Related (Machine.AgreeOn t.names) Diagnostic.SameFault (Machine.continueWith fuel t m)
      (Machine.continueWith fuel t n) := by
  have nonempty' : n.env ≠ [] := by
    intro none_left
    have agreed := agree.1
    rw [none_left] at agreed
    exact nonempty (List.forall₂_nil_right_iff.1 agreed)
  have runs := (Correspondence.agreeing m.order n.order t.names).exec_simulates fuel derived
    fun a mem named => ⟨rfl, Tree.text_mem_names mem named⟩
  have values := runs.bind fun flow => .pure flow.value
  rw [continueWith_of_ne_nil nonempty, continueWith_of_ne_nil nonempty']
  exact (values 0 m n ⟨agree.1, agree.2, rfl, rfl⟩).mono (fun paired => ⟨paired.envs, paired.output⟩) id

/-- A phrase leaves the bindings of all names that it does not mention as they are. -/
theorem continueWith_keeps_others {fuel : Nat} {after : Machine}
    (ends : (Machine.continueWith fuel t m).EndsIn after) :
    after.env.others t.names = m.env.others t.names := by
  have kept : m.env.others t.names ≠ [] := by
    simpa [Env.others] using nonempty
  have runs := (Correspondence.framed m.order t.names _ kept).exec_simulates fuel derived
    fun a mem named => ⟨rfl, Tree.text_mem_names mem named⟩
  have values := runs.bind fun flow => .pure flow.value
  have run := values 0 m m ⟨⟨rfl, rfl⟩, rfl, rfl, rfl⟩
  rw [continueWith_of_ne_nil nonempty] at ends
  exact (run.of_endsIn ends).envs.2

end Programs

/-- A program on top of the scopes that are there does the same on stacks that agree on its names, and in
both runs it leaves the bindings of all other names as they are. -/
theorem continueWith_frame {tokens : List Token} {program : Tree}
    (made : Tree.ofTokens tokens = .ok program) {m n : Machine} (deep : 1 ≤ m.env.length)
    (agree : m.AgreeOn program.names n) :
    EndAlike (Machine.AgreeOn program.names) Diagnostic.SameFault
        (fun fuel => Machine.continueWith fuel program m) (fun fuel => Machine.continueWith fuel program n) ∧
      ∀ start ∈ [m, n], ∀ fuel after, (Machine.continueWith fuel program start).EndsIn after →
        after.env.others program.names = start.env.others program.names := by
  have derived := Grammar.ofTokens_derives made
  have nonempty : m.env ≠ [] := List.ne_nil_of_length_pos deep
  have nonempty' : n.env ≠ [] := List.ne_nil_of_length_pos (agree.1.length_eq ▸ deep)
  refine ⟨endAlike_of_related (continueWith_agree derived nonempty agree) continueWith_of_le, ?_⟩
  intro start mem fuel after ends
  refine continueWith_keeps_others derived ?_ ends
  rcases List.mem_pair.1 mem with rfl | rfl
  · exact nonempty
  · exact nonempty'

/-- An assignment, and a misspelled name in a statement behind it. -/
def misspelledTotal : List Token :=
  [⟨.name, "count", ⟨1, 1⟩⟩, ⟨.operator, "=", ⟨1, 7⟩⟩, ⟨.number, "1", ⟨1, 9⟩⟩,
    ⟨.keyword, "print", ⟨2, 1⟩⟩, ⟨.delimiter, "(", ⟨2, 6⟩⟩, ⟨.name, "totl", ⟨2, 7⟩⟩, ⟨.delimiter, ")", ⟨2, 11⟩⟩]

/-- The tree of `misspelledTotal`. -/
def misspelledTotalTree : Tree :=
  .node .program
    [.node .assignment [.atom .name ⟨.name, "count", ⟨1, 1⟩⟩, .atom .number ⟨.number, "1", ⟨1, 9⟩⟩],
      .node .printing [.atom .name ⟨.name, "totl", ⟨2, 7⟩⟩]]

/-- Both runs fail at the misspelled name, and only the first one has another name to offer.  The names
`total` and `limit` keep their values. -/
theorem continueWith_frame_misspelledTotal :
    Tree.ofTokens misspelledTotal = .ok misspelledTotalTree ∧
      ∃ d after d' after',
        Machine.continueWith 4 misspelledTotalTree
            { env := [[("count", .int 5), ("total", .int 0)]] } = .failed d after ∧
          Machine.continueWith 4 misspelledTotalTree
            { env := [[("limit", .int 9), ("count", .int 5)]] } = .failed d' after' ∧
          d.suggestion = some "total" ∧ d'.suggestion = none ∧ d.SameFault d' ∧
          after.AgreeOn misspelledTotalTree.names after' ∧
          after.env.others misspelledTotalTree.names = [[("total", .int 0)]] ∧
          after'.env.others misspelledTotalTree.names = [[("limit", .int 9)]] := by
  have made : Tree.ofTokens misspelledTotal = .ok misspelledTotalTree := by
    rfl
  obtain ⟨d, after, fails, offered⟩ : ∃ d after, Machine.continueWith 4 misspelledTotalTree
      { env := [[("count", .int 5), ("total", .int 0)]] } = .failed d after ∧
        d.suggestion = some "total" :=
    ⟨_, _, rfl, rfl⟩
  obtain ⟨d', after', fails', bare⟩ : ∃ d after, Machine.continueWith 4 misspelledTotalTree
      { env := [[("limit", .int 9), ("count", .int 5)]] } = .failed d after ∧ d.suggestion = none :=
    ⟨_, _, rfl, rfl⟩
  have agree : Env.AgreeOn misspelledTotalTree.names [[("count", .int 5), ("total", .int 0)]]
      [[("limit", .int 9), ("count", .int 5)]] :=
    .cons (by unfold Scope.AgreeOn; decide) .nil
  have machines : Machine.AgreeOn misspelledTotalTree.names { env := [[("count", .int 5), ("total", .int 0)]] }
      { env := [[("limit", .int 9), ("count", .int 5)]] } :=
    ⟨agree, rfl⟩
  obtain ⟨alike, kept⟩ := continueWith_frame made (by decide) machines
  have related := alike.2 4 4 (by simp [fails]) (by simp [fails'])
  simp only [fails, fails'] at related
  cases related with
  | failed fault machines =>
      refine ⟨made, d, after, d', after', fails, fails', offered, bare, fault, machines, ?_, ?_⟩
      · exact kept _ (by simp) 4 after (Or.inr ⟨d, fails⟩)
      · exact kept _ (by simp) 4 after' (Or.inr ⟨d', fails'⟩)

end EmojiLang
