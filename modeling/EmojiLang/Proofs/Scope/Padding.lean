import EmojiLang.Proofs.Scope.Correspondence

/-!
# Scopes that bind nothing

Scopes without bindings somewhere in the stack are not noticed, as long as nothing is declared in them.  So a
statement may be run in a scope of its own, unless it declares names in the scope around it.

**Definitions.**
* `Env.Padded count depth env env'`: the second stack has `count` scopes that bind nothing below the `depth`
  innermost ones, and is the first stack otherwise.
* `Machine.Padded left right count depth m n`: so are the scopes of the machines, which give their names in the
  orders `left` and `right`.

**Results.**
* `Env.Padded.lookup`, `Env.Padded.assign` and `Env.Padded.declare`: the operations on scopes pass such scopes
  over; a declaration does unless one of them is the innermost scope.
* `Correspondence.padded`: a stack corresponds to the padded one.
* `Eval.expression_unmoved` and `Eval.assignment_unmoved`: what may be run directly in such a scope.
* `Exec.SameAbove.inScope_right`: what may be run directly in such a scope may be run in a scope of its own.
-/

namespace EmojiLang

namespace Env

/-- Below its `depth` innermost scopes the second stack has `count` more, which bind nothing. -/
def Padded (count depth : Nat) (env env' : Env) : Prop :=
  ∃ inner outer, inner.length = depth ∧ env = inner ++ outer ∧
    env' = inner ++ (List.replicate count [] ++ outer)

variable {name : String} {inner outer : Env} {v : Value} {p : Position}

theorem get?_append : get? (inner ++ outer) name = (inner.get? name).or (outer.get? name) :=
  List.findSome?_append

theorem get?_replicate (count : Nat) : get? (List.replicate count []) name = none := by
  induction count with
  | zero => rfl
  | succ count ih => exact ih

theorem filled_replicate (count : Nat) : filled (List.replicate count [] ++ outer) = filled outer := by
  induction count with
  | zero => rfl
  | succ count ih => exact ih

/-- The binding is changed in the inner scopes, if it is there. -/
theorem assign?_append :
    assign? name v (inner ++ outer) =
      ((assign? name v inner).map (· ++ outer)).or ((assign? name v outer).map (inner ++ ·)) := by
  induction inner with
  | nil =>
      rw [List.nil_append, assign?, Option.map_none, Option.none_or]
      exact Option.map_id'.symm
  | cons s inner ih =>
      rw [List.cons_append, assign?, assign?, ih]
      cases s.holds name with
      | true => rfl
      | false => cases assign? name v inner <;> cases assign? name v outer <;> rfl

theorem assign?_replicate (count : Nat) :
    assign? name v (List.replicate count [] ++ outer) =
      (assign? name v outer).map (List.replicate count [] ++ ·) := by
  induction count with
  | zero => exact Option.map_id'.symm
  | succ count ih =>
      rw [List.replicate_succ, List.cons_append, assign?, ih, Option.map_map]
      rfl

namespace Padded

variable {count depth : Nat} {env env' : Env} (h : Padded count depth env env')
include h

theorem get?_eq (name : String) : env'.get? name = env.get? name := by
  obtain ⟨inner, outer, -, rfl, rfl⟩ := h
  rw [get?_append, get?_append, get?_append, get?_replicate, Option.none_or]

theorem filled_eq : env'.filled = env.filled := by
  obtain ⟨inner, outer, -, rfl, rfl⟩ := h
  have below : filled (List.replicate count [] ++ outer) = filled outer := filled_replicate count
  simp only [filled, List.filter_append] at below ⊢
  rw [below]

theorem push : Padded count (depth + 1) env.push env'.push := by
  obtain ⟨inner, outer, deep, rfl, rfl⟩ := h
  exact ⟨[] :: inner, outer, by simp [deep], rfl, rfl⟩

omit h in
theorem pop (h : Padded count (depth + 1) env env') : Padded count depth env.pop env'.pop := by
  obtain ⟨inner, outer, deep, rfl, rfl⟩ := h
  obtain ⟨s, rest, rfl⟩ := List.exists_cons_of_length_eq_add_one deep
  exact ⟨rest, outer, Nat.succ.inj deep, rfl, rfl⟩

variable (left right : NameOrder)

/-- The reports on a name that is not bound differ with the orders only. -/
theorem undeclared (absent : ¬ env.Binds name) :
    Diagnostic.Reordered left right (env.undeclared name p left) (env'.undeclared name p right) :=
  .sought p h.filled_eq.symm absent

theorem lookup :
    ResultsRelated Eq (Diagnostic.Reordered left right) (env.lookup name p left)
      (env'.lookup name p right) := by
  rw [Env.lookup, Env.lookup, h.get?_eq]
  cases found : env.get? name with
  | some v => exact .ok rfl
  | none => exact .error (h.undeclared left right (get?_eq_none_iff.1 found))

theorem assign? (v : Value) :
    Option.Rel (Padded count depth) (Env.assign? name v env) (Env.assign? name v env') := by
  obtain ⟨inner, outer, deep, rfl, rfl⟩ := h
  rw [assign?_append, assign?_append, assign?_replicate]
  cases changed : Env.assign? name v inner with
  | some after => exact .some ⟨after, outer, (length_assign? changed).trans deep, rfl, rfl⟩
  | none =>
      cases Env.assign? name v outer with
      | none => exact .none
      | some after => exact .some ⟨inner, after, deep, rfl, rfl⟩

theorem assign (v : Value) :
    ResultsRelated (Padded count depth) (Diagnostic.Reordered left right) (env.assign name v p left)
      (env'.assign name v p right) := by
  have changed : Option.Rel (Padded count depth) (Env.assign? name v env) (Env.assign? name v env') :=
    h.assign? v
  unfold Env.assign
  cases found : Env.assign? name v env with
  | some after =>
      rw [found] at changed
      generalize Env.assign? name v env' = other at changed
      cases changed with
      | some padded => exact .ok padded
  | none =>
      rw [found] at changed
      generalize Env.assign? name v env' = other at changed
      cases changed with
      | none => exact .error (h.undeclared left right (assign?_eq_none_iff.1 found))

omit h in
theorem declare (h : Padded count (depth + 1) env env') (v : Value) :
    ResultsRelated (Padded count (depth + 1)) (Diagnostic.Reordered left right) (env.declare name v p)
      (env'.declare name v p) := by
  obtain ⟨inner, outer, deep, rfl, rfl⟩ := h
  obtain ⟨s, rest, rfl⟩ := List.exists_cons_of_length_eq_add_one deep
  simp only [Env.declare, List.cons_append]
  cases s.holds name with
  | true => exact .error (.same _)
  | false => exact .ok ⟨s.bind name v :: rest, outer, deep, rfl, rfl⟩

end Padded

end Env

/-- Stacks that differ by scopes that bind nothing, somewhere below the innermost scope. -/
def Correspondence.padded (left right : NameOrder) (count : Nat) : Correspondence where
  left := left
  right := right
  names := Eq
  envs depth := Env.Padded count (depth + 1)
  causes := Diagnostic.Reordered left right
  causes_self := .same
  lookup := by
    rintro name _ depth env env' p rfl envs
    exact envs.lookup left right
  declare := by
    rintro name _ depth env env' v p rfl envs
    exact envs.declare left right v
  assign := by
    rintro name _ depth env env' v p rfl envs
    exact envs.assign left right v
  push envs := envs.push
  pop envs := envs.pop

/-- The second machine has `count` scopes that bind nothing below the `depth` innermost scopes. -/
def Machine.Padded (left right : NameOrder) (count depth : Nat) : Machine → Machine → Prop :=
  Machine.Paired left right (Env.Padded count depth)

namespace Exec

open Machine (Padded)

variable {α : Type} {left right : NameOrder} {count : Nat}

/-- On top of `count` scopes more, which bind nothing, the second action does the same. -/
abbrev SameAbove (left right : NameOrder) (count : Nat) (x y : Exec α) : Prop :=
  Simulates (fun _ => Padded left right count 0) (Diagnostic.Reordered left right) x y

/-- An action does the same beside itself, when there are `count` scopes more, which bind nothing, below
scopes that have been entered. -/
abbrev Unmoved (left right : NameOrder) (count : Nat) (x : Exec α) : Prop :=
  Simulates (Padded left right count) (Diagnostic.Reordered left right) x x

theorem Unmoved.sameAbove {x : Exec α} (h : Unmoved left right count x) :
    SameAbove left right count x x := fun _ => h 0

/-- A scope that is entered, and left again, has the scopes that bind nothing below it. -/
theorem inScope_unmoved {x : Exec α}
    (h : Simulates (fun depth => Padded left right count (depth + 1)) (Diagnostic.Reordered left right)
      x x) :
    Unmoved left right count (inScope x) :=
  .inScope (fun padded => padded.withEnv padded.envs.push) (fun padded => padded.withEnv padded.envs.pop) h

/-- What may be done on top of one scope more may be done in a scope of its own. -/
theorem SameAbove.inScope_right {x y : Exec α} (h : SameAbove left right (count + 1) x y) :
    SameAbove left right count x (inScope y) := by
  have pushed {m n : Machine} (padded : Padded left right count 0 m n) :
      Padded left right (count + 1) 0 m { n with env := n.env.push } := by
    obtain ⟨inner, outer, deep, same, same'⟩ := padded.envs
    rw [List.length_eq_zero_iff.1 deep] at same same'
    exact ⟨⟨[], outer, rfl, same, congrArg ([] :: ·) same'⟩, padded.output, padded.left, padded.right⟩
  have popped {m n : Machine} (padded : Padded left right (count + 1) 0 m n) :
      Padded left right count 0 m { n with env := n.env.pop } := by
    obtain ⟨inner, outer, deep, same, same'⟩ := padded.envs
    rw [List.length_eq_zero_iff.1 deep] at same same'
    exact ⟨⟨[], outer, rfl, same, congrArg List.tail same'⟩, padded.output, padded.left, padded.right⟩
  intro depth m n padded
  have inner := h depth m { n with env := n.env.push } (pushed padded)
  simp only [Exec.inScope]
  generalize x m = o, y { n with env := n.env.push } = o' at inner
  cases inner with
  | done next => exact .done (popped next)
  | failed causes next => exact .failed causes (popped next)
  | outOfFuel => exact .outOfFuel

/-- With no scope more that is to do the same. -/
theorem SameAbove.same {x y : Exec α} (h : SameAbove left right 0 x y) : Same left right x y := by
  intro depth m n paired
  have related := h depth m n ⟨⟨[], m.env, rfl, rfl, paired.envs.symm⟩, paired.output, paired.left, paired.right⟩
  refine related.mono (fun padded => ?_) id
  obtain ⟨inner, outer, -, same, same'⟩ := padded.envs
  exact ⟨same.trans same'.symm, padded.output, padded.left, padded.right⟩

end Exec

namespace Eval

open Machine (Padded)
open Exec (Simulates Unmoved)
open Grammar (Derives Phrase Branch Guards branched closing)

variable {left right : NameOrder} {count : Nat}

/-- A phrase is not disturbed by scopes that bind nothing below the innermost scope. -/
theorem exec_padded (left right : NameOrder) (count fuel : Nat) {p : Phrase} {t : Tree}
    (derived : Derives p t) :
    Simulates (fun depth => Padded left right count (depth + 1)) (Diagnostic.Reordered left right)
      (exec fuel t) (exec fuel t) :=
  (Correspondence.padded left right count).exec_simulates fuel derived fun _ _ _ => rfl

theorem lookup_unmoved (name : Token) : Unmoved left right count (Exec.lookup name) :=
  fun _ _ _ padded => padded.lookup_related rfl (padded.envs.lookup left right)

theorem assign_unmoved (name : Token) (v : Value) : Unmoved left right count (Exec.assign name v) := by
  intro depth m n padded
  simp only [Exec.assign, padded.left, padded.right]
  exact padded.store_related (padded.envs.assign left right v)

theorem applyBinary_unmoved (sign : Token) (v w : Value) : Unmoved left right count (applyBinary sign v w) := by
  unfold applyBinary
  split
  · exact .pure _
  · split
    · exact .pure _
    · exact .fail (.same _)

theorem value_unmoved {run : Tree → Exec Flow} {t : Tree} (h : Unmoved left right count (run t)) :
    Unmoved left right count (value run t) :=
  h.bind fun _ => .pure _

theorem fold_unmoved {run : Tree → Exec Flow} {pairs : List (Token × Tree)}
    (h : ∀ p ∈ pairs, Unmoved left right count (run p.2)) (acc : Value) :
    Unmoved left right count (fold run acc pairs) := by
  induction pairs generalizing acc with
  | nil => exact .pure _
  | cons pair pairs ih =>
      have rest := ih fun p hp => h p (List.mem_cons_of_mem _ hp)
      exact (value_unmoved (h pair (by simp))).bind fun v =>
        (applyBinary_unmoved _ _ _).bind fun acc => rest acc

/-- An expression declares nothing, so it may be evaluated in a scope that binds nothing. -/
theorem expression_unmoved (fuel : Nat) {t : Tree} (ht : Derives .expression t) :
    Unmoved left right count (exec fuel t) := by
  induction fuel generalizing t with
  | zero => exact .giveUp
  | succ fuel ih =>
      rw [exec]
      cases ht with
      | @atom kind token own =>
          rcases Grammar.operandKind_cases own with ⟨-, rfl⟩ | ⟨-, rfl⟩ | ⟨-, rfl⟩ | ⟨-, rfl⟩
          · exact .pure _
          · exact .pure _
          · exact (lookup_unmoved token).bind fun _ => .pure _
          · exact .pure _
      | negation sign operand =>
          rw [visit_negation fuel _ _ operand.isNode]
          exact (value_unmoved (ih operand)).bind fun _ => .pure _
      | chain own _ _ head links =>
          rw [visit_chain fuel _ own head.isNode fun p hp => (links p hp).isNode]
          have folds := fold_unmoved fun p hp => ih (links p hp)
          exact (value_unmoved (ih head)).bind fun v => (folds v).bind fun _ => .pure _

theorem assignment_unmoved (fuel : Nat) {t : Tree} (ht : Derives .assignment t) :
    Unmoved left right count (exec fuel t) := by
  cases fuel with
  | zero => exact .giveUp
  | succ fuel =>
      cases ht with
      | assignment named operand =>
          rw [exec, visit_assignment fuel _ _ operand.isNode]
          exact (value_unmoved (expression_unmoved fuel operand)).bind fun v =>
            (assign_unmoved _ v).bind fun _ => .pure _

end Eval

end EmojiLang
