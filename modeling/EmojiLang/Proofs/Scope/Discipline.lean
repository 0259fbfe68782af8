import EmojiLang.Eval.Fuel
import EmojiLang.Proofs.Eval.Phrases
import EmojiLang.Proofs.Grammar.Soundness
import Mathlib.Logic.Relation
import Mathlib.Order.Defs.Unbundled

/-!
# The discipline of scopes

However a run ends, it has left every scope that it has entered.  A tree of any shape can add names to
the innermost scope only; it never takes a name away, and it never touches the names of an outer scope.

**Definitions.**
* `Outcome.EndsIn o m`: the outcome is not out of fuel, and `m` is the machine it leaves.
* `Exec.Keeps R x`: the machine that `x` leaves is related by `R` to the one it was given, whether `x`
  is done or has failed.
* `Env.Grows` and `Env.SameNames`: the names that a run may add to a stack of scopes, and the case that
  it adds none.
* `Machine.Continues`: one program run on top of what others have left behind.

**Results.**
* `inScope_keeps`: whatever grows a stack keeps the names of all scopes if it is run in a scope of its
  own.
* `exec_keeps_grows`: a tree of any shape only grows the stack.
* `exec_keeps_eq`: an expression leaves the machine as it is.
* `exec_keeps_sameNames`: a conditional or a loop keeps the names of all scopes.
* `exec_scope_discipline`: all of this for trees that have been read, and the depth of the stack between
  programs.
-/

namespace EmojiLang

namespace NodeKind

/-- The node is a statement that has blocks of its own. -/
def hasBlocks : NodeKind → Bool
  | .conditional | .whileLoop | .forLoop => true
  | _ => false

theorem hasBlocks_eq_false {kind : NodeKind} (h : kind.isExpression = true) :
    kind.hasBlocks = false := by
  cases kind <;> simp [isExpression] at h <;> rfl

end NodeKind

namespace Outcome

/-- The action is done or has failed, and has left the machine `after`. -/
def EndsIn {α : Type} (o : Outcome α) (after : Machine) : Prop :=
  (∃ a, o = .done a after) ∨ ∃ d, o = .failed d after

variable {α : Type} {after m : Machine}

@[simp]
theorem done_endsIn {a : α} : (Outcome.done a m).EndsIn after ↔ m = after := by
  simp [EndsIn]

@[simp]
theorem failed_endsIn {d : Diagnostic} :
    (Outcome.failed d m : Outcome α).EndsIn after ↔ m = after := by
  simp [EndsIn]

@[simp]
theorem outOfFuel_endsIn : ¬ (Outcome.outOfFuel : Outcome α).EndsIn after := by
  simp [EndsIn]

end Outcome

namespace Exec

variable {α β : Type} {R S : Machine → Machine → Prop}

/-- However the action ends, the machine it leaves is related to the one it was given. -/
def Keeps (R : Machine → Machine → Prop) (x : Exec α) : Prop :=
  ∀ m after, (x m).EndsIn after → R m after

namespace Keeps

theorem mono {x : Exec α} (h : Keeps R x) (le : ∀ m n, R m n → S m n) : Keeps S x :=
  fun m after ends => le _ _ (h m after ends)

theorem giveUp : Keeps R (Exec.giveUp : Exec α) :=
  fun _ _ ends => absurd ends Outcome.outOfFuel_endsIn

variable [IsPreorder Machine R]

theorem pure (a : α) : Keeps R (Pure.pure a : Exec α) := by
  intro m after ends
  rw [Exec.pure_apply, Outcome.done_endsIn] at ends
  exact ends ▸ refl_of R m

theorem fail (d : Diagnostic) : Keeps R (Exec.fail d : Exec α) := by
  intro m after ends
  rw [Exec.fail, Outcome.failed_endsIn] at ends
  exact ends ▸ refl_of R m

theorem lookup (name : Token) : Keeps R (Exec.lookup name) := by
  intro m after ends
  simp only [Exec.lookup] at ends
  split at ends
  · rw [Outcome.done_endsIn] at ends
    exact ends ▸ refl_of R m
  · rw [Outcome.failed_endsIn] at ends
    exact ends ▸ refl_of R m

theorem bind {x : Exec α} {f : α → Exec β} (hx : Keeps R x) (hf : ∀ a, Keeps R (f a)) :
    Keeps R (x >>= f) := by
  intro m after ends
  rw [Exec.bind_apply] at ends
  cases hfirst : x m with
  | done a next =>
      rw [hfirst] at ends
      have step : R m next := hx m next (by simp [hfirst])
      exact trans_of R step (hf a next after ends)
  | failed d next =>
      rw [hfirst, Outcome.failed_endsIn] at ends
      exact hx m after (by simp [hfirst, ends])
  | outOfFuel =>
      rw [hfirst] at ends
      exact absurd ends Outcome.outOfFuel_endsIn

end Keeps

end Exec

namespace Scope

theorem names_bind (s : Scope) (name : String) (v : Value) :
    (s.bind name v).names = s.names ++ [name] := by
  simp [bind, names]

theorem names_update (name : String) (v : Value) (s : Scope) :
    (update name v s).names = s.names := by
  induction s with
  | nil => rfl
  | cons binding s ih =>
      obtain ⟨key, w⟩ := binding
      by_cases here : name = key
      · simp [update, here, names]
      · have rest : List.map Prod.fst (update name v s) = List.map Prod.fst s := ih
        simp [update, here, names, rest]

end Scope

namespace Env

/-- Every scope has the names it had. -/
def SameNames (env after : Env) : Prop := after.map Scope.names = env.map Scope.names

/-- The innermost scope has the names it had and perhaps more; the outer ones have the names they had.
Nothing is said about a stack without any scope. -/
def Grows : Env → Env → Prop
  | [], _ => True
  | _ :: _, [] => False
  | s :: outer, s' :: outer' => s.names <+: s'.names ∧ SameNames outer outer'

theorem SameNames.grows {env after : Env} (h : SameNames env after) : Grows env after := by
  cases env with
  | nil => trivial
  | cons s outer =>
      cases after with
      | nil => simp [SameNames] at h
      | cons s' outer' =>
          simp only [SameNames, List.map_cons, List.cons.injEq] at h
          exact ⟨h.1 ▸ List.prefix_rfl, h.2⟩

theorem Grows.trans {a b c : Env} (hab : Grows a b) (hbc : Grows b c) : Grows a c := by
  match a, b, c with
  | [], _, _ => trivial
  | s :: outer, s' :: outer', s'' :: outer'' =>
      have names : s.names <+: s''.names := hab.1.trans hbc.1
      have same : outer''.map Scope.names = outer.map Scope.names := hbc.2.trans hab.2
      exact ⟨names, same⟩

/-- What growing says of a stack that has a scope at all. -/
theorem Grows.spelled_out {env after : Env} (h : Grows env after) (deep : 1 ≤ env.length) :
    after.length = env.length ∧ after.tail.map Scope.names = env.tail.map Scope.names ∧
      ∀ name ∈ (env.headD []).names, name ∈ (after.headD []).names := by
  match env, after with
  | [], _ => simp at deep
  | s :: outer, s' :: outer' =>
      have depth : outer'.length = outer.length := by
        simpa using congrArg List.length h.2
      exact ⟨by simp [depth], h.2, fun name held => h.1.subset held⟩

theorem declare_grows {env after : Env} {name : String} {v : Value} {p : Position}
    (h : env.declare name v p = .ok after) : Grows env after := by
  cases env with
  | nil => trivial
  | cons s outer =>
      cases held : s.holds name with
      | true => simp [declare, held] at h
      | false =>
          simp only [declare, held, Bool.false_eq_true, if_false, Except.ok.injEq] at h
          subst h
          refine ⟨?_, rfl⟩
          rw [Scope.names_bind]
          exact List.prefix_append _ _

theorem assign?_sameNames {name : String} {v : Value} :
    ∀ {env after : Env}, assign? name v env = some after → SameNames env after
  | [], _, h => by
      simp [assign?] at h
  | s :: outer, after, h => by
      cases held : s.holds name with
      | true =>
          simp only [assign?, held, if_true, Option.some.injEq] at h
          subst h
          simp [SameNames, Scope.names_update]
      | false =>
          rw [assign?, held, if_neg Bool.false_ne_true, Option.map_eq_some_iff] at h
          obtain ⟨rest, hrest, rfl⟩ := h
          have inner : rest.map Scope.names = outer.map Scope.names := assign?_sameNames hrest
          simp [SameNames, inner]

theorem assign_sameNames {env after : Env} {name : String} {v : Value} {p : Position} {order : NameOrder}
    (h : env.assign name v p order = .ok after) : SameNames env after := by
  unfold assign at h
  cases found : assign? name v env with
  | none => simp [found] at h
  | some env' =>
      simp only [found, Except.ok.injEq] at h
      exact h ▸ assign?_sameNames found

end Env

namespace Machine

/-- The scopes have grown at most. -/
def Grows (m after : Machine) : Prop := m.env.Grows after.env

/-- The scopes have the names they had. -/
def SameNames (m after : Machine) : Prop := m.env.SameNames after.env

instance : IsPreorder Machine Grows where
  refl _ := Env.SameNames.grows rfl
  trans _ _ _ := Env.Grows.trans

instance : IsPreorder Machine SameNames where
  refl _ := rfl
  trans _ _ _ hab hbc := hbc.trans hab

end Machine

namespace Exec

open Machine (Grows SameNames)

variable {α : Type}

theorem Keeps.grows {x : Exec α} (h : Keeps SameNames x) : Keeps Grows x :=
  h.mono fun _ _ => Env.SameNames.grows

theorem Keeps.sameNames {x : Exec α} (h : Keeps Eq x) : Keeps SameNames x :=
  h.mono fun _ _ same => same ▸ rfl

theorem declare_keeps (name : Token) (v : Value) : Keeps Grows (declare name v) := by
  intro m after ends
  unfold declare store at ends
  split at ends
  · next env bound =>
      rw [Outcome.done_endsIn] at ends
      exact ends ▸ Env.declare_grows bound
  · rw [Outcome.failed_endsIn] at ends
    exact ends ▸ refl_of Grows m

theorem assign_keeps (name : Token) (v : Value) : Keeps SameNames (assign name v) := by
  intro m after ends
  unfold assign store at ends
  split at ends
  · next env bound =>
      rw [Outcome.done_endsIn] at ends
      exact ends ▸ Env.assign_sameNames bound
  · rw [Outcome.failed_endsIn] at ends
    exact ends ▸ refl_of SameNames m

theorem print_keeps (text : String) : Keeps SameNames (print text) := by
  intro m after ends
  rw [print, Outcome.done_endsIn] at ends
  exact ends ▸ rfl

/-- What is run in a scope of its own can add names to that scope only, and it is gone afterwards. -/
theorem inScope_keeps {x : Exec α} (h : Keeps Grows x) : Keeps SameNames (inScope x) := by
  have popped : ∀ m inner, Grows { m with env := m.env.push } inner →
      SameNames m { inner with env := inner.env.pop } := by
    intro m inner grown
    cases left : inner.env with
    | nil =>
        simp [Grows, Env.push, left, Env.Grows] at grown
    | cons s outer =>
        simp only [Grows, Env.push, left, Env.Grows] at grown
        simpa [SameNames, Env.pop, left] using grown.2
  intro m after ends
  simp only [inScope] at ends
  cases inner : x { m with env := m.env.push } with
  | done a next =>
      rw [inner, Outcome.done_endsIn] at ends
      exact ends ▸ popped m next (h _ _ (by simp [inner]))
  | failed d next =>
      rw [inner, Outcome.failed_endsIn] at ends
      exact ends ▸ popped m next (h _ _ (by simp [inner]))
  | outOfFuel =>
      rw [inner] at ends
      exact absurd ends Outcome.outOfFuel_endsIn

end Exec

namespace Eval

open Exec (Keeps)

section Parts

variable {R : Machine → Machine → Prop} [IsPreorder Machine R] {run : Tree → Exec Flow}

theorem value_keeps {t : Tree} (h : Keeps R (run t)) : Keeps R (value run t) :=
  h.bind fun _ => .pure _

theorem condition_keeps {t : Tree} (h : Keeps R (run t)) : Keeps R (condition run t) :=
  (value_keeps h).bind fun _ => .pure _

theorem lastValue_keeps {ts : List Tree} (h : ∀ t ∈ ts, Keeps R (run t)) (last : Value) :
    Keeps R (lastValue run last ts) := by
  induction ts generalizing last with
  | nil => exact .pure _
  | cons t ts ih =>
      have rest := ih fun t ht => h t (List.mem_cons_of_mem _ ht)
      exact (value_keeps (h t (by simp))).bind fun v => rest v

theorem untilSignal_keeps {ts : List Tree} (h : ∀ t ∈ ts, Keeps R (run t)) :
    Keeps R (untilSignal run ts) := by
  induction ts with
  | nil => exact .pure _
  | cons t ts ih =>
      refine (h t (by simp)).bind fun flow => ?_
      cases flow with
      | normal v => exact ih fun t ht => h t (List.mem_cons_of_mem _ ht)
      | leave => exact .pure _
      | next => exact .pure _

theorem rounds_keeps {test : Exec Bool} {body : Exec Flow} {update : Exec Unit}
    (ht : Keeps R test) (hb : Keeps R body) (hu : Keeps R update) (fuel : Nat) :
    Keeps R (rounds test body update fuel) := by
  induction fuel with
  | zero => exact .giveUp
  | succ fuel ih =>
      rw [rounds_succ]
      have goOn := hu.bind fun _ => ih
      refine ht.bind fun holds => ?_
      cases holds with
      | false => exact .pure _
      | true =>
          refine hb.bind fun flow => ?_
          cases flow with
          | leave => exact .pure _
          | next => exact goOn
          | normal v => exact goOn

theorem applyBinary_keeps (sign : Token) (left right : Value) :
    Keeps R (applyBinary sign left right) := by
  unfold applyBinary
  split
  · exact .pure _
  · split
    · exact .pure _
    · exact .fail _

end Parts

section AnyShape

open Machine (Grows SameNames)

variable {run : Tree → Exec Flow} (h : ∀ t, Keeps Grows (run t))
include h

theorem assignment_keeps_grows (mode : Mode) (t : Tree) : Keeps Grows (assignment run mode t) := by
  unfold assignment
  split
  · exact .pure _
  · next name _ =>
      have hright : Keeps Grows (valueOrUnit run (t.nodeAt 1)) := by
        cases t.nodeAt 1 with
        | none => exact .pure _
        | some e => exact value_keeps (h e)
      refine hright.bind fun v => ?_
      cases mode with
      | declare => exact Exec.declare_keeps name v
      | assign => exact (Exec.assign_keeps name v).grows

theorem entry_keeps_grows (t : Tree) : Keeps Grows (entry run t) := by
  unfold entry
  split
  · split
    · exact Exec.declare_keeps _ _
    · exact .pure _
  · exact assignment_keeps_grows h .declare _
  · exact .pure _

theorem entries_keeps_grows (ts : List Tree) : Keeps Grows (entries run ts) := by
  induction ts with
  | nil => exact .pure _
  | cons t ts ih => exact (entry_keeps_grows h t).bind fun _ => ih

theorem branches_keeps_grows (ts : List Tree) : Keeps Grows (branches run ts) := by
  fun_induction branches run ts with
  | case1 | case5 | case8 => exact .pure _
  | case2 _ _ _ ih | case4 _ _ _ _ _ _ ih | case7 _ _ _ _ _ _ ih | case9 _ _ _ _ ih => exact ih
  | case3 keyword spelled test block more nodes ih =>
      refine (value_keeps (h test)).bind fun v => ?_
      cases v.toBool with
      | true => exact (Exec.inScope_keeps (h block)).grows
      | false => exact ih
  | case6 keyword spelled closing block more node => exact (Exec.inScope_keeps (h block)).grows

theorem links_keeps_grows (acc : Value) (ts : List Tree) : Keeps Grows (links run acc ts) := by
  fun_induction links run acc ts with
  | case1 acc sign kind children rest ih =>
      exact (value_keeps (h _)).bind fun right => (applyBinary_keeps sign acc right).bind ih
  | case2 acc first second rest other ih => exact ih
  | case3 => exact .pure _

theorem chain_keeps_grows (t : Tree) : Keeps Grows (chain run t) := by
  unfold chain
  split
  · exact .pure _
  · exact (value_keeps (h _)).bind fun v => links_keeps_grows h v _

theorem unary_keeps_grows (t : Tree) : Keeps Grows (unary run t) := by
  unfold unary
  split
  · refine (value_keeps (h _)).bind fun v => ?_
    split
    · exact .pure _
    · exact .pure _
  · exact .pure _

theorem whileLoop_keeps_grows (fuel : Nat) (t : Tree) : Keeps Grows (whileLoop run fuel t) := by
  unfold whileLoop
  split
  · exact rounds_keeps (condition_keeps (h _)) (Exec.inScope_keeps (h _)).grows (.pure _) fuel
  · exact .pure _

theorem forLoop_keeps_grows (fuel : Nat) (t : Tree) : Keeps Grows (forLoop run fuel t) := by
  unfold forLoop
  split
  · next start test updates body _ _ _ _ =>
      have update : Keeps Grows (do let _ ← run updates : Exec Unit) :=
        (h updates).bind fun _ => .pure ()
      have loop := rounds_keeps (condition_keeps (h test)) (Exec.inScope_keeps (h body)).grows
        update fuel
      exact (Exec.inScope_keeps ((h start).bind fun _ => loop)).grows
  · exact .pure _

theorem visit_keeps_grows (fuel : Nat) (t : Tree) : Keeps Grows (visit fuel run t) := by
  cases t with
  | leaf token => exact .pure _
  | node kind children =>
      cases kind with
      | program | forInit | forUpdates =>
          exact (lastValue_keeps (fun t _ => h t) _).bind fun _ => .pure _
      | suite => exact untilSignal_keeps fun t _ => h t
      | declaration => exact (entries_keeps_grows h _).bind fun _ => .pure _
      | assignment => exact (assignment_keeps_grows h .assign _).bind fun _ => .pure _
      | printing =>
          simp only [visit]
          split
          · exact .pure _
          · exact (value_keeps (h _)).bind fun v =>
              (Exec.print_keeps v.text).grows.bind fun _ => .pure _
      | conditional => exact branches_keeps_grows h _
      | whileLoop => exact (whileLoop_keeps_grows h fuel _).bind fun _ => .pure _
      | forLoop => exact (forLoop_keeps_grows h fuel _).bind fun _ => .pure _
      | forTest =>
          simp only [visit]
          split
          · exact .pure _
          · exact (value_keeps (h _)).bind fun _ => .pure _
      | disjunction | conjunction | comparison | sum | product =>
          exact (chain_keeps_grows h _).bind fun _ => .pure _
      | unary => exact (unary_keeps_grows h _).bind fun _ => .pure _
      | name =>
          simp only [visit]
          split
          · exact .pure _
          · exact (Keeps.lookup _).bind fun _ => .pure _
      | jump | number | boolean | string => exact .pure _

omit h

/-- A tree of any shape only adds names, and only to the innermost scope. -/
theorem exec_keeps_grows (fuel : Nat) (t : Tree) : Keeps Grows (exec fuel t) := by
  induction fuel generalizing t with
  | zero => exact .giveUp
  | succ fuel ih => exact visit_keeps_grows ih fuel t

end AnyShape

section Phrases

open Machine (SameNames)
open Grammar (Derives Phrase Branch Guards branched closing)

theorem fold_keeps_eq {run : Tree → Exec Flow} {pairs : List (Token × Tree)}
    (h : ∀ p ∈ pairs, Keeps Eq (run p.2)) (acc : Value) : Keeps Eq (fold run acc pairs) := by
  induction pairs generalizing acc with
  | nil => exact .pure _
  | cons pair pairs ih =>
      have rest := ih fun p hp => h p (List.mem_cons_of_mem _ hp)
      exact (value_keeps (h pair (by simp))).bind fun right =>
        (applyBinary_keeps _ _ _).bind fun acc => rest acc

/-- An expression leaves the machine as it is, also if it fails. -/
theorem exec_keeps_eq (fuel : Nat) {t : Tree} (ht : Derives .expression t) :
    Keeps Eq (exec fuel t) := by
  induction fuel generalizing t with
  | zero => exact .giveUp
  | succ fuel ih =>
      rw [exec]
      cases ht with
      | @atom kind token own =>
          rcases Grammar.operandKind_cases own with ⟨-, rfl⟩ | ⟨-, rfl⟩ | ⟨-, rfl⟩ | ⟨-, rfl⟩
          · exact .pure _
          · exact .pure _
          · exact (Keeps.lookup token).bind fun _ => .pure _
          · exact .pure _
      | negation sign operand =>
          rw [visit_negation fuel _ _ operand.isNode]
          exact (value_keeps (ih operand)).bind fun _ => .pure _
      | chain own _ _ left right =>
          rw [visit_chain fuel _ own left.isNode fun p hp => (right p hp).isNode]
          have folds := fold_keeps_eq fun p hp => ih (right p hp)
          exact (value_keeps (ih left)).bind fun v => (folds v).bind fun _ => .pure _

theorem branches_keeps_sameNames {run : Tree → Exec Flow} {bs : List Branch}
    {last : Option (Token × Tree)} (guards : Guards bs last)
    (tests : ∀ {t}, Derives .expression t → Keeps SameNames (run t))
    (blocks : ∀ t, Keeps SameNames (Exec.inScope (run t))) :
    Keeps SameNames (branches run (branched bs ++ closing last)) := by
  induction bs with
  | nil =>
      rw [branches_guards_nil run guards]
      cases last with
      | none => exact .pure _
      | some e => exact blocks e.2
  | cons b bs ih =>
      rw [branches_guards_cons run guards]
      refine (value_keeps (tests (guards.tests b (by simp)))).bind fun v => ?_
      cases v.toBool with
      | true => exact blocks b.block
      | false => exact ih guards.tail

/-- A statement with blocks keeps the names of every scope, since what is declared in it is declared in
its blocks or in its header. -/
theorem exec_keeps_sameNames (fuel : Nat) {p : Phrase} {kind : NodeKind} {children : List Tree}
    (ht : Derives p (.node kind children)) (blocks : kind.hasBlocks = true) :
    Keeps SameNames (exec fuel (.node kind children)) := by
  cases fuel with
  | zero => exact .giveUp
  | succ fuel =>
      have inner : ∀ t, Keeps SameNames (Exec.inScope (exec fuel t)) :=
        fun t => Exec.inScope_keeps (exec_keeps_grows fuel t)
      have pure : ∀ {t}, Derives .expression t → Keeps SameNames (exec fuel t) :=
        fun ht => (exec_keeps_eq fuel ht).sameNames
      rw [exec]
      generalize same : Tree.node kind children = t at ht
      induction ht with
      | atom own =>
          injection same with hkind
          subst hkind
          simp [NodeKind.hasBlocks_eq_false (Grammar.isExpression_of_operandKind own)] at blocks
      | chain own =>
          injection same with hkind
          subst hkind
          simp [NodeKind.hasBlocks_eq_false (Grammar.isExpression_of_signsOf own)] at blocks
      | conditional opens elifs closes tests blocks ends =>
          rw [visit_conditional]
          exact branches_keeps_sameNames (.of_keywords opens elifs closes tests blocks ends) pure
            inner
      | whileLoop test block =>
          rw [visit_whileLoop fuel _ test.isNode block.isNode]
          exact (rounds_keeps (condition_keeps (pure test)) (inner _) (.pure _) fuel).bind
            fun _ => .pure _
      | @forLoop start test updates block hstart htest hupdates hblock =>
          rw [visit_forLoop fuel _ hstart.isNode htest.isNode hupdates.isNode hblock.isNode]
          refine (Exec.inScope_keeps ?_).bind fun _ => .pure _
          have update : Keeps Machine.Grows (do let _ ← exec fuel updates : Exec Unit) :=
            (exec_keeps_grows fuel updates).bind fun _ => .pure ()
          have loop := rounds_keeps (condition_keeps (exec_keeps_grows fuel test))
            (inner block).grows update fuel
          exact (exec_keeps_grows fuel start).bind fun _ => loop
      | initializedEntry _ ih | ofExpression _ ih | ofDeclaration _ ih | ofAssignment _ ih =>
          exact ih same
      | _ =>
          injection same with hkind
          subst hkind
          simp [NodeKind.hasBlocks] at blocks

end Phrases

end Eval

namespace Machine

/-- One program has been run, successfully or not, on the scopes that are there.  What has been printed
may be taken away between programs. -/
def Continues (m after : Machine) : Prop :=
  ∃ fuel t start, start.env = m.env ∧ (continueWith fuel t start).EndsIn after

theorem Continues.length_eq_one {m after : Machine} (step : Continues m after)
    (top : m.env.length ≤ 1) : after.env.length = 1 := by
  obtain ⟨fuel, t, start, same, ends⟩ := step
  have keeps := Eval.value_keeps (Eval.exec_keeps_grows fuel t) _ _ ends
  rcases hm : m.env with _ | ⟨s, _ | ⟨s', outer⟩⟩
  · have spelled := (keeps.spelled_out (by simp [same, hm, Env.push])).1
    simpa [same, hm, Env.push] using spelled
  · have spelled := (keeps.spelled_out (by simp [same, hm])).1
    simpa [same, hm] using spelled
  · simp [hm] at top

/-- Between programs there is exactly one scope. -/
theorem length_eq_one_of_continues {m after : Machine} (top : m.env.length ≤ 1)
    (steps : Relation.TransGen Continues m after) : after.env.length = 1 := by
  induction steps with
  | single step => exact step.length_eq_one top
  | tail _ step ih => exact step.length_eq_one (Nat.le_of_eq ih)

end Machine

/-- A tree of any shape leaves the scopes that it was given, however its run ends; it can only add
names to the innermost one.  In a tree that has been read, expressions change nothing at all, and
conditionals and loops add no name.  Between programs there is exactly one scope. -/
theorem exec_scope_discipline :
    (∀ fuel t (m after : Machine), 1 ≤ m.env.length → (Eval.exec fuel t m).EndsIn after →
      after.env.length = m.env.length ∧
        after.env.tail.map Scope.names = m.env.tail.map Scope.names ∧
        ∀ name ∈ (m.env.headD []).names, name ∈ (after.env.headD []).names) ∧
    (∀ tokens program kind children, Tree.ofTokens tokens = .ok program →
      Tree.Within (.node kind children) program →
      ∀ fuel (m after : Machine), (Eval.exec fuel (.node kind children) m).EndsIn after →
        (kind.isExpression = true → after = m) ∧
        (kind.hasBlocks = true → after.env.map Scope.names = m.env.map Scope.names)) ∧
    ∀ m after : Machine, m.env.length ≤ 1 → Relation.TransGen Machine.Continues m after →
      after.env.length = 1 := by
  refine ⟨?_, ?_, fun m after => Machine.length_eq_one_of_continues⟩
  · intro fuel t m after deep ends
    have grown : m.Grows after := Eval.exec_keeps_grows fuel t m after ends
    exact grown.spelled_out deep
  · intro tokens program kind children made within fuel m after ends
    obtain ⟨p, derived⟩ := (Grammar.ofTokens_derives made).within within rfl
    refine ⟨fun value => ?_, fun blocks => ?_⟩
    · have expression := derived.expression_of_isExpression value
      exact (Eval.exec_keeps_eq fuel expression m after ends).symm
    · exact Eval.exec_keeps_sameNames fuel derived blocks m after ends

/-- A block that declares a name and then reads one that is not there. -/
def strandedBlock : List Token :=
  [⟨.keyword, "if", ⟨1, 1⟩⟩, ⟨.delimiter, "(", ⟨1, 4⟩⟩, ⟨.boolean, "true", ⟨1, 5⟩⟩,
    ⟨.delimiter, ")", ⟨1, 9⟩⟩, ⟨.delimiter, "\x7b", ⟨1, 11⟩⟩, ⟨.keyword, "decl", ⟨2, 1⟩⟩,
    ⟨.name, "local", ⟨2, 6⟩⟩, ⟨.keyword, "print", ⟨3, 1⟩⟩, ⟨.delimiter, "(", ⟨3, 6⟩⟩,
    ⟨.name, "missing", ⟨3, 7⟩⟩, ⟨.delimiter, ")", ⟨3, 14⟩⟩, ⟨.delimiter, "\x7d", ⟨4, 1⟩⟩]

/-- The conditional of `strandedBlock`. -/
def strandedConditional : Tree :=
  .node .conditional
    [.leaf ⟨.keyword, "if", ⟨1, 1⟩⟩, .atom .boolean ⟨.boolean, "true", ⟨1, 5⟩⟩,
      .node .suite
        [.node .declaration [.atom .name ⟨.name, "local", ⟨2, 6⟩⟩],
          .node .printing [.atom .name ⟨.name, "missing", ⟨3, 7⟩⟩]]]

/-- The failed block leaves neither its scope nor its name behind, and later programs find one scope. -/
theorem exec_scope_discipline_strandedBlock :
    ∃ d after, Eval.exec 5 strandedConditional { env := Env.empty.push } = .failed d after ∧
      after.env.length = 1 ∧ after.env.map Scope.names = [[]] ∧
      ∀ later, Relation.TransGen Machine.Continues after later → later.env.length = 1 := by
  obtain ⟨d, after, fails⟩ : ∃ d after,
      Eval.exec 5 strandedConditional { env := Env.empty.push } = .failed d after :=
    ⟨_, _, rfl⟩
  have made : Tree.ofTokens strandedBlock = .ok (.node .program [strandedConditional]) := by
    rfl
  have within : Tree.Within strandedConditional (.node .program [strandedConditional]) :=
    .inside (List.mem_singleton_self _) .here
  obtain ⟨anyShape, parsed, between⟩ := exec_scope_discipline
  have depth := (anyShape 5 _ _ after (by decide) (Or.inr ⟨d, fails⟩)).1
  have names := (parsed _ _ _ _ made within 5 _ after (Or.inr ⟨d, fails⟩)).2 rfl
  exact ⟨d, after, fails, depth, names, fun later => between after later (Nat.le_of_eq depth)⟩

end EmojiLang
