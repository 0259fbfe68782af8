import EmojiLang.Eval.Fuel

/-!
# How statements end

Only blocks, conditionals and jumps can end with a signal, and a signal to go on with the loop comes from a
jump that no inner loop takes.  All of this holds of trees of any shape.

**Definitions.**
* `Exec.Yields P x`: whatever `x` ends with, if it is done, satisfies `P`.
* `NodeKind.signals`: the node may end with a signal.
* `Tree.resumes t`: somewhere in `t` is a jump that goes on with the loop around `t`.
* `Flow.settled` and `Exec.Settled`: how a block ends, which has no value of its own.

**Results.**
* `exec_yields_normal`: other nodes end normally.
* `exec_yields_of_resumes`: without such a jump a tree does not end with the signal to go on.
* `untilSignal_append`: statements that end normally may be run whatever their signals.
-/

namespace EmojiLang

namespace Flow

/-- The flow is no signal. -/
def IsNormal (flow : Flow) : Prop := ∃ v, flow = .normal v

/-- A signal, or the end of a block, whose statements have no values of interest. -/
def settled : Flow → Flow
  | .normal _ => .unit
  | .leave => .leave
  | .next => .next

end Flow

namespace NodeKind

/-- The node may end with a signal. -/
def signals : NodeKind → Bool
  | .suite | .conditional | .jump => true
  | _ => false

theorem eq_of_signals {kind : NodeKind} (h : kind.signals = true) :
    kind = .suite ∨ kind = .conditional ∨ kind = .jump := by
  cases kind <;> simp [signals] at h ⊢

end NodeKind

namespace Tree

mutual

/-- The tree has a jump that goes on with the loop around the tree. -/
def resumes : Tree → Bool
  | .leaf _ => false
  | .node .jump children =>
      children.any fun t => t.token?.any fun keyword => keyword.spells "continue"
  | .node .whileLoop _ | .node .forLoop _ => false
  | .node _ children => resumesAny children

/-- One of the trees has a jump that goes on with the loop around them. -/
def resumesAny : List Tree → Bool
  | [] => false
  | t :: ts => resumes t || resumesAny ts

end

theorem resumesAny_eq_false {ts : List Tree} :
    resumesAny ts = false ↔ ∀ t ∈ ts, t.resumes = false := by
  induction ts with
  | nil => simp [resumesAny]
  | cons t ts ih => simp [resumesAny, ih]

end Tree

namespace Exec

variable {α β : Type}

/-- Whatever the action ends with satisfies `P`. -/
def Yields (P : α → Prop) (x : Exec α) : Prop :=
  ∀ (m after : Machine) (a : α), x m = .done a after → P a

namespace Yields

variable {P : α → Prop} {Q : β → Prop}

theorem trivial (x : Exec α) : Yields (fun _ => True) x := fun _ _ _ _ => True.intro

theorem giveUp : Yields P Exec.giveUp := fun _ _ _ out => nomatch out

theorem pure {a : α} (h : P a) : Yields P (Pure.pure a) := by
  intro m after b ended
  injection ended with same
  exact same ▸ h

theorem bind {x : Exec α} {f : α → Exec β} (hx : Yields P x) (hf : ∀ a, P a → Yields Q (f a)) :
    Yields Q (x >>= f) := by
  intro m after b ended
  rw [bind_apply] at ended
  cases first : x m with
  | done a next =>
      rw [first] at ended
      exact hf a (hx _ _ _ first) _ _ _ ended
  | failed d next => simp [first] at ended
  | outOfFuel => simp [first] at ended

theorem inScope {x : Exec α} (h : Yields P x) : Yields P (Exec.inScope x) := by
  intro m after a ended
  simp only [Exec.inScope] at ended
  split at ended
  · next inner =>
      injection ended with same
      exact same ▸ h _ _ _ inner
  · cases ended
  · cases ended

end Yields

/-- The action ends as a block does: with a signal or without a value of interest. -/
def Settled (x : Exec Flow) : Prop := (do return (← x).settled) = x

/-- The result of an action may be changed before its scope is left or afterwards. -/
theorem inScope_map (f : α → β) (x : Exec α) :
    inScope (do return f (← x)) = do return f (← inScope x) := by
  funext m
  simp only [inScope, bind_apply]
  cases x { m with env := m.env.push } <;> rfl

namespace Settled

theorem bind (x : Exec α) {f : α → Exec Flow} (h : ∀ a, Settled (f a)) : Settled (x >>= f) := by
  have inner : (fun a => do return (← f a).settled) = f := funext h
  calc (do return (← x >>= f).settled)
      = x >>= fun a => do return (← f a).settled := bind_assoc _ _ _
    _ = x >>= f := by rw [inner]

theorem inScope {x : Exec Flow} (h : Settled x) : Settled (Exec.inScope x) := by
  rw [Settled, ← inScope_map, h]

end Settled

end Exec

namespace Eval

open Exec (Yields Settled)

section Parts

variable (run : Tree → Exec Flow)

theorem untilSignal_singleton (t : Tree) : untilSignal run [t] = do return (← run t).settled := by
  funext m
  simp only [untilSignal, Exec.bind_apply]
  cases run t m with
  | done flow after => cases flow <;> rfl
  | failed d after => rfl
  | outOfFuel => rfl

theorem untilSignal_settled (ts : List Tree) : Settled (untilSignal run ts) := by
  induction ts with
  | nil => rfl
  | cons t ts ih =>
      refine .bind (run t) fun flow => ?_
      cases flow with
      | normal v => exact ih
      | leave => rfl
      | next => rfl

/-- Statements that end normally are run one after the other, whatever their signals. -/
theorem untilSignal_append {ts : List Tree} (normal : ∀ t ∈ ts, Yields Flow.IsNormal (run t))
    (last : Value) (rest : List Tree) :
    untilSignal run (ts ++ rest) = (do
      let _ ← lastValue run last ts
      untilSignal run rest) := by
  induction ts generalizing last with
  | nil => rfl
  | cons t ts ih =>
      have tail := ih fun t ht => normal t (List.mem_cons_of_mem _ ht)
      funext m
      simp only [List.cons_append, untilSignal, lastValue, value, Exec.bind_apply]
      cases first : run t m with
      | done flow after =>
          obtain ⟨v, rfl⟩ := normal t (by simp) _ _ _ first
          simp only [Flow.value, Exec.pure_apply, tail v, Exec.bind_apply]
      | failed d after => rfl
      | outOfFuel => rfl

variable {run} {P : Flow → Prop} (unit : P .unit)
include unit

theorem untilSignal_yields {ts : List Tree} (h : ∀ t ∈ ts, Yields P (run t)) :
    Yields P (untilSignal run ts) := by
  induction ts with
  | nil => exact .pure unit
  | cons t ts ih =>
      refine (h t (by simp)).bind fun flow ends => ?_
      cases flow with
      | normal v => exact ih fun t ht => h t (List.mem_cons_of_mem _ ht)
      | leave => exact .pure ends
      | next => exact .pure ends

theorem branches_yields {ts : List Tree} (h : ∀ t ∈ ts, Yields P (run t)) :
    Yields P (branches run ts) := by
  fun_induction branches run ts with
  | case1 | case5 | case8 => exact .pure unit
  | case2 _ _ _ ih | case9 _ _ _ _ ih => exact ih fun t ht => h t (by simp [ht])
  | case4 _ _ _ _ _ _ ih | case7 _ _ _ _ _ _ ih => exact ih fun t ht => h t (by simp [ht])
  | case3 keyword spelled test block more nodes ih =>
      refine (Yields.trivial (value run test)).bind fun v _ => ?_
      cases v.toBool with
      | true => exact (h block (by simp)).inScope
      | false => exact ih fun t ht => h t (by simp [ht])
  | case6 keyword spelled closing block more node => exact (h block (by simp)).inScope

omit unit

/-- A node that cannot end with a signal ends normally, however its parts are run. -/
theorem visit_yields_normal (fuel : Nat) {kind : NodeKind} (quiet : kind.signals = false)
    (children : List Tree) : Yields Flow.IsNormal (visit fuel run (.node kind children)) := by
  have ended {α : Type} (x : Exec α) (f : α → Value) :
      Yields Flow.IsNormal (do return Flow.normal (f (← x))) :=
    (Yields.trivial x).bind fun _ _ => .pure ⟨_, rfl⟩
  cases kind with
  | suite | conditional | jump => cases quiet
  | printing =>
      simp only [visit]
      split
      · exact .pure ⟨_, rfl⟩
      · exact (Yields.trivial _).bind fun v _ => ended (Exec.print v.text) fun _ => .unit
  | forTest | name =>
      simp only [visit]
      split
      · exact .pure ⟨_, rfl⟩
      · exact ended _ id
  | number | boolean | string => exact .pure ⟨_, rfl⟩
  | _ => exact ended _ _

end Parts

theorem exec_yields_normal (fuel : Nat) {kind : NodeKind} (quiet : kind.signals = false)
    (children : List Tree) : Yields Flow.IsNormal (exec fuel (.node kind children)) := by
  cases fuel with
  | zero => exact .giveUp
  | succ fuel => exact visit_yields_normal fuel quiet children

theorem spells_of_jump {t : Tree} (h : jump t = .next) :
    ∃ keyword, t.tokenAt 0 = some keyword ∧ keyword.spells "continue" = true := by
  grind [jump, Flow.unit]

theorem jump_ne_next {children : List Tree} (h : (Tree.node .jump children).resumes = false) :
    jump (.node .jump children) ≠ .next := by
  intro next
  obtain ⟨keyword, first, spelled⟩ := spells_of_jump next
  obtain ⟨t, found, token⟩ := Option.bind_eq_some_iff.1 first
  have resumed : (Tree.node .jump children).resumes = true :=
    List.any_eq_true.2 ⟨t, List.mem_of_getElem? found, by simpa [token] using spelled⟩
  simp [h] at resumed

/-- A tree ends with the signal to go on only if it has a jump that goes on with the loop around it. -/
theorem exec_yields_of_resumes (fuel : Nat) {t : Tree} (h : t.resumes = false) :
    Yields (· ≠ .next) (exec fuel t) := by
  induction fuel generalizing t with
  | zero => exact .giveUp
  | succ fuel ih =>
      have unit : Flow.unit ≠ .next := nofun
      cases t with
      | leaf token => exact .pure unit
      | node kind children =>
          cases quiet : kind.signals with
          | false =>
              intro m after flow ended same
              obtain ⟨v, normal⟩ := exec_yields_normal (fuel + 1) quiet children _ _ _ ended
              cases normal.symm.trans same
          | true =>
              rcases NodeKind.eq_of_signals quiet with rfl | rfl | rfl
              · have parts := Tree.resumesAny_eq_false.1 h
                exact untilSignal_yields unit fun t ht => ih (parts t (List.mem_filter.1 ht).1)
              · have parts := Tree.resumesAny_eq_false.1 h
                exact branches_yields unit fun t ht => ih (parts t ht)
              · exact .pure (jump_ne_next h)

end Eval

end EmojiLang
