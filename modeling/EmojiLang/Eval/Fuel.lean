import EmojiLang.Eval

/-!
# More fuel

An answer that a run has found with some fuel is found with any larger fuel as well.

**Definition.** `Exec.Approximates x y` says that `y` does what `x` does wherever `x` has not run out of
fuel.

**Results.**
* `Approximates.bind`, `Approximates.inScope` and `rounds_approximates`: the ways of building actions
  keep the relation.
* `exec_approximates`: `Eval.exec` with more fuel does what it does with less, as far as that goes.
* `exec_of_le`: the same for a single run.
-/

namespace EmojiLang

namespace Exec

variable {α β : Type}

/-- `y` does what `x` does wherever `x` has not run out of fuel. -/
def Approximates (x y : Exec α) : Prop := ∀ m, x m ≠ .outOfFuel → y m = x m

namespace Approximates

theorem refl (x : Exec α) : Approximates x x := fun _ _ => rfl

theorem giveUp (y : Exec α) : Approximates Exec.giveUp y := fun _ h => absurd rfl h

theorem bind {x y : Exec α} {f g : α → Exec β} (hx : Approximates x y)
    (hf : ∀ a, Approximates (f a) (g a)) : Approximates (x >>= f) (y >>= g) := by
  intro m answered
  cases hfirst : x m with
  | outOfFuel =>
      exact absurd (by simp [Exec.bind_apply, hfirst]) answered
  | failed d m' =>
      have same : y m = x m := hx m (by simp [hfirst])
      simp [Exec.bind_apply, same, hfirst]
  | done a m' =>
      have same : y m = x m := hx m (by simp [hfirst])
      have answers : f a m' ≠ .outOfFuel := by
        simpa [Exec.bind_apply, hfirst] using answered
      simpa [Exec.bind_apply, same, hfirst] using hf a m' answers

theorem inScope {x y : Exec α} (hx : Approximates x y) :
    Approximates (Exec.inScope x) (Exec.inScope y) := by
  intro m answered
  have inner : x { m with env := m.env.push } ≠ .outOfFuel := by
    intro out
    exact answered (by simp [Exec.inScope, out])
  simp [Exec.inScope, hx _ inner]

end Approximates

end Exec

namespace Eval

open Exec (Approximates)

section Parts

variable {run more : Tree → Exec Flow} (h : ∀ t, Approximates (run t) (more t))
include h

theorem value_approximates (t : Tree) : Approximates (value run t) (value more t) :=
  (h t).bind fun _ => .refl _

theorem valueOrUnit_approximates (t : Option Tree) :
    Approximates (valueOrUnit run t) (valueOrUnit more t) := by
  cases t with
  | none => exact .refl _
  | some t => exact value_approximates h t

theorem lastValue_approximates (last : Value) (ts : List Tree) :
    Approximates (lastValue run last ts) (lastValue more last ts) := by
  induction ts generalizing last with
  | nil => exact .refl _
  | cons t ts ih => exact (value_approximates h t).bind fun v => ih v

theorem untilSignal_approximates (ts : List Tree) :
    Approximates (untilSignal run ts) (untilSignal more ts) := by
  induction ts with
  | nil => exact .refl _
  | cons t ts ih =>
      refine (h t).bind fun flow => ?_
      cases flow with
      | normal v => exact ih
      | leave => exact .refl _
      | next => exact .refl _

theorem assignment_approximates (mode : Mode) (t : Tree) :
    Approximates (assignment run mode t) (assignment more mode t) := by
  unfold assignment
  split
  · exact .refl _
  · exact (valueOrUnit_approximates h _).bind fun _ => .refl _

theorem entry_approximates (t : Tree) : Approximates (entry run t) (entry more t) := by
  unfold entry
  split
  · exact .refl _
  · exact assignment_approximates h .declare _
  · exact .refl _

theorem entries_approximates (ts : List Tree) :
    Approximates (entries run ts) (entries more ts) := by
  induction ts with
  | nil => exact .refl _
  | cons t ts ih => exact (entry_approximates h t).bind fun _ => ih

theorem branches_approximates (ts : List Tree) :
    Approximates (branches run ts) (branches more ts) := by
  fun_induction branches more ts with
  | case1 => exact .refl _
  | case2 kind children rest ih => simpa [branches] using ih
  | case3 keyword spelled test block rest nodes ih =>
      simp only [branches, spelled, nodes, if_true]
      refine (value_approximates h test).bind fun v => ?_
      by_cases holds : v.toBool = true
      · simpa [holds] using (h block).inScope
      · simpa [holds] using ih
  | case4 keyword spelled test block rest nodes ih =>
      simpa [branches, spelled, nodes] using ih
  | case5 keyword rest spelled short =>
      match rest, short with
      | [], _ => simpa [branches, spelled] using Approximates.refl _
      | [test], _ => simpa [branches, spelled] using Approximates.refl _
      | test :: block :: rest, short => exact (short test block rest rfl).elim
  | case6 keyword spelled closing block rest node =>
      unfold branches
      simpa [spelled, closing, node] using (h block).inScope
  | case7 keyword spelled closing block rest node ih =>
      rw [branches.eq_def]
      simpa [spelled, closing, node] using ih
  | case8 keyword spelled closing =>
      simpa [branches, spelled, closing] using Approximates.refl _
  | case9 keyword rest spelled closing ih =>
      rw [branches.eq_def]
      simpa [spelled, closing] using ih

theorem condition_approximates (t : Tree) : Approximates (condition run t) (condition more t) :=
  (value_approximates h t).bind fun _ => .refl _

theorem links_approximates (acc : Value) (ts : List Tree) :
    Approximates (links run acc ts) (links more acc ts) := by
  fun_induction links more acc ts with
  | case1 acc sign kind children rest ih =>
      simp only [links]
      exact (value_approximates h _).bind fun right => (Approximates.refl _).bind fun acc => ih acc
  | case2 acc first second rest other ih =>
      rw [links]
      · exact ih
      · exact other
  | case3 ts acc chained paired =>
      rw [links]
      · exact .refl _
      · exact chained
      · exact paired

theorem chain_approximates (t : Tree) : Approximates (chain run t) (chain more t) := by
  unfold chain
  split
  · exact .refl _
  · exact (value_approximates h _).bind fun v => links_approximates h v _

theorem unary_approximates (t : Tree) : Approximates (unary run t) (unary more t) := by
  unfold unary
  split
  · exact (value_approximates h _).bind fun _ => .refl _
  · exact .refl _

omit h

theorem rounds_approximates {test test' : Exec Bool} {body body' : Exec Flow}
    {update update' : Exec Unit} (ht : Approximates test test') (hb : Approximates body body')
    (hu : Approximates update update') {fuel fuel' : Nat} (le : fuel ≤ fuel') :
    Approximates (rounds test body update fuel) (rounds test' body' update' fuel') := by
  induction fuel generalizing fuel' with
  | zero => exact .giveUp _
  | succ fuel ih =>
      obtain ⟨larger, rfl⟩ : ∃ larger, fuel' = larger + 1 := ⟨fuel' - 1, by omega⟩
      rw [rounds_succ, rounds_succ]
      have goOn := hu.bind fun _ => ih (Nat.le_of_succ_le_succ le)
      refine ht.bind fun holds => ?_
      cases holds with
      | false => exact .refl _
      | true =>
          refine hb.bind fun flow => ?_
          cases flow with
          | leave => exact .refl _
          | next => exact goOn
          | normal v => exact goOn

include h

theorem whileLoop_approximates {fuel fuel' : Nat} (le : fuel ≤ fuel') (t : Tree) :
    Approximates (whileLoop run fuel t) (whileLoop more fuel' t) := by
  unfold whileLoop
  split
  · exact rounds_approximates (condition_approximates h _) (h _).inScope (.refl _) le
  · exact .refl _

theorem forLoop_approximates {fuel fuel' : Nat} (le : fuel ≤ fuel') (t : Tree) :
    Approximates (forLoop run fuel t) (forLoop more fuel' t) := by
  unfold forLoop
  split
  · exact ((h _).bind fun _ => rounds_approximates (condition_approximates h _) (h _).inScope
      ((h _).bind fun _ => .refl _) le).inScope
  · exact .refl _

theorem visit_approximates {fuel fuel' : Nat} (le : fuel ≤ fuel') (t : Tree) :
    Approximates (visit fuel run t) (visit fuel' more t) := by
  cases t with
  | leaf token => exact .refl _
  | node kind children =>
      cases kind with
      | program => exact (lastValue_approximates h _ _).bind fun _ => .refl _
      | suite => exact untilSignal_approximates h _
      | declaration => exact (entries_approximates h _).bind fun _ => .refl _
      | assignment => exact (assignment_approximates h _ _).bind fun _ => .refl _
      | printing =>
          simp only [visit]
          split
          · exact .refl _
          · exact (value_approximates h _).bind fun _ => .refl _
      | conditional => exact branches_approximates h _
      | whileLoop => exact (whileLoop_approximates h le _).bind fun _ => .refl _
      | forLoop => exact (forLoop_approximates h le _).bind fun _ => .refl _
      | forInit => exact (lastValue_approximates h _ _).bind fun _ => .refl _
      | forUpdates => exact (lastValue_approximates h _ _).bind fun _ => .refl _
      | forTest =>
          simp only [visit]
          split
          · exact .refl _
          · exact (value_approximates h _).bind fun _ => .refl _
      | disjunction => exact (chain_approximates h _).bind fun _ => .refl _
      | conjunction => exact (chain_approximates h _).bind fun _ => .refl _
      | comparison => exact (chain_approximates h _).bind fun _ => .refl _
      | sum => exact (chain_approximates h _).bind fun _ => .refl _
      | product => exact (chain_approximates h _).bind fun _ => .refl _
      | unary => exact (unary_approximates h _).bind fun _ => .refl _
      | jump | name | number | boolean | string => exact .refl _

end Parts

/-- With more fuel a run does what it does with less, as far as that goes. -/
theorem exec_approximates {fuel fuel' : Nat} (le : fuel ≤ fuel') (t : Tree) :
    Approximates (exec fuel t) (exec fuel' t) := by
  induction fuel generalizing fuel' t with
  | zero => exact .giveUp _
  | succ fuel ih =>
      obtain ⟨larger, rfl⟩ : ∃ larger, fuel' = larger + 1 := ⟨fuel' - 1, by omega⟩
      exact visit_approximates (fun t => ih (Nat.le_of_succ_le_succ le) t)
        (Nat.le_of_succ_le_succ le) t

/-- An answer found with some fuel is found with any larger fuel. -/
theorem exec_of_le {fuel fuel' : Nat} (le : fuel ≤ fuel') {t : Tree} {m : Machine}
    (answered : exec fuel t m ≠ .outOfFuel) : exec fuel' t m = exec fuel t m :=
  exec_approximates le t m answered

end Eval

end EmojiLang
