import EmojiLang.Proofs.Eval.Respelling

/-!
# What failures are blamed on

A run fails because of one of the tokens of its tree: a name that is read, written or declared, or the
sign of a remainder.  If all tokens of a tree are known to have some property, the failure can be traced
back to a token with that property, also if the tree has been respelled in the meantime.

**Method.** The tree is run beside its respelling, on one and the same machine, with tokens that are
related to their own respellings only.  That is a simulation of a run by itself, and what it says about
the two failures, which are equal, is the property looked for.

**Results.**
* `blaming`: such a simulation, from what may be blamed on a single token.
* `cause_of_failed`: the failure of a run is blamed on a token of the tree.
* `visit_congr`: two ways of running trees that agree on phrases agree on everything built from them.
-/

namespace EmojiLang

namespace Token

/-- A name has one spelling only. -/
theorem EquivalentInPlace.eq_of_name {a b : Token} (h : a.EquivalentInPlace b)
    (named : a.kind = .name) : b = a := by
  have text : a.text = b.text := h.1.text_eq (by rw [named]; rfl)
  cases a with
  | mk kind spelling position =>
      cases b with
      | mk kind' spelling' position' =>
          obtain ⟨⟨rfl, -⟩, rfl⟩ := h
          obtain rfl : spelling = spelling' := text
          rfl

end Token

namespace Simulation

section Blaming

variable {f : Token → Token} {good : Token → Prop} {cause : Diagnostic → Prop}

/-- What a single token with the property may be blamed for. -/
structure Blames (good : Token → Prop) (cause : Diagnostic → Prop) : Prop where
  undeclared {a : Token} (visible : List String) :
    good a → a.kind = .name → cause (.undeclared a.text a.position visible)
  redeclared {a : Token} : good a → a.kind = .name → cause (.redeclared a.text a.position)
  remainder {a : Token} :
    good a → a.kind.isSpelled = true → BinaryOp.ofText a.text = some .rem →
      cause (.remainderByZero a.position)

/-- The same action beside itself: all of its failures have the cause. -/
theorem simulates_self {α : Type} {x : Exec α}
    (h : ∀ m d after, x m = .failed d after → cause d) :
    Exec.Simulates (fun _ => Eq) (fun d e => d = e ∧ cause e) x x := by
  rintro _ m _ rfl
  cases ends : x m with
  | done a after => exact .done rfl
  | failed d after => exact .failed ⟨rfl, h m d after ends⟩ rfl
  | outOfFuel => exact .outOfFuel

theorem cause_of_store {r : Except Diagnostic Env} {m after : Machine} {d : Diagnostic}
    (h : Exec.store r m = .failed d after) : r = .error d := by
  cases r with
  | ok env => simp [Exec.store] at h
  | error e =>
      simp only [Exec.store, Outcome.failed.injEq] at h
      rw [h.1]

theorem push_congr {m n : Machine} (same : m = n) :
    { m with env := m.env.push } = { n with env := n.env.push } := by
  rw [same]

theorem pop_congr {m n : Machine} (same : m = n) :
    { m with env := m.env.pop } = { n with env := n.env.pop } := by
  rw [same]

section Failures

variable {a : Token} {m after : Machine} {d : Diagnostic} (h : Blames good cause) (ok : good a)
  (named : a.kind = .name)
include h ok named

theorem cause_of_lookup (fails : Exec.lookup a m = .failed d after) : cause d := by
  simp only [Exec.lookup, Env.lookup] at fails
  split at fails
  · cases fails
  · next unbound =>
      split at unbound
      · cases unbound
      · injection unbound with same
        injection fails with same'
        exact same' ▸ same ▸ h.undeclared _ ok named

theorem cause_of_declare {v : Value} (fails : Exec.declare a v m = .failed d after) : cause d := by
  have bound := cause_of_store fails
  unfold Env.declare at bound
  split at bound
  · cases bound
  · split at bound
    · injection bound with same
      exact same ▸ h.redeclared ok named
    · cases bound

theorem cause_of_assign {v : Value} (fails : Exec.assign a v m = .failed d after) : cause d := by
  have bound := cause_of_store fails
  unfold Env.assign at bound
  split at bound
  · cases bound
  · injection bound with same
    exact same ▸ h.undeclared _ ok named

end Failures

/-- A run beside the run of a respelled tree, all tokens having the property. -/
def blaming (respells : ∀ a, Token.EquivalentInPlace a (f a)) (h : Blames good cause) :
    Simulation where
  tokens a b := b = f a ∧ good a
  machines _ := Eq
  causes d e := d = e ∧ cause e
  kind_eq := by
    rintro a _ ⟨rfl, -⟩
    exact (respells a).1.1
  plain_eq := by
    rintro a _ ⟨rfl, -⟩ _
    exact (respells a).1.plain_eq
  literal_eq := by
    rintro a _ ⟨rfl, -⟩ literal
    refine (respells a).1.text_eq ?_
    rcases literal with number | string
    · rw [number]; rfl
    · rw [string]; rfl
  remainder := by
    rintro a _ ⟨rfl, ok⟩ spelled named
    rw [← (respells a).2]
    exact ⟨rfl, h.remainder ok spelled named⟩
  lookup := by
    rintro a _ ⟨rfl, ok⟩ named
    rw [(respells a).eq_of_name named]
    exact simulates_self fun _ _ _ => cause_of_lookup h ok named
  declare := by
    rintro a _ v ⟨rfl, ok⟩ named
    rw [(respells a).eq_of_name named]
    exact simulates_self fun _ _ _ => cause_of_declare h ok named
  assign := by
    rintro a _ v ⟨rfl, ok⟩ named
    rw [(respells a).eq_of_name named]
    exact simulates_self fun _ _ _ => cause_of_assign h ok named
  print text := by
    rintro _ m _ rfl
    exact .done rfl
  push := push_congr
  pop := pop_congr

end Blaming

end Simulation

namespace Eval

open Grammar (Derives Phrase)

/-- A phrase all of whose tokens have the property fails for a cause that is blamed on such a token, also
if it has been respelled. -/
theorem cause_of_failed {f : Token → Token} {good : Token → Prop} {cause : Diagnostic → Prop}
    (respells : ∀ a, Token.EquivalentInPlace a (f a)) (blames : Simulation.Blames good cause)
    {p : Phrase} {t : Tree} (derived : Derives p t) (all : ∀ a ∈ t.leaves, good a)
    {fuel : Nat} {m after : Machine} {d : Diagnostic}
    (fails : exec fuel (t.mapTokens f) m = .failed d after) : cause d := by
  have alike : Tree.Alike (Simulation.blaming respells blames).tokens t (t.mapTokens f) :=
    Tree.alike_mapTokens_of_leaves fun a mem => ⟨rfl, all a mem⟩
  have related := (Simulation.blaming respells blames).exec_simulates fuel derived alike 0 m m rfl
  rw [fails] at related
  generalize exec fuel t m = outcome at related
  cases related with
  | failed causes _ => exact causes.2

/-- What a phrase does is decided by what its parts do. -/
theorem visit_congr {run run' : Tree → Exec Flow}
    (agree : ∀ {p : Phrase} {t : Tree}, Derives p t → run t = run' t) (fuel : Nat) {p : Phrase}
    {t : Tree} (derived : Derives p t) : visit fuel run t = visit fuel run' t := by
  -- every token is related to itself only, and every failure is admitted
  have blames : Simulation.Blames (fun _ => True) (fun _ => True) :=
    ⟨fun _ _ _ => trivial, fun _ _ => trivial, fun _ _ _ => trivial⟩
  let sim := Simulation.blaming Token.equivalentInPlace_self blames
  have same {t u : Tree} (alike : Tree.Alike sim.tokens t u) : u = t := by
    rw [Tree.eq_mapTokens_of_alike (fun _ _ => And.left) alike]
    exact Tree.mapTokens_id t
  have runs : sim.Runs run run' := by
    intro q s u part alike
    rw [same alike, agree part]
    exact Simulation.simulates_self fun _ _ _ _ => trivial
  have alike : Tree.Alike sim.tokens t t := Tree.alike_self fun _ _ => ⟨rfl, trivial⟩
  funext m
  have related := Simulation.visit_simulates runs fuel derived alike 0 m m rfl
  generalize visit fuel run t m = o, visit fuel run' t m = o' at related ⊢
  cases related with
  | done same => rw [same]
  | failed causes same => rw [causes.1, same]
  | outOfFuel => rfl

end Eval

end EmojiLang
