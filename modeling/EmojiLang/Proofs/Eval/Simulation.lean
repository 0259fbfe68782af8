import EmojiLang.Proofs.Eval.Phrases
import EmojiLang.Proofs.Token.Spelling

/-!
# Runs that stay related

Two trees of one shape are run on two machines.  If each single thing that a run does with a token or a
machine keeps the two sides related, then so do the whole runs: they take the same branches, make the
same rounds, and end alike.

**Definitions.**
* `Tree.Alike R t u`: the trees have one shape, and their tokens are related by `R` one by one.
* `ResultsRelated R D r s`: two operations on scopes both succeed with related results, or both fail with
  related causes.
* `Exec.Simulates M D x y`: from machines related by `M` the two actions end with the same result, or
  fail with diagnostics related by `D`, or both run out of fuel; the machines stay related.  What relates
  them may depend on the number of scopes that have been entered.
* `EndAlike M D x y`: two runs end alike, whatever fuel either of them needs.
* `Simulation`: a relation of tokens, of machines and of diagnostics with what the single things have
  to satisfy.

**Results.**
* `Simulates.bind`, `Simulates.inScope` and `rounds_simulates`: the ways of building actions keep the
  relation.
* `Simulation.exec_simulates`: phrases with related tokens run alike, whatever the fuel.
-/

namespace EmojiLang

namespace Tree

mutual

/-- The trees have the same shape, and `R` relates their tokens one by one. -/
def Alike (R : Token → Token → Prop) : Tree → Tree → Prop
  | .leaf a, .leaf b => R a b
  | .node kind ts, .node kind' us => kind = kind' ∧ AlikeAll R ts us
  | .leaf _, .node _ _ => False
  | .node _ _, .leaf _ => False

/-- The rows are equally long, and the trees at the same places are alike. -/
def AlikeAll (R : Token → Token → Prop) : List Tree → List Tree → Prop
  | [], [] => True
  | t :: ts, u :: us => Alike R t u ∧ AlikeAll R ts us
  | [], _ :: _ => False
  | _ :: _, [] => False

end

section Alike

variable {R S : Token → Token → Prop}

theorem alike_leaf {a : Token} {u : Tree} :
    Alike R (.leaf a) u ↔ ∃ b, u = .leaf b ∧ R a b := by
  cases u with
  | leaf b => simp [Alike]
  | node kind us => simp [Alike]

theorem alike_node {kind : NodeKind} {ts : List Tree} {u : Tree} :
    Alike R (.node kind ts) u ↔ ∃ us, u = .node kind us ∧ AlikeAll R ts us := by
  cases u with
  | leaf b => simp [Alike]
  | node kind' us =>
      simp only [Alike]
      constructor
      · rintro ⟨rfl, h⟩
        exact ⟨us, rfl, h⟩
      · rintro ⟨vs, same, h⟩
        injection same with hkind hus
        exact ⟨hkind.symm, hus ▸ h⟩

@[simp]
theorem alikeAll_nil {us : List Tree} : AlikeAll R [] us ↔ us = [] := by
  cases us <;> simp [AlikeAll]

theorem alikeAll_cons {t : Tree} {ts us : List Tree} :
    AlikeAll R (t :: ts) us ↔ ∃ v vs, us = v :: vs ∧ Alike R t v ∧ AlikeAll R ts vs := by
  cases us with
  | nil => simp [AlikeAll]
  | cons v vs =>
      simp only [AlikeAll]
      constructor
      · intro h
        exact ⟨v, vs, rfl, h⟩
      · rintro ⟨w, ws, same, h⟩
        injection same with hv hvs
        exact hv ▸ hvs ▸ h

theorem Alike.isNode {t u : Tree} (h : Alike R t u) : u.isNode = t.isNode := by
  cases t with
  | leaf a =>
      obtain ⟨b, rfl, -⟩ := alike_leaf.1 h
      rfl
  | node kind ts =>
      obtain ⟨us, rfl, -⟩ := alike_node.1 h
      rfl

theorem AlikeAll.isNode {ts us : List Tree} (h : AlikeAll R ts us)
    (nodes : ∀ t ∈ ts, t.isNode = true) : ∀ u ∈ us, u.isNode = true := by
  induction ts generalizing us with
  | nil =>
      rw [alikeAll_nil.1 h]
      simp
  | cons t ts ih =>
      obtain ⟨v, vs, rfl, hv, hvs⟩ := alikeAll_cons.1 h
      have head : v.isNode = true := hv.isNode ▸ nodes t (by simp)
      have tail := ih hvs fun t ht => nodes t (List.mem_cons_of_mem _ ht)
      simpa [head] using tail

theorem alike_node_one {kind : NodeKind} {t u : Tree} (h : Alike R (.node kind [t]) u) :
    ∃ t', u = .node kind [t'] ∧ Alike R t t' := by
  obtain ⟨us, rfl, hus⟩ := alike_node.1 h
  obtain ⟨t', rest, rfl, ht, hrest⟩ := alikeAll_cons.1 hus
  rw [alikeAll_nil.1 hrest]
  exact ⟨t', rfl, ht⟩

theorem alike_node_two {kind : NodeKind} {s t u : Tree} (h : Alike R (.node kind [s, t]) u) :
    ∃ s' t', u = .node kind [s', t'] ∧ Alike R s s' ∧ Alike R t t' := by
  obtain ⟨us, rfl, hus⟩ := alike_node.1 h
  obtain ⟨s', rest, rfl, hs, hrest⟩ := alikeAll_cons.1 hus
  obtain ⟨t', last, rfl, ht, hlast⟩ := alikeAll_cons.1 hrest
  rw [alikeAll_nil.1 hlast]
  exact ⟨s', t', rfl, hs, ht⟩

/-- A tree that is alike to a node around one token is one. -/
theorem alike_atom {kind : NodeKind} {a : Token} {u : Tree} (h : Alike R (.atom kind a) u) :
    ∃ b, u = .atom kind b ∧ R a b := by
  obtain ⟨t, rfl, ht⟩ := alike_node_one h
  obtain ⟨b, rfl, hab⟩ := alike_leaf.1 ht
  exact ⟨b, rfl, hab⟩

end Alike

end Tree

/-- The operations both succeed with related results, or both fail with related causes. -/
inductive ResultsRelated {α β : Type} (R : α → β → Prop) (D : Diagnostic → Diagnostic → Prop) :
    Except Diagnostic α → Except Diagnostic β → Prop
  | ok {a : α} {b : β} : R a b → ResultsRelated R D (.ok a) (.ok b)
  | error {d e : Diagnostic} : D d e → ResultsRelated R D (.error d) (.error e)

/-- The two outcomes are the same up to related machines and related diagnostics. -/
inductive Outcome.Related (M : Machine → Machine → Prop) (D : Diagnostic → Diagnostic → Prop)
    {α : Type} : Outcome α → Outcome α → Prop
  | done {a : α} {m n : Machine} : M m n → Related M D (.done a m) (.done a n)
  | failed {d e : Diagnostic} {m n : Machine} :
      D d e → M m n → Related M D (.failed d m) (.failed e n)
  | outOfFuel : Related M D .outOfFuel .outOfFuel

section Runs

variable {α : Type} {M : Machine → Machine → Prop} {D : Diagnostic → Diagnostic → Prop}
  {x y : Nat → Outcome α}

/-- Of two runs, given for each fuel, the one comes to an end exactly if the other does, and then they end
alike. -/
def EndAlike (M : Machine → Machine → Prop) (D : Diagnostic → Diagnostic → Prop)
    (x y : Nat → Outcome α) : Prop :=
  ((∃ fuel, x fuel ≠ .outOfFuel) ↔ ∃ fuel, y fuel ≠ .outOfFuel) ∧
    ∀ fuel fuel', x fuel ≠ .outOfFuel → y fuel' ≠ .outOfFuel →
      Outcome.Related M D (x fuel) (y fuel')

theorem Outcome.Related.mono {M' : Machine → Machine → Prop} {D' : Diagnostic → Diagnostic → Prop}
    (machines : ∀ {m n}, M m n → M' m n) (causes : ∀ {d e}, D d e → D' d e) {o o' : Outcome α}
    (h : Outcome.Related M D o o') : Outcome.Related M' D' o o' := by
  cases h with
  | done next => exact .done (machines next)
  | failed cause next => exact .failed (causes cause) (machines next)
  | outOfFuel => exact .outOfFuel

/-- What relates less may be forgotten. -/
theorem EndAlike.mono {M' : Machine → Machine → Prop} {D' : Diagnostic → Diagnostic → Prop}
    (machines : ∀ {m n}, M m n → M' m n) (causes : ∀ {d e}, D d e → D' d e) (h : EndAlike M D x y) :
    EndAlike M' D' x y :=
  ⟨h.1, fun fuel fuel' answered answered' => (h.2 fuel fuel' answered answered').mono machines causes⟩

/-- Runs whose failures are not related do not end alike. -/
theorem not_endAlike_of_failed {d e : Diagnostic} {m n : Machine} {fuel fuel' : Nat}
    (fails : x fuel = .failed d m) (fails' : y fuel' = .failed e n) (unrelated : ¬ D d e) :
    ¬ EndAlike M D x y := by
  intro alike
  have related := alike.2 fuel fuel' (by simp [fails]) (by simp [fails'])
  rw [fails, fails'] at related
  cases related with
  | failed causes _ => exact unrelated causes

theorem Outcome.Related.outOfFuel_iff {o o' : Outcome α} (h : Outcome.Related M D o o') :
    o = .outOfFuel ↔ o' = .outOfFuel := by
  cases h <;> simp

/-- It suffices to find for each answer of one run a related answer of the other with some fuel, if more
fuel changes no answer. -/
theorem endAlike_of_answers
    (stays : ∀ {fuel fuel'}, fuel ≤ fuel' → y fuel ≠ .outOfFuel → y fuel' = y fuel)
    (forth : ∀ fuel, x fuel ≠ .outOfFuel → ∃ fuel', Outcome.Related M D (x fuel) (y fuel'))
    (back : ∀ fuel, y fuel ≠ .outOfFuel → ∃ fuel', x fuel' ≠ .outOfFuel) : EndAlike M D x y := by
  refine ⟨⟨?_, ?_⟩, ?_⟩
  · rintro ⟨fuel, answered⟩
    obtain ⟨fuel', related⟩ := forth fuel answered
    exact ⟨fuel', fun out => answered (related.outOfFuel_iff.2 out)⟩
  · rintro ⟨fuel, answered⟩
    exact back fuel answered
  · intro fuel fuel' answered answered'
    obtain ⟨found, related⟩ := forth fuel answered
    have same : y fuel' = y found := by
      rw [← stays (Nat.le_max_left fuel' found) answered', stays (Nat.le_max_right fuel' found)]
      exact fun out => answered (related.outOfFuel_iff.2 out)
    rwa [same]

/-- Runs that are related for each fuel end alike. -/
theorem endAlike_of_related (related : ∀ fuel, Outcome.Related M D (x fuel) (y fuel))
    (stays : ∀ {fuel fuel'}, fuel ≤ fuel' → y fuel ≠ .outOfFuel → y fuel' = y fuel) :
    EndAlike M D x y := by
  refine endAlike_of_answers stays (fun fuel _ => ⟨fuel, related fuel⟩) fun fuel answered => ?_
  exact ⟨fuel, fun out => answered ((related fuel).outOfFuel_iff.1 out)⟩

end Runs

namespace Exec

variable {α β : Type} {M : Nat → Machine → Machine → Prop} {D : Diagnostic → Diagnostic → Prop}

/-- From machines that are related at some depth the two actions end alike, at the same depth. -/
def Simulates (M : Nat → Machine → Machine → Prop) (D : Diagnostic → Diagnostic → Prop)
    (x y : Exec α) : Prop :=
  ∀ depth m n, M depth m n → Outcome.Related (M depth) D (x m) (y n)

namespace Simulates

theorem pure (a : α) : Simulates M D (Pure.pure a) (Pure.pure a) := fun _ _ _ h => .done h

theorem giveUp : Simulates M D (Exec.giveUp : Exec α) Exec.giveUp := fun _ _ _ _ => .outOfFuel

theorem fail {d e : Diagnostic} (h : D d e) :
    Simulates M D (Exec.fail d : Exec α) (Exec.fail e) := fun _ _ _ hm => .failed h hm

theorem bind {x y : Exec α} {f g : α → Exec β} (hx : Simulates M D x y)
    (hf : ∀ a, Simulates M D (f a) (g a)) : Simulates M D (x >>= f) (y >>= g) := by
  intro depth m n related
  have hfirst := hx depth m n related
  rw [Exec.bind_apply, Exec.bind_apply]
  generalize x m = o, y n = o' at hfirst
  cases hfirst with
  | done next => exact hf _ _ _ _ next
  | failed causes next => exact .failed causes next
  | outOfFuel => exact .outOfFuel

/-- In a scope of its own an action may need machines that are related in another way. -/
theorem inScope {M' : Nat → Machine → Machine → Prop} {x y : Exec α}
    (push : ∀ {depth m n}, M depth m n →
      M' depth { m with env := m.env.push } { n with env := n.env.push })
    (pop : ∀ {depth m n}, M' depth m n →
      M depth { m with env := m.env.pop } { n with env := n.env.pop })
    (h : Simulates M' D x y) : Simulates M D (Exec.inScope x) (Exec.inScope y) := by
  intro depth m n related
  have inner := h _ _ _ (push related)
  simp only [Exec.inScope]
  generalize x _ = o, y _ = o' at inner
  cases inner with
  | done next => exact .done (pop next)
  | failed causes next => exact .failed causes (pop next)
  | outOfFuel => exact .outOfFuel

end Simulates

end Exec

/-- A remainder is the only operation that can be without a result. -/
theorem BinaryOp.eq_rem_of_apply_eq_none {op : BinaryOp} {left right : Value}
    (h : op.apply left right = none) : op = .rem := by
  cases op <;> simp [apply] at h ⊢

/-- Relations of tokens, machines and diagnostics that every single thing in a run respects. -/
structure Simulation where
  tokens : Token → Token → Prop
  machines : (depth : Nat) → Machine → Machine → Prop
  causes : Diagnostic → Diagnostic → Prop
  kind_eq {a b : Token} : tokens a b → a.kind = b.kind
  plain_eq {a b : Token} :
    tokens a b → a.kind.isSpelled = true → Glyph.plain a.text = Glyph.plain b.text
  literal_eq {a b : Token} : tokens a b → a.kind = .number ∨ a.kind = .string → a.text = b.text
  remainder {a b : Token} :
    tokens a b → a.kind.isSpelled = true → BinaryOp.ofText a.text = some .rem →
      causes (.remainderByZero a.position) (.remainderByZero b.position)
  lookup {a b : Token} :
    tokens a b → a.kind = .name → Exec.Simulates machines causes (Exec.lookup a) (Exec.lookup b)
  declare {a b : Token} (v : Value) :
    tokens a b → a.kind = .name →
      Exec.Simulates machines causes (Exec.declare a v) (Exec.declare b v)
  assign {a b : Token} (v : Value) :
    tokens a b → a.kind = .name →
      Exec.Simulates machines causes (Exec.assign a v) (Exec.assign b v)
  print (text : String) : Exec.Simulates machines causes (Exec.print text) (Exec.print text)
  push {depth : Nat} {m n : Machine} : machines depth m n →
    machines (depth + 1) { m with env := m.env.push } { n with env := n.env.push }
  pop {depth : Nat} {m n : Machine} : machines (depth + 1) m n →
    machines depth { m with env := m.env.pop } { n with env := n.env.pop }

namespace Simulation

variable {α : Type} (sim : Simulation)

/-- From related machines the two actions end alike. -/
abbrev Simulates (x y : Exec α) : Prop := Exec.Simulates sim.machines sim.causes x y

section Tokens

variable {sim} {a b : Token} (h : sim.tokens a b)
include h

theorem spells_eq (text : String) : b.spells text = a.spells text := by
  simp only [Token.spells, ← sim.kind_eq h]
  cases spelled : a.kind.isSpelled with
  | false => rfl
  | true => rw [sim.plain_eq h spelled]

theorem spellsAny_eq (texts : List String) : b.spellsAny texts = a.spellsAny texts := by
  simp only [Token.spellsAny, funext (spells_eq h)]

theorem negated_eq (spelled : a.kind.isSpelled = true) (v : Value) :
    Eval.negated b v = Eval.negated a v := by
  simp only [Eval.negated, UnaryOp.ofText, sim.plain_eq h spelled]

theorem applyBinary_simulates (spelled : a.kind.isSpelled = true) (left right : Value) :
    sim.Simulates (Eval.applyBinary a left right) (Eval.applyBinary b left right) := by
  have same : BinaryOp.ofText b.text = BinaryOp.ofText a.text := by
    simp only [BinaryOp.ofText, sim.plain_eq h spelled]
  simp only [Eval.applyBinary, same]
  split
  · exact .pure _
  · next op named =>
      split
      · exact .pure _
      · next failed =>
          have rem := BinaryOp.eq_rem_of_apply_eq_none failed
          exact .fail (sim.remainder h spelled (rem ▸ named))

end Tokens

section Actions

theorem inScope_simulates {x y : Exec α} (h : sim.Simulates x y) :
    sim.Simulates (Exec.inScope x) (Exec.inScope y) :=
  .inScope sim.push sim.pop fun depth => h (depth + 1)

theorem rounds_simulates {test test' : Exec Bool} {body body' : Exec Flow}
    {update update' : Exec Unit} (ht : sim.Simulates test test') (hb : sim.Simulates body body')
    (hu : sim.Simulates update update') (fuel : Nat) :
    sim.Simulates (Eval.rounds test body update fuel) (Eval.rounds test' body' update' fuel) := by
  induction fuel with
  | zero => exact .giveUp
  | succ fuel ih =>
      rw [Eval.rounds_succ, Eval.rounds_succ]
      have goOn := hu.bind fun _ => ih
      refine ht.bind fun holds => ?_
      cases holds with
      | false => exact .pure _
      | true =>
          refine hb.bind fun flow => ?_
          cases flow with
          | leave => exact .pure _
          | next => exact goOn
          | normal v => exact goOn

end Actions

section Phrases

open Eval Grammar EmojiLang.Tree

/-- The two ways of running trees agree on phrases with related tokens. -/
def Runs (run run' : Tree → Exec Flow) : Prop :=
  ∀ {p : Phrase} {t u : Tree}, Derives p t → Alike sim.tokens t u → sim.Simulates (run t) (run' u)

variable {sim} {run run' : Tree → Exec Flow} (h : sim.Runs run run')
include h

theorem value_simulates {p : Phrase} {t u : Tree} (ht : Derives p t)
    (alike : Alike sim.tokens t u) : sim.Simulates (value run t) (value run' u) :=
  (h ht alike).bind fun _ => .pure _

theorem condition_simulates {p : Phrase} {t u : Tree} (ht : Derives p t)
    (alike : Alike sim.tokens t u) : sim.Simulates (condition run t) (condition run' u) :=
  (value_simulates h ht alike).bind fun _ => .pure _

theorem lastValue_simulates {p : Phrase} {ts us : List Tree} (hts : ∀ t ∈ ts, Derives p t)
    (alike : AlikeAll sim.tokens ts us) (last : Value) :
    sim.Simulates (lastValue run last ts) (lastValue run' last us) := by
  induction ts generalizing us last with
  | nil =>
      rw [alikeAll_nil.1 alike]
      exact .pure _
  | cons t ts ih =>
      obtain ⟨u, us, rfl, hu, hus⟩ := alikeAll_cons.1 alike
      have rest := ih (fun t ht => hts t (List.mem_cons_of_mem _ ht)) hus
      exact (value_simulates h (hts t (by simp)) hu).bind fun v => rest v

theorem untilSignal_simulates {p : Phrase} {ts us : List Tree} (hts : ∀ t ∈ ts, Derives p t)
    (alike : AlikeAll sim.tokens ts us) :
    sim.Simulates (untilSignal run ts) (untilSignal run' us) := by
  induction ts generalizing us with
  | nil =>
      rw [alikeAll_nil.1 alike]
      exact .pure _
  | cons t ts ih =>
      obtain ⟨u, us, rfl, hu, hus⟩ := alikeAll_cons.1 alike
      have rest := ih (fun t ht => hts t (List.mem_cons_of_mem _ ht)) hus
      refine (h (hts t (by simp)) hu).bind fun flow => ?_
      cases flow with
      | normal v => exact rest
      | leave => exact .pure _
      | next => exact .pure _

theorem entry_simulates {t u : Tree} (ht : Derives .entry t) (alike : Alike sim.tokens t u) :
    sim.Simulates (entry run t) (entry run' u) := by
  cases ht with
  | bareEntry named =>
      obtain ⟨b, rfl, hab⟩ := alike_atom alike
      rw [entry_bare, entry_bare]
      exact sim.declare .unit hab named
  | initializedEntry ha =>
      cases ha with
      | assignment named right =>
          obtain ⟨left', right', rfl, hleft, hright⟩ := alike_node_two alike
          obtain ⟨b, rfl, hab⟩ := alike_atom hleft
          rw [entry_initialized run _ right.isNode,
            entry_initialized run' _ (hright.isNode ▸ right.isNode)]
          exact (value_simulates h right hright).bind fun v => sim.declare v hab named

theorem entries_simulates {ts us : List Tree} (hts : ∀ t ∈ ts, Derives .entry t)
    (alike : AlikeAll sim.tokens ts us) : sim.Simulates (entries run ts) (entries run' us) := by
  induction ts generalizing us with
  | nil =>
      rw [alikeAll_nil.1 alike]
      exact .pure _
  | cons t ts ih =>
      obtain ⟨u, us, rfl, hu, hus⟩ := alikeAll_cons.1 alike
      have rest := ih (fun t ht => hts t (List.mem_cons_of_mem _ ht)) hus
      exact (entry_simulates h (hts t (by simp)) hu).bind fun _ => rest

/-- Subtrees that are alike to the links of a chain are links, and fold alike. -/
theorem fold_simulates {signs : List String} {pairs : List (Token × Tree)} {us : List Tree}
    (hsigns : ∀ p ∈ pairs, p.1.spellsAny signs = true)
    (hpairs : ∀ p ∈ pairs, Derives .expression p.2)
    (alike : AlikeAll sim.tokens (chained pairs) us) :
    ∃ pairs', us = chained pairs' ∧ (∀ p ∈ pairs', p.2.isNode = true) ∧
      ∀ acc, sim.Simulates (fold run acc pairs) (fold run' acc pairs') := by
  induction pairs generalizing us with
  | nil =>
      exact ⟨[], alikeAll_nil.1 alike, by simp, fun acc => .pure acc⟩
  | cons pair pairs ih =>
      obtain ⟨sign, us, rfl, hsign, hus⟩ := alikeAll_cons.1 alike
      obtain ⟨right, us, rfl, hright, hus⟩ := alikeAll_cons.1 hus
      obtain ⟨b, rfl, hab⟩ := alike_leaf.1 hsign
      obtain ⟨pairs', rfl, nodes, rest⟩ := ih (fun p hp => hsigns p (List.mem_cons_of_mem _ hp))
        (fun p hp => hpairs p (List.mem_cons_of_mem _ hp)) hus
      have derived : Derives .expression pair.2 := hpairs pair (by simp)
      have node : right.isNode = true := hright.isNode ▸ derived.isNode
      have spelled : pair.1.kind.isSpelled = true :=
        (Token.spellsAny_iff.1 (hsigns pair (by simp))).1
      refine ⟨(b, right) :: pairs', rfl, by simpa [node] using nodes, fun acc => ?_⟩
      exact (value_simulates h derived hright).bind fun v =>
        (applyBinary_simulates hab spelled acc v).bind rest

theorem branches_simulates {bs : List Branch} {last : Option (Token × Tree)} {us : List Tree}
    (guards : Guards bs last) (alike : AlikeAll sim.tokens (branched bs ++ closing last) us) :
    sim.Simulates (branches run (branched bs ++ closing last)) (branches run' us) := by
  induction bs generalizing us with
  | nil =>
      rw [branches_guards_nil run guards]
      cases last with
      | none =>
          rw [alikeAll_nil.1 alike]
          exact .pure _
      | some e =>
          obtain ⟨keyword, us, rfl, hkeyword, hrest⟩ := alikeAll_cons.1 alike
          obtain ⟨block, us, rfl, hblock, hend⟩ := alikeAll_cons.1 hrest
          obtain ⟨b, rfl, hab⟩ := alike_leaf.1 hkeyword
          have ends := guards.ends e rfl
          have closes : b.spells "else" = true := spells_eq hab _ ▸ guards.closes e rfl
          have node : block.isNode = true := hblock.isNode ▸ ends.isNode
          have closed : branches run' (closing (some (b, block))) = Exec.inScope (run' block) :=
            branches_closing run' (by simpa using closes) (by simpa using node)
          rw [alikeAll_nil.1 hend]
          exact closed ▸ sim.inScope_simulates (h ends hblock)
  | cons b bs ih =>
      obtain ⟨keyword, us, rfl, hkeyword, hrest⟩ := alikeAll_cons.1 alike
      obtain ⟨test, us, rfl, htest, hrest⟩ := alikeAll_cons.1 hrest
      obtain ⟨block, us, rfl, hblock, hrest⟩ := alikeAll_cons.1 hrest
      obtain ⟨c, rfl, hbc⟩ := alike_leaf.1 hkeyword
      have dtest := guards.tests b (by simp)
      have dblock := guards.blocks b (by simp)
      have spelled : c.spellsAny ["if", "elif"] = true :=
        spellsAny_eq hbc _ ▸ guards.spelled b (by simp)
      rw [branches_guards_cons run guards, branches_branched_cons run' ⟨c, test, block⟩ us spelled
        (htest.isNode ▸ dtest.isNode) (hblock.isNode ▸ dblock.isNode)]
      refine (value_simulates h dtest htest).bind fun v => ?_
      cases v.toBool with
      | true => exact sim.inScope_simulates (h dblock hblock)
      | false => exact ih guards.tail hrest

omit h in
/-- A name or literal, as the token says. -/
theorem atom_simulates (fuel : Nat) {kind : NodeKind} {a b : Token}
    (own : operandKind a.kind = some kind) (hab : sim.tokens a b) :
    sim.Simulates (visit fuel run (.atom kind a)) (visit fuel run' (.atom kind b)) := by
  rcases operandKind_cases own with ⟨-, rfl⟩ | ⟨hk, rfl⟩ | ⟨hk, rfl⟩ | ⟨hk, rfl⟩
  · rw [visit_atom_boolean, visit_atom_boolean, spells_eq hab]
    exact .pure _
  · rw [visit_atom_number, visit_atom_number, sim.literal_eq hab (Or.inl hk)]
    exact .pure _
  · rw [visit_atom_name, visit_atom_name]
    exact (sim.lookup hab hk).bind fun _ => .pure _
  · rw [visit_atom_string, visit_atom_string, sim.literal_eq hab (Or.inr hk)]
    exact .pure _

theorem negation_simulates (fuel : Nat) {sign : Token} {operand u : Tree}
    (hsign : sign.spellsAny unarySigns = true) (hoperand : Derives .expression operand)
    (alike : Alike sim.tokens (.node .unary [.leaf sign, operand]) u) :
    sim.Simulates (visit fuel run (.node .unary [.leaf sign, operand])) (visit fuel run' u) := by
  obtain ⟨sign', operand', rfl, leaf, inner⟩ := alike_node_two alike
  obtain ⟨b, rfl, hab⟩ := alike_leaf.1 leaf
  rw [visit_negation fuel run _ hoperand.isNode,
    visit_negation fuel run' _ (inner.isNode ▸ hoperand.isNode)]
  refine (value_simulates h hoperand inner).bind fun v => ?_
  rw [negated_eq hab (Token.spellsAny_iff.1 hsign).1]
  exact .pure _

theorem chain_simulates (fuel : Nat) {kind : NodeKind} {signs : List String} {first u : Tree}
    {links : List (Token × Tree)} (own : signsOf kind = some signs)
    (hsigns : ∀ link ∈ links, link.1.spellsAny signs = true) (hfirst : Derives .expression first)
    (hlinks : ∀ link ∈ links, Derives .expression link.2)
    (alike : Alike sim.tokens (.node kind (first :: chained links)) u) :
    sim.Simulates (visit fuel run (.node kind (first :: chained links))) (visit fuel run' u) := by
  obtain ⟨us, rfl, hus⟩ := alike_node.1 alike
  obtain ⟨head, us, rfl, hhead, hrest⟩ := alikeAll_cons.1 hus
  obtain ⟨links', rfl, nodes, folds⟩ := fold_simulates h hsigns hlinks hrest
  rw [visit_chain fuel run own hfirst.isNode fun link hl => (hlinks link hl).isNode,
    visit_chain fuel run' own (hhead.isNode ▸ hfirst.isNode) nodes]
  exact (value_simulates h hfirst hhead).bind fun v => (folds v).bind fun _ => .pure _

theorem assignment_simulates (fuel : Nat) {name : Token} {right u : Tree}
    (named : name.kind = .name) (hright : Derives .expression right)
    (alike : Alike sim.tokens (.node .assignment [.atom .name name, right]) u) :
    sim.Simulates (visit fuel run (.node .assignment [.atom .name name, right]))
      (visit fuel run' u) := by
  obtain ⟨target, right', rfl, hleft, hvalue⟩ := alike_node_two alike
  obtain ⟨b, rfl, hab⟩ := alike_atom hleft
  rw [visit_assignment fuel run _ hright.isNode,
    visit_assignment fuel run' _ (hvalue.isNode ▸ hright.isNode)]
  exact (value_simulates h hright hvalue).bind fun v =>
    (sim.assign v hab named).bind fun _ => .pure _

theorem conditional_simulates (fuel : Nat) {bs : List Branch} {last : Option (Token × Tree)}
    {u : Tree} (guards : Guards bs last)
    (alike : Alike sim.tokens (.node .conditional (branched bs ++ closing last)) u) :
    sim.Simulates (visit fuel run (.node .conditional (branched bs ++ closing last)))
      (visit fuel run' u) := by
  obtain ⟨us, rfl, hus⟩ := alike_node.1 alike
  rw [visit_conditional, visit_conditional]
  exact branches_simulates h guards hus

theorem whileLoop_simulates (fuel : Nat) {test block u : Tree} (htest : Derives .expression test)
    (hblock : Derives .suite block) (alike : Alike sim.tokens (.node .whileLoop [test, block]) u) :
    sim.Simulates (visit fuel run (.node .whileLoop [test, block])) (visit fuel run' u) := by
  obtain ⟨test', block', rfl, tested, inner⟩ := alike_node_two alike
  rw [visit_whileLoop fuel run htest.isNode hblock.isNode,
    visit_whileLoop fuel run' (tested.isNode ▸ htest.isNode) (inner.isNode ▸ hblock.isNode)]
  have condition := condition_simulates h htest tested
  have body := sim.inScope_simulates (h hblock inner)
  exact (sim.rounds_simulates condition body (.pure _) fuel).bind fun _ => .pure _

/-- The start and all rounds run in the scope of the header. -/
theorem forLoop_simulates (fuel : Nat) {start test updates block u : Tree}
    (hstart : Derives .forInit start) (htest : Derives .forTest test)
    (hupdates : Derives .forUpdates updates) (hblock : Derives .suite block)
    (alike : Alike sim.tokens (.node .forLoop [start, test, updates, block]) u) :
    sim.Simulates (visit fuel run (.node .forLoop [start, test, updates, block]))
      (visit fuel run' u) := by
  obtain ⟨us, rfl, hus⟩ := alike_node.1 alike
  obtain ⟨start', us, rfl, begun, hrest⟩ := alikeAll_cons.1 hus
  obtain ⟨test', us, rfl, tested, hrest⟩ := alikeAll_cons.1 hrest
  obtain ⟨updates', us, rfl, updated, hrest⟩ := alikeAll_cons.1 hrest
  obtain ⟨block', us, rfl, inner, hend⟩ := alikeAll_cons.1 hrest
  rw [alikeAll_nil.1 hend,
    visit_forLoop fuel run hstart.isNode htest.isNode hupdates.isNode hblock.isNode,
    visit_forLoop fuel run' (begun.isNode ▸ hstart.isNode) (tested.isNode ▸ htest.isNode)
      (updated.isNode ▸ hupdates.isNode) (inner.isNode ▸ hblock.isNode)]
  have condition := condition_simulates h htest tested
  have body := sim.inScope_simulates (h hblock inner)
  have update := (h hupdates updated).bind fun _ => Exec.Simulates.pure ()
  have loop := sim.rounds_simulates condition body update fuel
  exact (sim.inScope_simulates ((h hstart begun).bind fun _ => loop)).bind fun _ => .pure _

/-- The start of a counting loop, with a part or without one. -/
theorem forInit_simulates (fuel : Nat) {p : Phrase} {ts : List Tree} {u : Tree}
    (hts : ∀ t ∈ ts, Derives p t) (alike : Alike sim.tokens (.node .forInit ts) u) :
    sim.Simulates (visit fuel run (.node .forInit ts)) (visit fuel run' u) := by
  obtain ⟨us, rfl, hus⟩ := alike_node.1 alike
  have nodes := Derives.isNode_of_mem hts
  rw [visit_forInit fuel run nodes, visit_forInit fuel run' (hus.isNode nodes)]
  exact (lastValue_simulates h hts hus _).bind fun _ => .pure _

/-- One step of the run: phrases with related tokens do alike what they do themselves, if their parts
run alike. -/
theorem visit_simulates (fuel : Nat) : sim.Runs (visit fuel run) (visit fuel run') := by
  intro p t u ht alike
  induction ht generalizing u with
  | atom own =>
      obtain ⟨b, rfl, hab⟩ := alike_atom alike
      exact atom_simulates fuel own hab
  | bareEntry named =>
      obtain ⟨b, rfl, hab⟩ := alike_atom alike
      exact atom_simulates fuel (by rw [named]; rfl) hab
  | negation sign operand => exact negation_simulates h fuel sign operand alike
  | chain own _ signs left right => exact chain_simulates h fuel own signs left right alike
  | assignment named right => exact assignment_simulates h fuel named right alike
  | declaration entries =>
      obtain ⟨us, rfl, hus⟩ := alike_node.1 alike
      have nodes := Derives.isNode_of_mem entries
      rw [visit_declaration fuel run nodes, visit_declaration fuel run' (hus.isNode nodes)]
      exact (entries_simulates h entries hus).bind fun _ => .pure _
  | printing operand =>
      obtain ⟨operand', rfl, hoperand⟩ := alike_node_one alike
      rw [visit_printing fuel run operand.isNode,
        visit_printing fuel run' (hoperand.isNode ▸ operand.isNode)]
      exact (value_simulates h operand hoperand).bind fun v =>
        (sim.print v.text).bind fun _ => .pure _
  | jump _ =>
      obtain ⟨b, rfl, hab⟩ := alike_atom alike
      rw [Tree.atom, visit_jump, visit_jump, spells_eq hab, spells_eq hab]
      exact .pure _
  | conditional opens elifs closes tests blocks ends =>
      exact conditional_simulates h fuel (.of_keywords opens elifs closes tests blocks ends) alike
  | whileLoop test block => exact whileLoop_simulates h fuel test block alike
  | forLoop start test updates block =>
      exact forLoop_simulates h fuel start test updates block alike
  | noStart => exact forInit_simulates h fuel (p := .declaration) (by simp) alike
  | declaringStart part => exact forInit_simulates h fuel (List.forall_mem_singleton.2 part) alike
  | assigningStart part => exact forInit_simulates h fuel (List.forall_mem_singleton.2 part) alike
  | noTest =>
      obtain ⟨us, rfl, hus⟩ := alike_node.1 alike
      rw [alikeAll_nil.1 hus, visit_noTest, visit_noTest]
      exact .pure _
  | test part =>
      obtain ⟨part', rfl, hpart⟩ := alike_node_one alike
      rw [visit_test fuel run part.isNode, visit_test fuel run' (hpart.isNode ▸ part.isNode)]
      exact (value_simulates h part hpart).bind fun _ => .pure _
  | updates parts =>
      obtain ⟨us, rfl, hus⟩ := alike_node.1 alike
      have nodes := Derives.isNode_of_mem parts
      rw [visit_forUpdates fuel run nodes, visit_forUpdates fuel run' (hus.isNode nodes)]
      exact (lastValue_simulates h parts hus _).bind fun _ => .pure _
  | suite parts =>
      obtain ⟨us, rfl, hus⟩ := alike_node.1 alike
      have nodes := Derives.isNode_of_mem parts
      rw [visit_suite fuel run nodes, visit_suite fuel run' (hus.isNode nodes)]
      exact untilSignal_simulates h parts hus
  | program parts =>
      obtain ⟨us, rfl, hus⟩ := alike_node.1 alike
      have nodes := Derives.isNode_of_mem parts
      rw [visit_program fuel run nodes, visit_program fuel run' (hus.isNode nodes)]
      exact (lastValue_simulates h parts hus _).bind fun _ => .pure _
  | initializedEntry _ ih | ofExpression _ ih | ofDeclaration _ ih | ofAssignment _ ih =>
      exact ih alike

omit h

variable (sim) in
/-- Phrases with related tokens run alike, whatever the fuel. -/
theorem exec_simulates (fuel : Nat) : sim.Runs (exec fuel) (exec fuel) := by
  induction fuel with
  | zero => exact fun _ _ => .giveUp
  | succ fuel ih => exact visit_simulates ih fuel

end Phrases

end Simulation

end EmojiLang
