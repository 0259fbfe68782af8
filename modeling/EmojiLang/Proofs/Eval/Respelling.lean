import EmojiLang.Eval.Fuel
import EmojiLang.Proofs.Eval.Simulation
import EmojiLang.Proofs.Grammar.Soundness
import EmojiLang.Proofs.Scope.Reports

/-!
# Spelling has no meaning at run time

Two tokens are equivalent if they have the same class and the same text, or are two spellings of one
keyword, operator, delimiter or truth value.  A program keeps its meaning if its tokens are replaced by
equivalent ones.

**Definitions.**
* `Token.Equivalent` and `Token.EquivalentInPlace`: the second one also keeps the places.
* `Diagnostic.SameReport`: two diagnostics that differ in nothing but the place.
* `Diagnostic.SameFinding`: two diagnostics that differ at most in the place and in which of the best hints
  they offer.
* `Machine.SameButOrder`: two machines whose scopes may give their names in different orders.
* `RunAlike`: the one program comes to an end exactly if the other does, and then with the same value and
  related machines, or with a related failure.

**Results.**
* `respelling`: replacing tokens by equivalent ones is a simulation.
* `runAlike_of_ofTokens`: a program that has been read runs like every respelling of it.
* `not_runAlike_twoHints`: with the names in another order it may be offered another hint.
-/

namespace EmojiLang

namespace Token

/-- The tokens have the same class and text, or are two spellings of one thing. -/
def Equivalent (a b : Token) : Prop :=
  a.kind = b.kind ∧
    (a.text = b.text ∨ a.kind.isSpelled = true ∧ Glyph.plain a.text = Glyph.plain b.text)

/-- Equivalent tokens at the same place. -/
def EquivalentInPlace (a b : Token) : Prop :=
  a.Equivalent b ∧ a.position = b.position

namespace Equivalent

variable {a b : Token}

theorem plain_eq (h : a.Equivalent b) : Glyph.plain a.text = Glyph.plain b.text := by
  rcases h.2 with same | ⟨-, same⟩
  · rw [same]
  · exact same

theorem text_eq (h : a.Equivalent b) (other : a.kind.isSpelled = false) : a.text = b.text := by
  rcases h.2 with same | ⟨spelled, -⟩
  · exact same
  · simp [other] at spelled

end Equivalent

theorem equivalentInPlace_self (t : Token) : t.EquivalentInPlace t :=
  ⟨⟨rfl, Or.inl rfl⟩, rfl⟩

theorem equivalentInPlace_plain (t : Token) : t.EquivalentInPlace t.plain := by
  unfold EquivalentInPlace Equivalent plain
  split
  · next spelled =>
      -- the plain spelling of a plain spelling is itself, since no plain text is a glyph
      have all : ∀ e ∈ Glyph.table, Glyph.plain e.plain = e.plain := by decide
      have fixed : Glyph.plain (Glyph.plain t.text) = Glyph.plain t.text := by
        cases found : Glyph.table.find? fun e => e.glyph == t.text with
        | none => simp only [Glyph.plain, found]
        | some e =>
            have step : Glyph.plain t.text = e.plain := by
              simp only [Glyph.plain, found]
            rw [step, all e (List.mem_of_find?_eq_some found)]
      exact ⟨⟨rfl, Or.inr ⟨spelled, fixed.symm⟩⟩, rfl⟩
  · exact ⟨⟨rfl, Or.inl rfl⟩, rfl⟩

end Token

namespace Tree

mutual

/-- A tree is alike to its image, if its own tokens are related to theirs. -/
theorem alike_mapTokens_of_leaves {R : Token → Token → Prop} {f : Token → Token} :
    ∀ {t : Tree}, (∀ a ∈ t.leaves, R a (f a)) → Alike R t (t.mapTokens f)
  | .leaf a, h => h a (List.mem_singleton_self a)
  | .node _ _, h => ⟨rfl, alikeAll_mapTokensOf_of_leaves h⟩

theorem alikeAll_mapTokensOf_of_leaves {R : Token → Token → Prop} {f : Token → Token} :
    ∀ {ts : List Tree}, (∀ a ∈ leavesOf ts, R a (f a)) → AlikeAll R ts (mapTokensOf f ts)
  | [], _ => trivial
  | _ :: _, h =>
      ⟨alike_mapTokens_of_leaves fun a mem => h a (List.mem_append_left _ mem),
        alikeAll_mapTokensOf_of_leaves fun a mem => h a (List.mem_append_right _ mem)⟩

end

theorem alike_mapTokens {R : Token → Token → Prop} {f : Token → Token} (h : ∀ a, R a (f a))
    (t : Tree) : Alike R t (t.mapTokens f) :=
  alike_mapTokens_of_leaves fun a _ => h a

mutual

/-- A tree whose tokens are the images of those of another one. -/
theorem eq_mapTokens_of_alike {R : Token → Token → Prop} {f : Token → Token}
    (image : ∀ a b, R a b → b = f a) : ∀ {t u : Tree}, Alike R t u → u = t.mapTokens f
  | .leaf a, u, h => by
      obtain ⟨b, rfl, related⟩ := alike_leaf.1 h
      rw [mapTokens, image a b related]
  | .node kind ts, u, h => by
      obtain ⟨us, rfl, row⟩ := alike_node.1 h
      rw [mapTokens, eq_mapTokensOf_of_alikeAll image row]

theorem eq_mapTokensOf_of_alikeAll {R : Token → Token → Prop} {f : Token → Token}
    (image : ∀ a b, R a b → b = f a) :
    ∀ {ts us : List Tree}, AlikeAll R ts us → us = mapTokensOf f ts
  | [], us, h => by
      rw [alikeAll_nil.1 h, mapTokensOf]
  | t :: ts, us, h => by
      obtain ⟨u, us, rfl, head, tail⟩ := alikeAll_cons.1 h
      rw [mapTokensOf, eq_mapTokens_of_alike image head, eq_mapTokensOf_of_alikeAll image tail]

end

mutual

theorem mapTokens_id : ∀ t : Tree, t.mapTokens id = t
  | .leaf a => rfl
  | .node kind children => by
      rw [mapTokens, mapTokensOf_id children]

theorem mapTokensOf_id : ∀ ts : List Tree, mapTokensOf id ts = ts
  | [] => rfl
  | t :: ts => by
      rw [mapTokensOf, mapTokens_id t, mapTokensOf_id ts]

end

/-- A tree is alike to itself, if its tokens are related to themselves. -/
theorem alike_self {R : Token → Token → Prop} {t : Tree} (h : ∀ a ∈ t.leaves, R a a) : Alike R t t := by
  have image : Alike R t (t.mapTokens id) := alike_mapTokens_of_leaves h
  rwa [mapTokens_id] at image

end Tree

namespace Diagnostic

/-- The diagnostics say the same, perhaps of different places. -/
def SameReport (d e : Diagnostic) : Prop := e = { d with location := e.location }

/-- The diagnostics say the same, perhaps of different places and with another one of the best hints. -/
def SameFinding (d e : Diagnostic) : Prop := SameButHint { d with location := e.location } e

end Diagnostic

namespace Machine

/-- The machines are equal but for the orders in which their scopes give names. -/
def SameButOrder (m n : Machine) : Prop := n = { m with order := n.order }

/-- The machines are equal but for their orders, which are these. -/
def Reordered (left right : NameOrder) (m n : Machine) : Prop :=
  m.order = left ∧ n = { m with order := right }

variable {left right : NameOrder} {m n : Machine}

theorem SameButOrder.reordered (same : m.SameButOrder n) : Reordered m.order n.order m n := ⟨rfl, same⟩

theorem Reordered.sameButOrder (h : Reordered left right m n) : m.SameButOrder n := by
  rw [h.2]
  rfl

theorem Reordered.eq (h : Reordered left left m n) : m = n := by
  rw [h.2, ← h.1]

end Machine

section Simulation

variable {left right : NameOrder} {P : Position → Position → Prop} {D : Diagnostic → Diagnostic → Prop}

/-- Diagnostics of the same failure at related places, with the names in these orders, are related. -/
structure RespectsPlaces (left right : NameOrder) (P : Position → Position → Prop)
    (D : Diagnostic → Diagnostic → Prop) : Prop where
  undeclared {p q : Position} {env : Env} {name : String} :
    ¬ env.Binds name → P p q → D (env.undeclared name p left) (env.undeclared name q right)
  redeclared {p q : Position} (name : String) : P p q → D (.redeclared name p) (.redeclared name q)
  remainder {p q : Position} : P p q → D (.remainderByZero p) (.remainderByZero q)

section Operations

variable (h : RespectsPlaces left right P D) {p q : Position} (places : P p q) (env : Env) (name : String)
include h places

theorem lookup_related : ResultsRelated Eq D (env.lookup name p left) (env.lookup name q right) := by
  unfold Env.lookup
  cases found : env.get? name with
  | some v => exact .ok rfl
  | none => exact .error (h.undeclared (Env.get?_eq_none_iff.1 found) places)

theorem declare_related (v : Value) :
    ResultsRelated Eq D (env.declare name v p) (env.declare name v q) := by
  cases env with
  | nil => exact .ok rfl
  | cons s outer =>
      simp only [Env.declare]
      cases s.holds name with
      | false => exact .ok rfl
      | true => exact .error (h.redeclared name places)

theorem assign_related (v : Value) :
    ResultsRelated Eq D (env.assign name v p left) (env.assign name v q right) := by
  unfold Env.assign
  cases found : Env.assign? name v env with
  | some after => exact .ok rfl
  | none => exact .error (h.undeclared (Env.assign?_eq_none_iff.1 found) places)

end Operations

theorem store_reordered {r s : Except Diagnostic Env} (results : ResultsRelated Eq D r s) {m n : Machine}
    (same : Machine.Reordered left right m n) :
    Outcome.Related (Machine.Reordered left right) D (Exec.store r m) (Exec.store s n) := by
  obtain ⟨rfl, rfl⟩ := same
  cases results with
  | ok envs => exact envs ▸ .done ⟨rfl, rfl⟩
  | error causes => exact .failed causes ⟨rfl, rfl⟩

/-- Equivalent tokens at related places do the same to a machine, whatever the order of the names. -/
def respelling (h : RespectsPlaces left right P D) : EmojiLang.Simulation where
  tokens a b := a.Equivalent b ∧ P a.position b.position
  machines _ := Machine.Reordered left right
  causes := D
  kind_eq related := related.1.1
  plain_eq related _ := related.1.plain_eq
  literal_eq related literal := by
    refine related.1.text_eq ?_
    rcases literal with number | string
    · rw [number]; rfl
    · rw [string]; rfl
  remainder related _ _ := h.remainder related.2
  lookup {a b} related named := by
    have text : a.text = b.text := related.1.text_eq (by rw [named]; rfl)
    rintro _ m _ ⟨rfl, rfl⟩
    have results := lookup_related h related.2 m.env a.text
    simp only [Exec.lookup, ← text]
    generalize m.env.lookup a.text a.position m.order = r, m.env.lookup a.text b.position right = s at results
    cases results with
    | ok same => exact same ▸ .done ⟨rfl, rfl⟩
    | error causes => exact .failed causes ⟨rfl, rfl⟩
  declare {a b} v related named := by
    have text : a.text = b.text := related.1.text_eq (by rw [named]; rfl)
    rintro _ m _ ⟨rfl, rfl⟩
    simp only [Exec.declare, ← text]
    exact store_reordered (declare_related h related.2 m.env a.text v) ⟨rfl, rfl⟩
  assign {a b} v related named := by
    have text : a.text = b.text := related.1.text_eq (by rw [named]; rfl)
    rintro _ m _ ⟨rfl, rfl⟩
    simp only [Exec.assign, ← text]
    exact store_reordered (assign_related h related.2 m.env a.text v) ⟨rfl, rfl⟩
  print text := by
    rintro _ m _ ⟨rfl, rfl⟩
    exact .done ⟨rfl, rfl⟩
  push := by
    rintro _ m _ ⟨rfl, rfl⟩
    exact ⟨rfl, rfl⟩
  pop := by
    rintro _ m _ ⟨rfl, rfl⟩
    exact ⟨rfl, rfl⟩

theorem undeclared_at (env : Env) (name : String) (p q : Position) (order : NameOrder) :
    env.undeclared name q order = { env.undeclared name p order with location := ⟨q, none⟩ } := by
  unfold Env.undeclared Diagnostic.undeclared
  cases Text.closest name (env.visible order) <;> rfl

theorem respectsPlaces_sameReport (order : NameOrder) :
    RespectsPlaces order order (fun _ _ => True) Diagnostic.SameReport where
  undeclared {p q env name} _ _ := by
    rw [undeclared_at env name p q]
    rfl
  redeclared _ _ := rfl
  remainder _ := rfl

theorem respectsPlaces_sameFinding (left right : NameOrder) :
    RespectsPlaces left right (fun _ _ => True) Diagnostic.SameFinding where
  undeclared {p q env name} absent _ := by
    have place : (env.undeclared name q right).location = ⟨q, none⟩ := Diagnostic.undeclared_location ..
    rw [Diagnostic.SameFinding, place, ← undeclared_at env name p q left]
    exact (Diagnostic.Reordered.sought q rfl absent).sameButHint
  redeclared _ _ := .same _
  remainder _ := .same _

theorem respectsPlaces_eq (order : NameOrder) : RespectsPlaces order order Eq Eq where
  undeclared _ same := by rw [same]
  redeclared name same := by rw [same]
  remainder same := by rw [same]

theorem respectsPlaces_reordered (left right : NameOrder) :
    RespectsPlaces left right Eq (Diagnostic.Reordered left right) where
  undeclared absent same := same ▸ .sought _ rfl absent
  redeclared _ same := same ▸ .same _
  remainder same := same ▸ .same _

end Simulation

section Runs

/-- The one tree ends on the one machine like the other tree on the other machine, on top of the scopes that
are there and on a fresh one. -/
def RunAlike (M : Machine → Machine → Prop) (D : Diagnostic → Diagnostic → Prop) (t u : Tree)
    (m n : Machine) : Prop :=
  EndAlike M D (fun fuel => Machine.continueWith fuel t m) (fun fuel => Machine.continueWith fuel u n) ∧
    EndAlike M D (fun fuel => Machine.startWith fuel t m) (fun fuel => Machine.startWith fuel u n)

theorem continueWith_of_le {fuel fuel' : Nat} {t : Tree} {m : Machine} (le : fuel ≤ fuel')
    (answered : Machine.continueWith fuel t m ≠ .outOfFuel) :
    Machine.continueWith fuel' t m = Machine.continueWith fuel t m :=
  Eval.value_approximates (fun t => Eval.exec_approximates le t) t _ answered

theorem startWith_of_le {fuel fuel' : Nat} {t : Tree} {m : Machine} (le : fuel ≤ fuel')
    (answered : Machine.startWith fuel t m ≠ .outOfFuel) :
    Machine.startWith fuel' t m = Machine.startWith fuel t m :=
  ((Eval.exec_approximates le t).bind fun _ => .refl _) _ answered

variable {left right : NameOrder} {P : Position → Position → Prop} {D : Diagnostic → Diagnostic → Prop}
  {p : Grammar.Phrase} {t u : Tree} {m n : Machine}

section Alike

variable (h : RespectsPlaces left right P D) (derived : Grammar.Derives p t)
  (alike : Tree.Alike (respelling h).tokens t u) (same : Machine.Reordered left right m n)
include derived alike same

theorem continueWith_related (fuel : Nat) :
    Outcome.Related (Machine.Reordered left right) D (Machine.continueWith fuel t m)
      (Machine.continueWith fuel u n) := by
  obtain ⟨rfl, rfl⟩ := same
  exact Simulation.value_simulates ((respelling h).exec_simulates fuel) derived alike 0 _ _ ⟨rfl, rfl⟩

theorem startWith_related (fuel : Nat) :
    Outcome.Related (Machine.Reordered left right) D (Machine.startWith fuel t m)
      (Machine.startWith fuel u n) := by
  obtain ⟨rfl, rfl⟩ := same
  have runs := (respelling h).exec_simulates fuel derived alike
  exact (runs.bind fun _ => .pure ()) 0 _ _ ⟨rfl, rfl⟩

theorem runAlike_of_alike : RunAlike (Machine.Reordered left right) D t u m n :=
  ⟨endAlike_of_related (continueWith_related h derived alike same) continueWith_of_le,
    endAlike_of_related (startWith_related h derived alike same) startWith_of_le⟩

end Alike

/-- With places that are left open, equivalent tokens are related. -/
theorem alike_anywhere (h : RespectsPlaces left right (fun _ _ => True) D)
    (alike : Tree.Alike Token.Equivalent t u) : Tree.Alike (respelling h).tokens t u := by
  have anywhere : (respelling h).tokens = Token.Equivalent := by
    funext a b
    simp [respelling]
  rwa [anywhere]

theorem RunAlike.mono {M M' : Machine → Machine → Prop} {D' : Diagnostic → Diagnostic → Prop}
    (machines : ∀ {m n}, M m n → M' m n) (causes : ∀ {d e}, D d e → D' d e) (h : RunAlike M D t u m n) :
    RunAlike M' D' t u m n :=
  ⟨h.1.mono machines causes, h.2.mono machines causes⟩

/-- A loop in glyphs whose first round ends with a remainder by zero. -/
def endlessRemainder : List Token :=
  [⟨.keyword, "💿", ⟨1, 1⟩⟩, ⟨.delimiter, "👉", ⟨1, 2⟩⟩, ⟨.boolean, "✔", ⟨1, 3⟩⟩,
    ⟨.delimiter, "👈", ⟨1, 4⟩⟩, ⟨.delimiter, "🍽", ⟨1, 5⟩⟩, ⟨.keyword, "🖨", ⟨2, 1⟩⟩,
    ⟨.delimiter, "👉", ⟨2, 2⟩⟩, ⟨.number, "5", ⟨2, 3⟩⟩, ⟨.operator, "📎", ⟨2, 4⟩⟩,
    ⟨.number, "0", ⟨2, 5⟩⟩, ⟨.delimiter, "👈", ⟨2, 6⟩⟩, ⟨.delimiter, "🥂", ⟨3, 1⟩⟩]

/-- The tree of `endlessRemainder`. -/
def endlessRemainderTree : Tree :=
  .node .program
    [.node .whileLoop
      [.atom .boolean ⟨.boolean, "✔", ⟨1, 3⟩⟩,
        .node .suite
          [.node .printing
            [.node .product
              [.atom .number ⟨.number, "5", ⟨2, 3⟩⟩, .leaf ⟨.operator, "📎", ⟨2, 4⟩⟩,
                .atom .number ⟨.number, "0", ⟨2, 5⟩⟩]]]]]

/-- Two names that come equally near to a third one, which is not declared. -/
def twoHints : List Token :=
  [⟨.keyword, "decl", ⟨1, 1⟩⟩, ⟨.name, "ab", ⟨1, 6⟩⟩, ⟨.operator, "=", ⟨1, 9⟩⟩, ⟨.number, "1", ⟨1, 11⟩⟩,
    ⟨.keyword, "decl", ⟨2, 1⟩⟩, ⟨.name, "ac", ⟨2, 6⟩⟩, ⟨.operator, "=", ⟨2, 9⟩⟩, ⟨.number, "2", ⟨2, 11⟩⟩,
    ⟨.keyword, "print", ⟨3, 1⟩⟩, ⟨.delimiter, "(", ⟨3, 6⟩⟩, ⟨.name, "ad", ⟨3, 7⟩⟩, ⟨.delimiter, ")", ⟨3, 9⟩⟩]

/-- The tree of `twoHints`. -/
def twoHintsTree : Tree :=
  .node .program
    [.node .declaration
        [.node .assignment [.atom .name ⟨.name, "ab", ⟨1, 6⟩⟩, .atom .number ⟨.number, "1", ⟨1, 11⟩⟩]],
      .node .declaration
        [.node .assignment [.atom .name ⟨.name, "ac", ⟨2, 6⟩⟩, .atom .number ⟨.number, "2", ⟨2, 11⟩⟩]],
      .node .printing [.atom .name ⟨.name, "ad", ⟨3, 7⟩⟩]]

end Runs

end EmojiLang
