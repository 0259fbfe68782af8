import EmojiLang.Proofs.Grammar.Consumption
import EmojiLang.Proofs.Grammar.RoundTrip

/-!
# How far a reader looks ahead

A reader decides by the next token, and in front of a name by the token behind it as well.  So what it
has done up to some place does not depend on what stands behind that place.  Two inputs that begin alike
are read side by side, until a reader goes beyond what they have in common.

**Definitions.**
* `Reader.Exchange tail tail'`: the input may end with `tail'` instead of `tail`.  Either it is cut off
  there, or both go on with the same token, which is no name.
* `Reader.Agree tail tail' n n' r r'`: off fewer than `n` and `n'` tokens, `r` in front of `tail` and `r'`
  in front of `tail'` do the same, unless `r` takes tokens of `tail`.  The readers may differ in their
  budgets.
* `Reader.Decides`: what a reader does because of its first token.

**Results.**
* `Agree.bind`: readers in sequence, in front of both tails.
* `Agree.of_decides`: a reader that decides by its first token.
* `assigning_agree`: the one decision that looks at two tokens.
* `statement_steady` and `program_agree`: the readers of the grammar.
* `Agree.read_exchange` and `Agree.stuck_exchange`: what is read in front of one tail is read in front of
  the other, and a reader that is stuck at a token is stuck there whatever follows.
-/

namespace EmojiLang

/-- The tokens in front of which the reading has ended. -/
def Reading.left {α : Type} : Reading α → List Token
  | .read _ rest => rest
  | .stuck rest => rest

/-- Of two readings, the first one in front of `tail` and the second one in front of `tail'`: both have
read the same and left as much, or the first one is stuck at `tail` and so is the second one at `tail'`,
if that is not empty.  Nothing is said if the first one is stuck in front of `tail`, or has gone beyond
its beginning. -/
inductive Reading.Agree {α : Type} (tail tail' : List Token) : Reading α → Reading α → Prop
  | read (a : α) (kept : List Token) :
      Agree tail tail' (.read a (kept ++ tail)) (.read a (kept ++ tail'))
  | stuck {r' : Reading α} : (tail' ≠ [] → r' = .stuck tail') → Agree tail tail' (.stuck tail) r'
  | early {rest : List Token} {r' : Reading α} :
      tail.length < rest.length → Agree tail tail' (.stuck rest) r'
  | beyond {r r' : Reading α} : r.left.length < tail.length → Agree tail tail' r r'

/-- A reading that has left no more than `more` is beyond the token in front of that. -/
theorem Reading.Agree.behind {α : Type} {t : Token} {more tail' : List Token} {r r' : Reading α}
    (left : r.left <:+ more) : Agree (t :: more) tail' r r' :=
  .beyond (Nat.lt_succ_of_le left.length_le)

namespace Reader

/-- The tokens by which the end of an input may be replaced. -/
inductive Exchange : List Token → List Token → Prop
  | cut (tail : List Token) : Exchange tail []
  | same {t : Token} (unnamed : t.kind ≠ .name) (more more' : List Token) :
      Exchange (t :: more) (t :: more')

/-- Off fewer than `n` tokens, the reader leaves some of the last ones. -/
def Shrinks {α : Type} (n : Nat) (r : Reader α) : Prop :=
  ∀ ts, ts.length < n → (r ts).left <:+ ts

/-- Off fewer than `n` tokens, the reader takes at least `k`. -/
def Takes {α : Type} (n k : Nat) (r : Reader α) : Prop :=
  ∀ ts a rest, ts.length < n → r ts = .read a rest → rest.length + k ≤ ts.length

/-- Off fewer than `n` and `n'` tokens, the readers agree in front of the two tails. -/
structure Agree {α : Type} (tail tail' : List Token) (n n' : Nat) (r r' : Reader α) : Prop where
  shrinks : Shrinks n r
  agree : ∀ kept, (kept ++ tail).length < n → (kept ++ tail').length < n' →
    Reading.Agree tail tail' (r (kept ++ tail)) (r' (kept ++ tail'))

variable {α β : Type} {tail tail' : List Token} {n n' m m' k : Nat}

theorem bind_assoc {γ : Type} (r : Reader α) (f : α → Reader β) (g : β → Reader γ) :
    r >>= f >>= g = r >>= fun a => f a >>= g := by
  funext ts
  simp only [Reader.bind_apply]
  cases r ts <;> rfl

theorem bind_pure (r : Reader α) : (r >>= fun a => Pure.pure a) = r := by
  funext ts
  rw [Reader.bind_apply]
  cases r ts <;> rfl

section Taking

variable {r : Reader α} {f : α → Reader β} {P : List Token → α → Prop}

theorem Spends.shrinks (h : Spends n r P) : Shrinks n r := by
  intro ts short
  have taken := h ts short
  generalize r ts = reading at taken
  cases taken with
  | read whole _ => exact ⟨_, whole.symm⟩
  | stuck left _ => exact left

theorem Spends.takes (h : Spends n r P) (spends : ∀ used a, P used a → used ≠ []) : Takes n 1 r := by
  intro ts a rest short read
  have taken := h ts short
  rw [read] at taken
  cases taken with
  | @read used _ _ whole spent =>
      have nonempty := List.length_pos_iff.2 (spends used a spent)
      rw [whole, List.length_append]
      omega

theorem Shrinks.takes (h : Shrinks n r) : Takes n 0 r := by
  intro ts a rest short read
  have hleft := h ts short
  rw [read] at hleft
  exact hleft.length_le

theorem Takes.weaken (h : Takes n k r) (le : m ≤ n) : Takes m k r :=
  fun ts a rest short => h ts a rest (Nat.lt_of_lt_of_le short le)

theorem Takes.shrinks_bind (ht : Takes n k r) (hr : Shrinks n r) (hf : ∀ a, Shrinks (n - k) (f a)) :
    Shrinks n (r >>= f) := by
  intro ts short
  have hfirst := hr ts short
  rw [Reader.bind_apply]
  cases read : r ts with
  | stuck rest =>
      rw [read] at hfirst
      exact hfirst
  | read a rest =>
      have fewer := ht ts a rest short read
      rw [read] at hfirst
      exact (hf a rest (by omega)).trans hfirst

theorem Takes.bind (ht : Takes n k r) (hf : ∀ a, Shrinks (n - k) (f a)) : Takes n k (r >>= f) := by
  intro ts b rest short read
  rw [Reader.bind_apply] at read
  cases hfirst : r ts with
  | stuck left =>
      rw [hfirst] at read
      cases read
  | read a left =>
      simp only [hfirst] at read
      have fewer := ht ts a left short hfirst
      have last := hf a left (by omega)
      rw [read] at last
      exact Nat.le_trans (Nat.add_le_add_right last.length_le k) fewer

end Taking

namespace Agree

variable {r r' : Reader α} {f f' : α → Reader β}

theorem weaken (h : Agree tail tail' n n' r r') (le : m ≤ n) (le' : m' ≤ n') :
    Agree tail tail' m m' r r' where
  shrinks ts short := h.shrinks ts (Nat.lt_of_lt_of_le short le)
  agree kept fits fits' := h.agree kept (Nat.lt_of_lt_of_le fits le) (Nat.lt_of_lt_of_le fits' le')

theorem fewer (h : Agree tail tail' n n' r r') : Agree tail tail' (n - 1) (n' - 1) r r' :=
  h.weaken (Nat.sub_le n 1) (Nat.sub_le n' 1)

/-- No tokens fit in front of the first tail. -/
theorem of_zero (exhausted : n ≤ 0) : Agree tail tail' n n' r r' where
  shrinks _ short := by omega
  agree _ fits _ := by omega

/-- No tokens fit in front of the second tail. -/
theorem of_shrinks_zero (h : Shrinks n r) (exhausted : n' ≤ 0) : Agree tail tail' n n' r r' where
  shrinks := h
  agree _ _ fits' := by omega

theorem pure (a : α) : Agree tail tail' n n' (Pure.pure a) (Pure.pure a) where
  shrinks _ _ := List.suffix_rfl
  agree kept _ _ := .read a kept

/-- Readers in sequence.  The second one has fewer tokens in front of it, by those that the first one is
known to take. -/
theorem bind_taking (hr : Agree tail tail' n n' r r') (takes : Takes n k r)
    (hf : ∀ a, Agree tail tail' (n - k) (n' - k) (f a) (f' a)) :
    Agree tail tail' n n' (r >>= f) (r' >>= f') where
  shrinks := takes.shrinks_bind hr.shrinks fun a => (hf a).shrinks
  agree kept fits fits' := by
    have taken := takes (kept ++ tail)
    have hfirst := hr.agree kept fits fits'
    rw [Reader.bind_apply, Reader.bind_apply]
    generalize r (kept ++ tail) = reading, r' (kept ++ tail') = reading' at hfirst taken
    simp only [List.length_append] at fits fits' taken
    cases hfirst with
    | read a less =>
        have fewer := taken a _ fits rfl
        rw [List.length_append] at fewer
        refine (hf a).agree less ?_ ?_ <;> rw [List.length_append] <;> omega
    | stuck same =>
        refine .stuck fun goesOn => ?_
        rw [same goesOn]
    | early before => exact .early before
    | beyond short =>
        refine .beyond ?_
        cases reading with
        | stuck rest => exact short
        | read a rest =>
            have fewer := taken a rest fits rfl
            have hleft := (hf a).shrinks rest (by omega)
            exact Nat.lt_of_le_of_lt hleft.length_le short

theorem bind (hr : Agree tail tail' n n' r r') (hf : ∀ a, Agree tail tail' n n' (f a) (f' a)) :
    Agree tail tail' n n' (r >>= f) (r' >>= f') :=
  hr.bind_taking hr.shrinks.takes hf

/-- What has been read in front of one tail is read in front of the other. -/
theorem read_exchange (h : Agree tail tail' n n' r r') {kept less : List Token} {a : α}
    (fits : (kept ++ tail).length < n) (fits' : (kept ++ tail').length < n')
    (read : r (kept ++ tail) = .read a (less ++ tail)) :
    r' (kept ++ tail') = .read a (less ++ tail') := by
  have both := h.agree kept fits fits'
  generalize r (kept ++ tail) = reading, r' (kept ++ tail') = reading' at both read
  cases both with
  | read b other =>
      injection read with same left
      rw [same, List.append_cancel_right left]
  | stuck _ => cases read
  | early _ => cases read
  | beyond short =>
      rw [read] at short
      simp only [Reading.left, List.length_append] at short
      omega

/-- A reader that is stuck at the first tail is stuck at the other one. -/
theorem stuck_exchange (h : Agree tail tail' n n' r r') (nonempty : tail' ≠ []) {kept : List Token}
    (fits : (kept ++ tail).length < n) (fits' : (kept ++ tail').length < n')
    (stuck : r (kept ++ tail) = .stuck tail) : r' (kept ++ tail') = .stuck tail' := by
  have both := h.agree kept fits fits'
  generalize r (kept ++ tail) = reading, r' (kept ++ tail') = reading' at both stuck
  cases both with
  | read _ _ => cases stuck
  | stuck same => exact same nonempty
  | early before =>
      injection stuck with same
      rw [same] at before
      exact absurd before (Nat.lt_irrefl _)
  | beyond short =>
      rw [stuck] at short
      exact absurd short (Nat.lt_irrefl _)

end Agree

section Deciding

/-- What the readers do at the token `t`, whatever follows it: they stay where they are, as they do at
the end of the input; they are stuck; they take the token and go on; or they leave it to other readers,
which take at least one token or do the same at the end of the input. -/
inductive Decides (tail tail' : List Token) (n n' : Nat) (r r' : Reader α) (t : Token) : Prop
  | stay (a : α) : (∀ rest, r (t :: rest) = .read a (t :: rest)) →
      (∀ rest, r' (t :: rest) = .read a (t :: rest)) → r' [] = .read a [] → Decides tail tail' n n' r r' t
  | refuse : (∀ rest, r (t :: rest) = .stuck (t :: rest)) →
      (∀ rest, r' (t :: rest) = .stuck (t :: rest)) → Decides tail tail' n n' r r' t
  | take {g g' : Reader α} : Agree tail tail' (n - 1) (n' - 1) g g' →
      (∀ rest, r (t :: rest) = g rest) → (∀ rest, r' (t :: rest) = g' rest) →
      Decides tail tail' n n' r r' t
  | pass {g g' : Reader α} : Agree tail tail' n n' g g' → (Takes n 1 g ∨ r' [] = g' []) →
      (∀ rest, r (t :: rest) = g (t :: rest)) → (∀ rest, r' (t :: rest) = g' (t :: rest)) →
      Decides tail tail' n n' r r' t

variable {r r' : Reader α}

/-- A reading that has taken a token is not asked to stay where it is. -/
theorem retarget {reading reading' : Reading α} (h : Reading.Agree tail [] reading reading')
    (takes : ∀ a rest, reading = .read a rest → rest.length < tail.length) (other : Reading α) :
    Reading.Agree tail [] reading other := by
  cases h with
  | read a kept =>
      have fewer := takes a _ rfl
      rw [List.length_append] at fewer
      omega
  | stuck _ => exact .stuck fun goesOn => absurd rfl goesOn
  | early before => exact .early before
  | beyond short => exact .beyond short

namespace Decides

variable {t : Token}

/-- At a token that both inputs have in front of their tails. -/
theorem agree_kept (h : Decides tail tail' n n' r r' t) {kept : List Token}
    (fits : (t :: kept ++ tail).length < n) (fits' : (t :: kept ++ tail').length < n') :
    Reading.Agree tail tail' (r (t :: kept ++ tail)) (r' (t :: kept ++ tail')) := by
  cases h with
  | stay a here here' _ =>
      rw [List.cons_append, List.cons_append, here, here']
      exact .read a (t :: kept)
  | refuse here here' =>
      rw [List.cons_append, List.cons_append, here, here']
      refine .early ?_
      simp only [List.length_cons, List.length_append]
      omega
  | take both here here' =>
      rw [List.cons_append, List.length_cons] at fits fits'
      rw [List.cons_append, List.cons_append, here, here']
      exact both.agree kept (by omega) (by omega)
  | pass both _ here here' =>
      rw [List.cons_append, List.cons_append, here, here']
      exact both.agree (t :: kept) fits fits'

/-- At a token that both tails begin with. -/
theorem agree_same {more more' : List Token}
    (h : Decides (t :: more) (t :: more') n n' r r' t) (fits : (t :: more).length < n)
    (fits' : (t :: more').length < n') :
    Reading.Agree (t :: more) (t :: more') (r (t :: more)) (r' (t :: more')) := by
  cases h with
  | stay a here here' _ =>
      rw [here, here']
      exact .read a []
  | refuse here here' =>
      rw [here, here']
      exact .stuck fun _ => rfl
  | take both here _ =>
      rw [List.length_cons] at fits
      rw [here]
      exact .behind (both.shrinks more (by omega))
  | pass both _ here here' =>
      rw [here, here']
      exact both.agree [] fits fits'

/-- At the first token of a tail in whose place the other input ends. -/
theorem agree_cut {more : List Token} (h : Decides (t :: more) [] n n' r r' t)
    (fits : (t :: more).length < n) (fits' : 0 < n') :
    Reading.Agree (t :: more) [] (r (t :: more)) (r' []) := by
  cases h with
  | stay a here _ ends =>
      rw [here, ends]
      exact .read a []
  | refuse here _ =>
      rw [here]
      exact .stuck fun goesOn => absurd rfl goesOn
  | take both here _ =>
      rw [List.length_cons] at fits
      rw [here]
      exact .behind (both.shrinks more (by omega))
  | pass both ends here _ =>
      have passed := both.agree [] fits fits'
      rw [List.nil_append, List.nil_append] at passed
      rw [here]
      rcases ends with takes | same
      · exact retarget passed (fun a rest => takes _ a rest fits) _
      · rwa [same]

end Decides

/-- Readers that decide by their first token agree if they agree in each of their decisions. -/
theorem Agree.of_decides (x : Exchange tail tail') (shrinks : Shrinks n r)
    (atEnd : r [] = .stuck [] ∨ ∃ a, r [] = .read a [] ∧ r' [] = .read a [])
    (decides : ∀ t, Decides tail tail' n n' r r' t) : Agree tail tail' n n' r r' where
  shrinks := shrinks
  agree kept fits fits' := by
    cases kept with
    | cons t kept => exact (decides t).agree_kept fits fits'
    | nil =>
        cases x with
        | @same t unnamed more more' => exact (decides t).agree_same fits fits'
        | cut =>
            cases tail with
            | cons t more => exact (decides t).agree_cut fits fits'
            | nil =>
                rcases atEnd with stuck | ⟨a, here, here'⟩
                · rw [List.nil_append, stuck]
                  exact .stuck fun goesOn => absurd rfl goesOn
                · rw [List.nil_append, here, here']
                  exact .read a []

end Deciding

end Reader

namespace Grammar

open Reader EmojiLang.Tree

/-- The readers agree, and what they read is a tree that they have taken tokens for. -/
structure Steady (tail tail' : List Token) (n n' : Nat) (r r' : Reader Tree) : Prop where
  spends : Spends n r SpentOn
  agree : Agree tail tail' n n' r r'

variable {tail tail' : List Token} {n n' m m' budget budget' : Nat}

theorem Steady.weaken {r r' : Reader Tree} (h : Steady tail tail' n n' r r') (le : m ≤ n) (le' : m' ≤ n') :
    Steady tail tail' m m' r r' :=
  ⟨h.spends.weaken le, h.agree.weaken le le'⟩

theorem Steady.fewer {r r' : Reader Tree} (h : Steady tail tail' n n' r r') :
    Steady tail tail' (n - 1) (n' - 1) r r' :=
  h.weaken (Nat.sub_le n 1) (Nat.sub_le n' 1)

theorem Steady.takes {r r' : Reader Tree} (h : Steady tail tail' n n' r r') : Takes n 1 r :=
  h.spends.takes fun _ _ spent => spent.1

variable (x : Exchange tail tail')
include x

section Expressions

theorem accept_agree (text : String) (dropped : text ∈ Token.droppedTexts) :
    Agree tail tail' n n' (accept text) (accept text) := by
  refine .of_decides x (accept_spends dropped n).shrinks (.inr ⟨false, rfl, rfl⟩) fun t => ?_
  by_cases spelled : t.spells text = true
  · have stepped (rest : List Token) : accept text (t :: rest) = .read true rest := by
      simp only [accept, spelled, if_true]
    exact .take (.pure true) stepped stepped
  · have stays (rest : List Token) : accept text (t :: rest) = .read false (t :: rest) := by
      simp only [accept, spelled, Bool.false_eq_true, if_false]
    exact .stay false stays stays rfl

theorem links_agree {signs : List String} (own : ∀ text ∈ signs, text ∉ Token.droppedTexts)
    {operand operand' : Reader Tree} (h : Steady tail tail' n n' operand operand')
    (enough : n ≤ budget) (enough' : n' ≤ budget') :
    Agree tail tail' n n' (links signs operand budget) (links signs operand' budget') := by
  induction budget generalizing n n' budget' with
  | zero => exact .of_zero enough
  | succ budget ih =>
      have spends := links_spends own h.spends enough
      cases budget' with
      | zero => exact .of_shrinks_zero spends.shrinks enough'
      | succ budget' =>
          refine .of_decides x spends.shrinks (.inr ⟨[], rfl, rfl⟩) fun t => ?_
          by_cases spelled : t.spellsAny signs = true
          · have others : Agree tail tail' (n - 1) (n' - 1) (links signs operand budget)
                (links signs operand' budget') := ih h.fewer (by omega) (by omega)
            refine .take (h.fewer.agree.bind fun right => others.bind fun more =>
              .pure (.leaf t :: right :: more)) ?_ ?_
            all_goals
              intro rest
              simp only [links, spelled, if_true]
          · refine .stay [] ?_ ?_ rfl
            all_goals
              intro rest
              simp only [links, spelled, Bool.false_eq_true, if_false]

theorem level_steady (kind : NodeKind) (signs : List String)
    (own : ∀ text ∈ signs, text ∉ Token.droppedTexts) {operand operand' : Reader Tree}
    (h : Steady tail tail' n n' operand operand') (enough : n ≤ budget) (enough' : n' ≤ budget') :
    Steady tail tail' n n' (level kind signs budget operand) (level kind signs budget' operand') where
  spends := level_spends kind own h.spends enough
  agree := h.agree.bind fun _ => (links_agree x own h enough enough').bind fun _ => .pure _

theorem operand_steady {inner inner' : Reader Tree} (h : Steady tail tail' n n' inner inner') :
    Steady tail tail' (n + 1) (n' + 1) (operand inner) (operand inner') := by
  have spends := operand_spends h.spends
  refine ⟨spends, .of_decides x spends.shrinks (.inl rfl) fun t => ?_⟩
  cases own : operandKind t.kind with
  | some kind =>
      refine .take (.pure (.atom kind t)) ?_ ?_
      all_goals
        intro rest
        simp only [operand, own, Reader.pure_apply]
  | none =>
      by_cases opens : t.spells "(" = true
      · refine .take (h.agree.bind fun e => (accept_agree x ")" (by decide)).bind fun _ => .pure e)
          ?_ ?_
        all_goals
          intro rest
          simp only [operand, own, opens, if_true]
      · refine .refuse ?_ ?_
        all_goals
          intro rest
          simp only [operand, own, opens, Bool.false_eq_true, if_false]

theorem unary_steady {inner inner' : Reader Tree} (h : Steady tail tail' n n' inner inner') :
    Steady tail tail' (n + 1) (n' + 1) (unary inner) (unary inner') := by
  have operands := operand_steady x h
  have spends := unary_spends h.spends
  refine ⟨spends, .of_decides x spends.shrinks (.inl rfl) fun t => ?_⟩
  by_cases negates : t.spellsAny unarySigns = true
  · refine .take (operands.fewer.agree.bind fun e => .pure (.node .unary [.leaf t, e])) ?_ ?_
    all_goals
      intro rest
      simp only [unary, negates, if_true]
  · refine .pass operands.agree (.inr rfl) ?_ ?_
    all_goals
      intro rest
      simp only [unary, negates, Bool.false_eq_true, if_false]

/-- An expression does not depend on its budget, as long as that lasts, nor on what stands behind it. -/
theorem expression_steady (budget budget' : Nat) :
    Steady tail tail' budget budget' (expression budget) (expression budget') := by
  induction budget generalizing budget' with
  | zero => exact ⟨expression_spends 0, .of_zero (Nat.le_refl 0)⟩
  | succ budget ih =>
      cases budget' with
      | zero =>
          have spends := expression_spends (budget + 1)
          exact ⟨spends, .of_shrinks_zero spends.shrinks (Nat.le_refl 0)⟩
      | succ budget' =>
          have enough := Nat.le_refl (budget + 1)
          have enough' := Nat.le_refl (budget' + 1)
          have products := level_steady x .product productSigns (by decide)
            (unary_steady x (ih budget')) enough enough'
          have sums := level_steady x .sum sumSigns (by decide) products enough enough'
          have comparisons :=
            level_steady x .comparison comparisonSigns (by decide) sums enough enough'
          have conjunctions :=
            level_steady x .conjunction andSigns (by decide) comparisons enough enough'
          exact level_steady x .disjunction orSigns (by decide) conjunctions enough enough'

omit x in
/-- There is no expression without tokens. -/
theorem expression_nil (budget : Nat) : expression budget [] = .stuck [] := by
  cases budget <;> rfl

end Expressions

section Assignments

/-- To look two tokens ahead makes a difference only if the first reader takes both of them. -/
theorem assignmentAhead_exchange (kept : List Token) :
    assignmentAhead (kept ++ tail') = assignmentAhead (kept ++ tail) ∨
      assignmentAhead (kept ++ tail) = true ∧ kept.length ≤ 1 := by
  match kept, x with
  | first :: second :: kept, _ => exact Or.inl rfl
  | [first], .same _ _ _ => exact Or.inl rfl
  | [], .same unnamed more more' =>
      refine Or.inl ?_
      rw [List.nil_append, List.nil_append, assignmentAhead_of_ne_name unnamed,
        assignmentAhead_of_ne_name unnamed]
  | [first], .cut tail =>
      by_cases ahead : assignmentAhead ([first] ++ tail) = true
      · exact Or.inr ⟨ahead, Nat.le_refl 1⟩
      · refine Or.inl ?_
        rw [Bool.eq_false_iff.2 ahead]
        rfl
  | [], .cut tail =>
      by_cases ahead : assignmentAhead ([] ++ tail) = true
      · exact Or.inr ⟨ahead, Nat.zero_le 1⟩
      · refine Or.inl ?_
        rw [Bool.eq_false_iff.2 ahead]
        rfl

omit x in
/-- Without any token in common, at most one of the inputs goes on with an assignment. -/
theorem assignmentAhead_tail (x : Exchange tail tail') : assignmentAhead tail' = false := by
  cases x with
  | cut => rfl
  | same unnamed more more' => exact assignmentAhead_of_ne_name unnamed more'

/-- An assignment where one comes next, and something else where none does. -/
def assigning {α : Type} (inner : Reader Tree) (next : Tree → Reader α) (other : Reader α) : Reader α :=
  fun ts => if assignmentAhead ts then (assignment inner >>= next) ts else other ts

/-- What comes behind the name of an assignment. -/
def behindName {α : Type} (inner : Reader Tree) (next : Tree → Reader α) (name : Token) : Reader α := do
  let _ ← accept "="
  let right ← inner
  next (.node .assignment [.atom .name name, right])

variable {α : Type} {inner inner' : Reader Tree} {next next' : Tree → Reader α}
  {other other' : Reader α}

omit x in
theorem assignment_bind_cons (inner : Reader Tree) (next : Tree → Reader α) (name : Token)
    (rest : List Token) :
    (assignment inner >>= next) (name :: rest) = behindName inner next name rest := by
  have spelledOut : (assignment inner >>= next) (name :: rest) =
      (accept "=" >>= (fun _ => inner >>= fun right =>
        Pure.pure (Tree.node .assignment [.atom .name name, right])) >>= next) rest := rfl
  rw [spelledOut, Reader.bind_assoc]
  simp only [Reader.bind_assoc]
  rfl

omit x in
/-- The assignment takes its name and the sign behind it. -/
theorem assignment_left (hi : Shrinks (n - 1) inner) (hn : ∀ t, Shrinks (n - 1) (next t)) {ts : List Token}
    (ahead : assignmentAhead ts = true) (short : ts.length < n) :
    ((assignment inner >>= next) ts).left.length + 2 ≤ ts.length := by
  match ts, ahead with
  | name :: sign :: more, ahead =>
      simp only [assignmentAhead, Bool.and_eq_true] at ahead
      rw [List.length_cons, List.length_cons] at short ⊢
      have value : Shrinks (n - 1) (inner >>= fun right =>
          next (.node .assignment [.atom .name name, right])) :=
        hi.takes.shrinks_bind hi fun right => hn _
      have hleft := (value more (by omega)).length_le
      rw [assignment_bind_cons, behindName, Reader.bind_apply]
      simp only [accept, ahead.2, if_true]
      omega

theorem assigning_agree (hi : Agree tail tail' n n' inner inner')
    (hn : ∀ t, Agree tail tail' (n - 1) (n' - 1) (next t) (next' t))
    (ho : Agree tail tail' n n' other other') :
    Agree tail tail' n n' (assigning inner next other) (assigning inner' next' other') := by
  have behind (name : Token) : Agree tail tail' (n - 1) (n' - 1) (behindName inner next name)
      (behindName inner' next' name) :=
    (accept_agree x "=" (by decide)).bind fun _ => hi.fewer.bind fun right => hn _
  constructor
  · intro ts short
    unfold assigning
    split
    · next ahead =>
        match ts, ahead with
        | name :: rest, _ =>
            rw [List.length_cons] at short
            rw [assignment_bind_cons]
            exact ((behind name).shrinks rest (by omega)).trans (List.suffix_cons name rest)
    · exact ho.shrinks ts short
  · intro kept fits fits'
    unfold assigning
    rcases assignmentAhead_exchange x kept with same | ⟨ahead, short⟩
    · rw [same]
      split
      · next ahead =>
          cases kept with
          | nil =>
              rw [← same, List.nil_append, assignmentAhead_tail x] at ahead
              cases ahead
          | cons name kept =>
              rw [List.cons_append, List.length_cons] at fits fits'
              rw [List.cons_append, List.cons_append, assignment_bind_cons, assignment_bind_cons]
              exact (behind name).agree kept (by omega) (by omega)
      · exact ho.agree kept fits fits'
    · -- the first of the inputs has lost a token of its tail to the assignment
      have hleft := assignment_left hi.fewer.shrinks (fun t => (hn t).shrinks) ahead fits
      refine .beyond ?_
      rw [if_pos ahead]
      rw [List.length_append] at hleft
      omega

end Assignments

section Statements

variable {inner inner' single single' : Reader Tree}

theorem rowTail_agree {row row' : Reader (List Tree)} (h : Agree tail tail' n n' row row')
    (first : Tree) : Agree tail tail' n n' (rowTail row first) (rowTail row' first) := by
  refine (accept_agree x "," (by decide)).bind fun goesOn => ?_
  cases goesOn with
  | true => exact h.bind fun more => .pure (first :: more)
  | false => exact .pure [first]

theorem entryTail_agree (h : Agree tail tail' n n' inner inner') (name : Token) :
    Agree tail tail' n n' (entryTail inner name) (entryTail inner' name) := by
  refine (accept_agree x "=" (by decide)).bind fun given => ?_
  cases given with
  | true => exact h.bind fun right => .pure (Tree.node .assignment [.atom .name name, right])
  | false => exact .pure (Tree.atom .name name)

theorem entries_agree (h : Steady tail tail' n n' inner inner') (enough : n ≤ budget)
    (enough' : n' ≤ budget') :
    Agree tail tail' n n' (entries inner budget) (entries inner' budget') := by
  induction budget generalizing n n' budget' with
  | zero => exact .of_zero enough
  | succ budget ih =>
      have shrinks := (entries_spends h.spends enough).shrinks
      cases budget' with
      | zero => exact .of_shrinks_zero shrinks enough'
      | succ budget' =>
          refine .of_decides x shrinks (.inr ⟨[], rfl, rfl⟩) fun t => ?_
          by_cases named : t.kind = .name
          · have others : Agree tail tail' (n - 1) (n' - 1) (entries inner budget)
                (entries inner' budget') := ih h.fewer (by omega) (by omega)
            exact .take ((entryTail_agree x h.fewer.agree t).bind (rowTail_agree x others))
              (entries_succ inner budget named) (entries_succ inner' budget' named)
          · refine .stay [] ?_ ?_ rfl
            all_goals
              intro rest
              simp only [entries, named, if_false]

theorem declaration_agree (h : Steady tail tail' n n' inner inner') (enough : n ≤ budget)
    (enough' : n' ≤ budget') :
    Agree tail tail' n n' (declaration inner budget) (declaration inner' budget') :=
  (entries_agree x h enough enough').bind fun _ => .pure _

theorem printing_agree (h : Agree tail tail' n n' inner inner') :
    Agree tail tail' n n' (printing inner) (printing inner') :=
  (accept_agree x "(" (by decide)).bind fun _ => h.bind fun _ =>
    (accept_agree x ")" (by decide)).bind fun _ => .pure _

theorem updates_agree (h : Steady tail tail' n n' inner inner') (enough : n ≤ budget)
    (enough' : n' ≤ budget') :
    Agree tail tail' n n' (updates inner budget) (updates inner' budget') := by
  induction budget generalizing n n' budget' with
  | zero => exact .of_zero enough
  | succ budget ih =>
      cases budget' with
      | zero => exact .of_shrinks_zero (updates_spends h.spends enough).shrinks enough'
      | succ budget' =>
          have others : Agree tail tail' (n - 1) (n' - 1) (updates inner budget)
              (updates inner' budget') := ih h.fewer (by omega) (by omega)
          exact assigning_agree x h.agree (rowTail_agree x others) (.pure [])

theorem forInit_agree (h : Steady tail tail' n n' inner inner') (enough : n ≤ budget)
    (enough' : n' ≤ budget') :
    Agree tail tail' n n' (forInit inner budget) (forInit inner' budget') := by
  have assigned := assigning_agree x h.agree
    (fun start => .pure (Tree.node .forInit [start])) (.pure (.node .forInit []))
  refine .of_decides x (forInit_spends h.spends enough).shrinks (.inr ⟨_, rfl, rfl⟩) fun t => ?_
  by_cases declares : t.spells "decl" = true
  · have declared : Agree tail tail' (n - 1) (n' - 1) (declaration inner budget)
        (declaration inner' budget') := declaration_agree x h.fewer (by omega) (by omega)
    refine .take (declared.bind fun start => .pure (.node .forInit [start])) ?_ ?_
    all_goals
      intro rest
      simp only [forInit, declares, if_true]
  · refine .pass assigned (.inr rfl) ?_ ?_
    all_goals
      intro rest
      simp only [forInit, declares, Bool.false_eq_true, if_false]
      rfl

omit x in
theorem forTest_bind {α : Type} (inner : Reader Tree) (next : Tree → Reader α) {ts : List Token}
    (given : ahead ";" ts = false) :
    (forTest inner >>= next) ts = (inner >>= fun e => next (.node .forTest [e])) ts := by
  simp only [Reader.bind_apply, forTest, given, Bool.false_eq_true, if_false]
  cases inner ts <;> rfl

/-- The test of a counting loop together with the semicolon behind it.  The test alone does depend on
that semicolon, by which it is known to be missing. -/
theorem forTest_agree {α : Type} {next next' : Tree → Reader α}
    (h : Steady tail tail' n n' inner inner') (refuses : inner [] = .stuck [])
    (hn : ∀ t, Agree tail tail' n n' (next t) (next' t)) :
    Agree tail tail' n n' (forTest inner >>= fun test => accept ";" >>= fun _ => next test)
      (forTest inner' >>= fun test => accept ";" >>= fun _ => next' test) := by
  have semicolon (t : Tree) : Agree tail tail' n n' (accept ";" >>= fun _ => next t)
      (accept ";" >>= fun _ => next' t) := (accept_agree x ";" (by decide)).bind fun _ => hn t
  have test := (forTest_spends h.spends).shrinks
  refine .of_decides x (test.takes.shrinks_bind test fun t => (semicolon t).shrinks) ?_ fun t => ?_
  · refine Or.inl ?_
    rw [forTest_bind inner _ rfl, Reader.bind_apply, refuses]
  · by_cases missing : t.spells ";" = true
    · refine .take (hn (.node .forTest [])).fewer ?_ ?_
      all_goals
        intro rest
        simp [Reader.bind_apply, forTest, ahead, accept, missing]
    · have given (rest : List Token) : ahead ";" (t :: rest) = false := Bool.eq_false_iff.2 missing
      refine .pass (h.agree.bind fun e => semicolon (.node .forTest [e])) (.inr ?_)
        (fun rest => forTest_bind inner _ (given rest)) (fun rest => forTest_bind inner' _ (given rest))
      rw [forTest_bind inner' _ rfl]

theorem body_agree (hs : Steady tail tail' n n' single single') (enough : n ≤ budget)
    (enough' : n' ≤ budget') :
    Agree tail tail' n n' (body single budget) (body single' budget') := by
  induction budget generalizing n n' budget' with
  | zero => exact .of_zero enough
  | succ budget ih =>
      have shrinks := (body_spends hs.spends enough).shrinks
      cases budget' with
      | zero => exact .of_shrinks_zero shrinks enough'
      | succ budget' =>
          have others : Agree tail tail' (n - 1) (n' - 1) (body single budget)
              (body single' budget') := ih hs.fewer (by omega) (by omega)
          have following (first : Tree) := others.bind fun more => .pure (first :: more)
          refine .of_decides x shrinks (.inr ⟨[], rfl, rfl⟩) fun t => ?_
          by_cases closes : t.spells "\x7d" = true
          · refine .stay [] ?_ ?_ rfl
            all_goals
              intro rest
              simp [body, ahead, closes]
          · refine .pass (hs.agree.bind_taking hs.takes following)
              (.inl (hs.takes.bind fun first => (following first).shrinks)) ?_ ?_
            all_goals
              intro rest
              simp only [body, ahead, closes, List.isEmpty_cons, Bool.or_self, Bool.false_eq_true,
                if_false]

theorem block_agree (hs : Steady tail tail' n n' single single') (enough : n ≤ budget)
    (enough' : n' ≤ budget') :
    Agree tail tail' n n' (block single budget) (block single' budget') :=
  (accept_agree x "\x7b" (by decide)).bind fun _ => (body_agree x hs enough enough').bind fun _ =>
    (accept_agree x "\x7d" (by decide)).bind fun _ => .pure _

variable (h : Steady tail tail' n n' inner inner') (hs : Steady tail tail' n n' single single')
include h hs

theorem guarded_agree (enough : n ≤ budget) (enough' : n' ≤ budget') :
    Agree tail tail' n n' (guarded inner single budget) (guarded inner' single' budget') :=
  (accept_agree x "(" (by decide)).bind fun _ => h.agree.bind fun _ =>
    (accept_agree x ")" (by decide)).bind fun _ => (block_agree x hs enough enough').bind fun _ =>
      .pure _

theorem branches_agree (enough : n ≤ budget) (enough' : n' ≤ budget') :
    Agree tail tail' n n' (branches inner single budget) (branches inner' single' budget') := by
  induction budget generalizing n n' budget' with
  | zero => exact .of_zero enough
  | succ budget ih =>
      have shrinks := (branches_spends h.spends hs.spends enough).shrinks
      cases budget' with
      | zero => exact .of_shrinks_zero shrinks enough'
      | succ budget' =>
          have others : Agree tail tail' (n - 1) (n' - 1) (branches inner single budget)
              (branches inner' single' budget') := ih h.fewer hs.fewer (by omega) (by omega)
          have guards : Agree tail tail' (n - 1) (n' - 1) (guarded inner single budget)
              (guarded inner' single' budget') :=
            guarded_agree x h.fewer hs.fewer (by omega) (by omega)
          have last : Agree tail tail' (n - 1) (n' - 1) (block single budget)
              (block single' budget') := block_agree x hs.fewer (by omega) (by omega)
          refine .of_decides x shrinks (.inr ⟨[], rfl, rfl⟩) fun t => ?_
          by_cases tests : t.spells "elif" = true
          · refine .take (guards.bind fun branch => others.bind fun more =>
              .pure (.leaf t :: branch ++ more)) ?_ ?_
            all_goals
              intro rest
              simp only [branches, tests, if_true]
          · by_cases closes : t.spells "else" = true
            · refine .take (last.bind fun inside => .pure [.leaf t, inside]) ?_ ?_
              all_goals
                intro rest
                simp only [branches, tests, closes, Bool.false_eq_true, if_false, if_true]
            · refine .stay [] ?_ ?_ rfl
              all_goals
                intro rest
                simp only [branches, tests, closes, Bool.false_eq_true, if_false]

theorem conditional_agree (enough : n ≤ budget) (enough' : n' ≤ budget') (t : Token) :
    Agree tail tail' n n' (conditional inner single budget t) (conditional inner' single' budget' t) :=
  (guarded_agree x h hs enough enough').bind fun _ =>
    (branches_agree x h hs enough enough').bind fun _ => .pure _

theorem whileLoop_agree (enough : n ≤ budget) (enough' : n' ≤ budget') :
    Agree tail tail' n n' (whileLoop inner single budget) (whileLoop inner' single' budget') :=
  (guarded_agree x h hs enough enough').bind fun _ => .pure _

theorem forLoop_agree (refuses : inner [] = .stuck []) (enough : n ≤ budget) (enough' : n' ≤ budget') :
    Agree tail tail' n n' (forLoop inner single budget) (forLoop inner' single' budget') :=
  (accept_agree x "(" (by decide)).bind fun _ => (forInit_agree x h enough enough').bind fun _ =>
    (accept_agree x ";" (by decide)).bind fun _ => forTest_agree x h refuses fun _ =>
      (updates_agree x h enough enough').bind fun _ => (accept_agree x ")" (by decide)).bind fun _ =>
        (block_agree x hs enough enough').bind fun _ => .pure _

end Statements

/-- A statement does not depend on its budget, as long as that lasts, nor on what stands behind it. -/
theorem statement_steady (budget budget' : Nat) :
    Steady tail tail' budget budget' (statement budget) (statement budget') := by
  refine ⟨statement_spends budget, ?_⟩
  induction budget generalizing budget' with
  | zero => exact .of_zero (Nat.le_refl 0)
  | succ budget ih =>
      have shrinks := (statement_spends (budget + 1)).shrinks
      cases budget' with
      | zero => exact .of_shrinks_zero shrinks (Nat.le_refl 0)
      | succ budget' =>
          have expressions := expression_steady x (budget + 1) (budget' + 1)
          have less := expressions.fewer
          have inside : Steady tail tail' budget budget' (statement budget) (statement budget') :=
            ⟨statement_spends budget, ih budget'⟩
          have enough : budget ≤ budget + 1 := Nat.le_succ budget
          have enough' : budget' ≤ budget' + 1 := Nat.le_succ budget'
          have assigned := assigning_agree x expressions.agree (fun t => .pure t) expressions.agree
          refine .of_decides x shrinks (.inl rfl) fun t => ?_
          by_cases declares : t.spells "decl" = true
          · refine .take (declaration_agree x less enough enough') ?_ ?_
            all_goals
              intro rest
              simp only [statement, declares, if_true]
          by_cases prints : t.spells "print" = true
          · refine .take (printing_agree x less.agree) ?_ ?_
            all_goals
              intro rest
              simp only [statement, declares, prints, Bool.false_eq_true, if_false, if_true]
          by_cases tests : t.spells "if" = true
          · refine .take (conditional_agree x less inside enough enough' t) ?_ ?_
            all_goals
              intro rest
              simp only [statement, declares, prints, tests, Bool.false_eq_true, if_false, if_true]
          by_cases loops : t.spells "while" = true
          · refine .take (whileLoop_agree x less inside enough enough') ?_ ?_
            all_goals
              intro rest
              simp only [statement, declares, prints, tests, loops, Bool.false_eq_true, if_false,
                if_true]
          by_cases counts : t.spells "for" = true
          · refine .take (forLoop_agree x less inside (expression_nil _) enough enough') ?_ ?_
            all_goals
              intro rest
              simp only [statement, declares, prints, tests, loops, counts, Bool.false_eq_true,
                if_false, if_true]
          by_cases jumps : t.spellsAny ["break", "continue"] = true
          · refine .take (.pure (.node .jump [.leaf t])) ?_ ?_
            all_goals
              intro rest
              simp only [statement, declares, prints, tests, loops, counts, jumps,
                Bool.false_eq_true, if_false, if_true, Reader.pure_apply]
          refine .pass assigned (.inr (expression_nil (budget' + 1)).symm) ?_ ?_
          all_goals
            intro rest
            simp only [statement, declares, prints, tests, loops, counts, jumps,
              Bool.false_eq_true, if_false, assigning, Reader.bind_pure]

/-- The statements of a program, up to where the first of the readers goes beyond its tail. -/
theorem statements_agree {single single' : Reader Tree} (hs : Steady tail tail' n n' single single')
    (enough : n ≤ budget) (enough' : n' ≤ budget') :
    Agree tail tail' n n' (statements single budget) (statements single' budget') := by
  induction budget generalizing n n' budget' with
  | zero => exact .of_zero enough
  | succ budget ih =>
      have shrinks := (statements_spends hs.spends enough).shrinks
      cases budget' with
      | zero => exact .of_shrinks_zero shrinks enough'
      | succ budget' =>
          have others : Agree tail tail' (n - 1) (n' - 1) (statements single budget)
              (statements single' budget') := ih hs.fewer (by omega) (by omega)
          have following (first : Tree) := others.bind fun more => .pure (first :: more)
          refine .of_decides x shrinks (.inr ⟨[], rfl, rfl⟩) fun t => ?_
          exact .pass (hs.agree.bind_taking hs.takes following)
            (.inl (hs.takes.bind fun first => (following first).shrinks)) (fun _ => rfl) (fun _ => rfl)

theorem program_agree (budget budget' : Nat) :
    Agree tail tail' budget budget' (program budget) (program budget') :=
  (statements_agree x (statement_steady x budget budget') (Nat.le_refl _) (Nat.le_refl _)).bind
    fun _ => .pure _

end Grammar

end EmojiLang
