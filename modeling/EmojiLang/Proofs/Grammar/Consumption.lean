import EmojiLang.Proofs.Token.Placement
import EmojiLang.Tree.Parser
import Mathlib.Tactic.SplitIfs

/-!
# Where the tokens go

A reader takes tokens off the head of the input.  Those that it keeps in its tree it keeps in order,
and those that it does not keep are delimiters, assignment signs, or keywords whose node says the same.
Where it is stuck, the next token is none that an operand can begin with.

**Definitions.**
* `Token.isDropped`: the tokens that no tree keeps.
* `Reader.Spends n r P`: off fewer than `n` tokens, what `r` reads is related by `P` to the tokens that
  it has taken, and what it is stuck at is refused as an operand.  So `n` also bounds what the budgets
  inside `r` have to last for.
* `Yields used leaves`: without the dropped tokens, the used ones are the leaves.

**Results.**
* `Spends.bind`: what two readers take one after the other.
* `expression_spends` and `statement_spends`: both take at least one token, and a budget above the number
  of tokens is never used up.
* `program_spends`: a program takes all tokens there are.
* `ofSource_leaves`: the leaves of a tree are the tokens of its text without the dropped ones.
-/

namespace EmojiLang

namespace Token

/-- What is not kept in trees: delimiters, the assignment sign, and the keywords that a node replaces. -/
def droppedTexts : List String :=
  ["(", ")", "\x7b", "\x7d", ",", ";", "=", "decl", "print", "while", "for"]

/-- No tree keeps the token. -/
def isDropped (t : Token) : Bool := decide (t.kind = .eof) || t.spellsAny droppedTexts

/-- The token is no truth value, or at least none that is spelled like a token that is dropped. -/
def Honest (t : Token) : Prop := t.kind = .boolean → t.spellsAny droppedTexts = false

variable {t : Token} {text : String} {texts : List String}

theorem isDropped_of_spells (h : t.spells text = true) (mem : text ∈ droppedTexts) :
    t.isDropped = true := by
  simp [isDropped, spellsAny_of_spells h mem]

theorem isDropped_eq_false_of_spellsAny (h : t.spellsAny texts = true)
    (apart : ∀ text ∈ texts, text ∉ droppedTexts) : t.isDropped = false := by
  have other := (SpellsOnly.of_spellsAny h).spellsAny_eq_false apart
  have noEnd : t.kind ≠ .eof := TokenKind.ne_of_isSpelled (spellsAny_iff.1 h).1 rfl
  simp [isDropped, other, noEnd]

theorem isDropped_eq_false_of_spells (h : t.spells text = true) (other : text ∉ droppedTexts) :
    t.isDropped = false := by
  refine isDropped_eq_false_of_spellsAny (spellsAny_of_spells h (List.mem_singleton_self text)) ?_
  simpa using other

/-- A name or a literal is kept. -/
theorem isDropped_eq_false_of_operandKind {kind : NodeKind} (own : Grammar.operandKind t.kind = some kind)
    (honest : t.Honest) : t.isDropped = false := by
  cases hk : t.kind with
  | boolean => simp [isDropped, hk, honest hk]
  | number | name | string =>
      have silent : t.SpellsOnly [] := .of_kind (by rw [hk]; rfl)
      simp [isDropped, hk, silent.spellsAny_eq_false]
  | operator | keyword | delimiter | eof =>
      simp [Grammar.operandKind, hk] at own

end Token

namespace Tree

theorem leavesOf_append (ts us : List Tree) : leavesOf (ts ++ us) = leavesOf ts ++ leavesOf us := by
  induction ts with
  | nil => simp [leavesOf]
  | cons t ts ih => simp [leavesOf, ih]

end Tree

namespace Reader

/-- No operand begins here. -/
def Refused (rest : List Token) : Prop :=
  ∀ t ∈ rest.head?, Grammar.operandKind t.kind = none ∧ t.spells "(" = false

end Reader

/-- The tokens `ts` are those that have been taken and those that are left.  What has been taken is
related by `P` to what has been read, and what is left is refused as an operand if nothing has. -/
inductive Reading.Splits {α : Type} (ts : List Token) (P : List Token → α → Prop) :
    Reading α → Prop
  | read {used rest : List Token} {a : α} :
      ts = used ++ rest → P used a → Splits ts P (.read a rest)
  | stuck {rest : List Token} : rest <:+ ts → Reader.Refused rest → Splits ts P (.stuck rest)

namespace Reading.Splits

variable {α : Type} {ts : List Token} {P : List Token → α → Prop} {r : Reading α}

/-- A token in front has been taken as well. -/
theorem cons {t : Token} (h : Splits ts (fun used a => P (t :: used) a) r) :
    Splits (t :: ts) P r := by
  cases h with
  | read whole spent =>
      refine .read ?_ spent
      rw [whole, List.cons_append]
  | stuck left refused => exact .stuck (left.trans (List.suffix_cons t ts)) refused

/-- Nothing has been taken. -/
theorem nothing {a : α} (h : P [] a) : Splits ts P (.read a ts) :=
  .read (List.nil_append ts).symm h

theorem refused (h : Reader.Refused ts) : Splits ts P (.stuck ts) :=
  .stuck List.suffix_rfl h

end Reading.Splits

namespace Reader

variable {α β : Type} {n m : Nat}

/-- Off fewer than `n` tokens, the reader takes tokens that are related by `P` to what it reads, or it
is stuck where no operand begins. -/
def Spends (n : Nat) (r : Reader α) (P : List Token → α → Prop) : Prop :=
  ∀ ts, ts.length < n → (r ts).Splits ts P

theorem splits_bind {r : Reader α} {f : α → Reader β} {P : List Token → α → Prop}
    {R : List Token → β → Prop} {ts : List Token} (hfirst : (r ts).Splits ts P)
    (short : ts.length < n) (hf : ∀ used a, P used a →
      Spends (n - used.length) (f a) fun more b => R (used ++ more) b) :
    ((r >>= f) ts).Splits ts R := by
  rw [Reader.bind_apply]
  generalize r ts = reading at hfirst
  cases hfirst with
  | stuck left refused => exact .stuck left refused
  | @read used rest a whole spent =>
      have fewer : rest.length < n - used.length := by
        rw [whole, List.length_append] at short
        omega
      have hsecond := hf used a spent rest fewer
      dsimp only
      generalize f a rest = reading at hsecond ⊢
      cases hsecond with
      | read next spent =>
          refine .read ?_ spent
          rw [whole, next, List.append_assoc]
      | stuck left refused =>
          exact .stuck (left.trans ⟨used, whole.symm⟩) refused

namespace Spends

variable {r : Reader α} {f : α → Reader β} {P Q : List Token → α → Prop}
  {R : List Token → β → Prop}

theorem weaken (h : Spends n r P) (le : m ≤ n) : Spends m r P :=
  fun ts short => h ts (Nat.lt_of_lt_of_le short le)

theorem mono (h : Spends n r P) (le : ∀ used a, P used a → Q used a) : Spends n r Q := by
  intro ts short
  have taken := h ts short
  generalize r ts = reading at taken ⊢
  cases taken with
  | read whole spent => exact .read whole (le _ _ spent)
  | stuck left refused => exact .stuck left refused

theorem pure {a : α} (h : P [] a) : Spends n (Pure.pure a) P := by
  intro ts _
  rw [Reader.pure_apply]
  exact .nothing h

/-- The second reader has fewer tokens in front of it, by those that the first one has taken. -/
theorem bind (hr : Spends n r P) (hf : ∀ used a, P used a →
    Spends (n - used.length) (f a) fun more b => R (used ++ more) b) :
    Spends n (r >>= f) R :=
  fun ts short => splits_bind (hr ts short) short hf

end Spends

end Reader

namespace Grammar

open Reader EmojiLang.Tree

section Accounts

/-- Without the dropped tokens, the used ones are the leaves. -/
def Yields (used leaves : List Token) : Prop :=
  (∀ t ∈ used, t.Honest) → (used.filter fun t => !t.isDropped) = leaves

/-- Some tokens have been used for a tree. -/
def SpentOn (used : List Token) (t : Tree) : Prop := used ≠ [] ∧ Yields used t.leaves

/-- Tokens have been used for a row of trees. -/
def SpentOnAll (used : List Token) (ts : List Tree) : Prop := Yields used (leavesOf ts)

variable {used more leaves others : List Token} {t : Token}

theorem Yields.nil : Yields [] [] := fun _ => rfl

theorem Yields.append (h : Yields used leaves) (k : Yields more others) :
    Yields (used ++ more) (leaves ++ others) := by
  intro honest
  have hfirst := h fun t ht => honest t (List.mem_append_left _ ht)
  have hsecond := k fun t ht => honest t (List.mem_append_right _ ht)
  rw [List.filter_append, hfirst, hsecond]

theorem Yields.kept (h : t.Honest → t.isDropped = false) (k : Yields used leaves) :
    Yields (t :: used) (t :: leaves) := by
  have single : Yields [t] [t] := by
    intro honest
    simp [h (honest t (List.mem_singleton_self t))]
  exact single.append k

theorem Yields.dropped (h : t.isDropped = true) (k : Yields used leaves) :
    Yields (t :: used) leaves := by
  have single : Yields [t] [] := fun _ => by simp [h]
  exact single.append k

end Accounts

section Expressions

theorem accept_spends {text : String} (dropped : text ∈ Token.droppedTexts) (n : Nat) :
    Spends n (accept text) fun used _ => Yields used [] := by
  intro ts _
  cases ts with
  | nil => exact .nothing .nil
  | cons t rest =>
      by_cases spelled : t.spells text = true
      · simp only [accept, spelled, if_true]
        exact .cons (.nothing (.dropped (Token.isDropped_of_spells spelled dropped) .nil))
      · simp only [accept, spelled, Bool.false_eq_true, if_false]
        exact .nothing .nil

variable {n budget : Nat}

theorem links_spends {signs : List String} (own : ∀ text ∈ signs, text ∉ Token.droppedTexts)
    {operand : Reader Tree} (h : Spends n operand SpentOn) (enough : n ≤ budget) :
    Spends n (links signs operand budget) SpentOnAll := by
  induction budget generalizing n with
  | zero =>
      intro ts short
      omega
  | succ budget ih =>
      intro ts short
      cases ts with
      | nil => exact .nothing .nil
      | cons t rest =>
          by_cases spelled : t.spellsAny signs = true
          · simp only [links, spelled, if_true]
            have kept := Token.isDropped_eq_false_of_spellsAny spelled own
            have inner : Spends (n - 1) operand SpentOn := h.weaken (Nat.sub_le _ _)
            refine .cons (inner.bind (fun used right hright => ?_) rest ?_)
            · have others : Spends (n - 1) (links signs operand budget) SpentOnAll :=
                ih inner (by omega)
              refine (others.weaken (Nat.sub_le _ _)).bind fun more row hrow => .pure ?_
              have whole := hright.2.append (hrow.append .nil)
              exact .kept (fun _ => kept) (by simpa [leavesOf, leaves] using whole)
            · rw [List.length_cons] at short
              omega
          · simp only [links, spelled, Bool.false_eq_true, if_false]
            exact .nothing .nil

theorem level_spends (kind : NodeKind) {signs : List String}
    (own : ∀ text ∈ signs, text ∉ Token.droppedTexts) {operand : Reader Tree}
    (h : Spends n operand SpentOn) (enough : n ≤ budget) :
    Spends n (level kind signs budget operand) SpentOn := by
  refine h.bind fun used first hfirst => ?_
  refine ((links_spends own h enough).weaken (Nat.sub_le _ _)).bind fun more row hrow => .pure ?_
  refine ⟨by simp [hfirst.1], ?_⟩
  have whole := hfirst.2.append (hrow.append .nil)
  cases row with
  | nil => simpa [leavesOf] using whole
  | cons link row => simpa [leaves, leavesOf] using whole

/-- An operand in parentheses is read off fewer tokens, so that a smaller budget lasts for it. -/
theorem operand_spends {inner : Reader Tree} (h : Spends n inner SpentOn) :
    Spends (n + 1) (operand inner) SpentOn := by
  intro ts short
  cases ts with
  | nil => exact .refused (by simp [Refused])
  | cons t rest =>
      cases own : operandKind t.kind with
      | some kind =>
          simp only [operand, own]
          have kept : Yields [t] [t] := .kept (Token.isDropped_eq_false_of_operandKind own) .nil
          exact .cons (.nothing ⟨by simp, by simpa [atom, leaves, leavesOf] using kept⟩)
      | none =>
          by_cases opens : t.spells "(" = true
          · simp only [operand, own, opens, if_true]
            have dropped := Token.isDropped_of_spells opens (by decide)
            refine .cons (h.bind (fun used e he => ?_) rest ?_)
            · refine (accept_spends (by decide) _).bind fun last _ hlast => .pure ?_
              have whole := he.2.append (hlast.append .nil)
              exact ⟨by simp, .dropped dropped (by simpa using whole)⟩
            · rw [List.length_cons] at short
              omega
          · simp only [operand, own, opens, Bool.false_eq_true, if_false]
            exact .refused (by simp [Refused, own, opens])

theorem unary_spends {inner : Reader Tree} (h : Spends n inner SpentOn) :
    Spends (n + 1) (unary inner) SpentOn := by
  intro ts short
  cases ts with
  | nil => exact .refused (by simp [Refused])
  | cons t rest =>
      by_cases negates : t.spellsAny unarySigns = true
      · simp only [unary, negates, if_true]
        have kept := Token.isDropped_eq_false_of_spellsAny negates (by decide)
        refine .cons ((operand_spends h).bind (fun used e he => .pure ?_) rest ?_)
        · have whole := he.2.append .nil
          exact ⟨by simp, .kept (fun _ => kept) (by simpa [leaves, leavesOf] using whole)⟩
        · rw [List.length_cons] at short
          omega
      · simp only [unary, negates, Bool.false_eq_true, if_false]
        exact operand_spends h _ short

/-- An expression takes at least one token, and the budget lasts for all of it. -/
theorem expression_spends (budget : Nat) : Spends budget (expression budget) SpentOn := by
  induction budget with
  | zero =>
      intro ts short
      omega
  | succ budget ih =>
      have enough := Nat.le_refl (budget + 1)
      have products : Spends (budget + 1) (level .product productSigns (budget + 1) _) SpentOn :=
        level_spends .product (by decide) (unary_spends ih) enough
      have sums : Spends (budget + 1) (level .sum sumSigns (budget + 1) _) SpentOn :=
        level_spends .sum (by decide) products enough
      have comparisons :
          Spends (budget + 1) (level .comparison comparisonSigns (budget + 1) _) SpentOn :=
        level_spends .comparison (by decide) sums enough
      have conjunctions :
          Spends (budget + 1) (level .conjunction andSigns (budget + 1) _) SpentOn :=
        level_spends .conjunction (by decide) comparisons enough
      exact level_spends .disjunction (by decide) conjunctions enough

end Expressions

section Statements

variable {n budget : Nat} {inner : Reader Tree} (h : Spends n inner SpentOn)
include h

/-- An assignment, where a name and the sign behind it come next. -/
theorem assignment_splits {ts : List Token} (ahead : assignmentAhead ts = true)
    (short : ts.length < n) : (assignment inner ts).Splits ts SpentOn := by
  match ts, ahead with
  | t :: sign :: rest, ahead =>
      have own : operandKind t.kind = some .name := by
        simp only [assignmentAhead, Bool.and_eq_true, decide_eq_true_eq] at ahead
        rw [ahead.1]
        rfl
      refine .cons ((accept_spends (by decide) n).bind (fun used _ hused => ?_) _ ?_)
      · refine (h.weaken (Nat.sub_le _ _)).bind fun more right hright => .pure ?_
        have whole := hused.append (hright.2.append .nil)
        exact ⟨by simp, .kept (Token.isDropped_eq_false_of_operandKind own)
          (by simpa [atom, leaves, leavesOf] using whole)⟩
      · rw [List.length_cons] at short
        omega

theorem entries_spends (enough : n ≤ budget) :
    Spends n (entries inner budget) SpentOnAll := by
  induction budget generalizing n with
  | zero =>
      intro ts short
      omega
  | succ budget ih =>
      intro ts short
      cases ts with
      | nil => exact .nothing .nil
      | cons t rest =>
          by_cases named : t.kind = .name
          · simp only [entries, named, if_true]
            have own : operandKind t.kind = some .name := by
              rw [named]
              rfl
            have kept := Token.isDropped_eq_false_of_operandKind own
            have fewer : Spends (n - 1) inner SpentOn := h.weaken (Nat.sub_le _ _)
            have entry : Spends (n - 1) (do
                if ← accept "=" then
                  let right ← inner
                  return .node .assignment [.atom .name t, right]
                else
                  return .atom .name t : Reader Tree) fun used e => Yields (t :: used) e.leaves := by
              refine (accept_spends (by decide) _).bind fun used given hused => ?_
              cases given with
              | true =>
                  refine (fewer.weaken (Nat.sub_le _ _)).bind fun more right hright => .pure ?_
                  have whole := hused.append (hright.2.append .nil)
                  exact .kept kept (by simpa [atom, leaves, leavesOf] using whole)
              | false =>
                  have whole := hused.append .nil
                  exact .pure (.kept kept (by simpa [leavesOf] using whole))
            refine .cons (entry.bind (fun used e he => ?_) rest ?_)
            · refine (accept_spends (by decide) _).bind fun comma goesOn hcomma => ?_
              cases goesOn with
              | true =>
                  have others := (ih fewer (by omega)).weaken (Nat.sub_le (n - 1) used.length)
                  refine (others.weaken (Nat.sub_le _ _)).bind fun more row hrow => .pure ?_
                  have whole := he.append (hcomma.append (hrow.append .nil))
                  simpa [SpentOnAll, leavesOf] using whole
              | false =>
                  have whole := he.append (hcomma.append .nil)
                  exact .pure (by simpa [SpentOnAll, leavesOf] using whole)
            · rw [List.length_cons] at short
              omega
          · simp only [entries, named, if_false]
            exact .nothing .nil

theorem declaration_spends (enough : n ≤ budget) :
    Spends n (declaration inner budget) fun used t => Yields used t.leaves := by
  refine (entries_spends h enough).bind fun used row hrow => .pure ?_
  have whole := hrow.append .nil
  simpa [leaves] using whole

theorem printing_spends : Spends n (printing inner) fun used t => Yields used t.leaves := by
  refine (accept_spends (by decide) n).bind fun opens _ hopens => ?_
  refine (h.weaken (Nat.sub_le _ _)).bind fun used e he => ?_
  refine (accept_spends (by decide) _).bind fun closes _ hcloses => .pure ?_
  have whole := hopens.append (he.2.append (hcloses.append .nil))
  simpa [leaves, leavesOf] using whole

theorem updates_spends (enough : n ≤ budget) :
    Spends n (updates inner budget) SpentOnAll := by
  induction budget generalizing n with
  | zero =>
      intro ts short
      omega
  | succ budget ih =>
      intro ts short
      by_cases ahead : assignmentAhead ts = true
      · simp only [updates, ahead, if_true]
        refine splits_bind (assignment_splits h ahead short) short fun used first hfirst => ?_
        refine (accept_spends (by decide) _).bind fun comma goesOn hcomma => ?_
        cases goesOn with
        | true =>
            have nonempty := List.length_pos_iff.2 hfirst.1
            have fewer : Spends (n - used.length) inner SpentOn := h.weaken (Nat.sub_le _ _)
            refine ((ih fewer (by omega)).weaken (Nat.sub_le _ _)).bind fun more row hrow => .pure ?_
            have whole := hfirst.2.append (hcomma.append (hrow.append .nil))
            simpa [SpentOnAll, leavesOf] using whole
        | false =>
            have whole := hfirst.2.append (hcomma.append .nil)
            exact .pure (by simpa [SpentOnAll, leavesOf] using whole)
      · simp only [updates, ahead, Bool.false_eq_true, if_false]
        exact .nothing .nil

theorem forInit_spends (enough : n ≤ budget) :
    Spends n (forInit inner budget) fun used t => Yields used t.leaves := by
  intro ts short
  cases ts with
  | nil => exact .nothing .nil
  | cons t rest =>
      by_cases declares : t.spells "decl" = true
      · simp only [forInit, declares, if_true]
        have dropped := Token.isDropped_of_spells declares (by decide)
        refine .cons ((declaration_spends h enough).bind (fun used d hd => .pure ?_) rest ?_)
        · have whole := hd.append .nil
          exact .dropped dropped (by simpa [leaves, leavesOf] using whole)
        · rw [List.length_cons] at short
          omega
      · by_cases ahead : assignmentAhead (t :: rest) = true
        · simp only [forInit, declares, ahead, Bool.false_eq_true, if_false, if_true]
          refine splits_bind (assignment_splits h ahead short) short fun used a ha => .pure ?_
          have whole := ha.2.append .nil
          simpa [leaves, leavesOf] using whole
        · simp only [forInit, declares, ahead, Bool.false_eq_true, if_false]
          exact .nothing .nil

theorem forTest_spends : Spends n (forTest inner) fun used t => Yields used t.leaves := by
  intro ts short
  by_cases missing : ahead ";" ts = true
  · simp only [forTest, missing, if_true]
    exact .nothing .nil
  · simp only [forTest, missing, Bool.false_eq_true, if_false]
    refine h.bind (fun used e he => .pure ?_) ts short
    have whole := he.2.append .nil
    simpa [leaves, leavesOf] using whole

variable {single : Reader Tree} (hs : Spends n single SpentOn)
include hs

omit h in
/-- Each statement takes a token, so the budget of a block lasts for all of its statements. -/
theorem body_spends (enough : n ≤ budget) : Spends n (body single budget) SpentOnAll := by
  induction budget generalizing n with
  | zero =>
      intro ts short
      omega
  | succ budget ih =>
      intro ts short
      by_cases ends : (ts.isEmpty || ahead "\x7d" ts) = true
      · simp only [body, ends, if_true]
        exact .nothing .nil
      · simp only [body, ends, Bool.false_eq_true, if_false]
        refine hs.bind (fun used first hfirst => ?_) ts short
        have nonempty := List.length_pos_iff.2 hfirst.1
        have fewer : Spends (n - used.length) single SpentOn := hs.weaken (Nat.sub_le _ _)
        refine (ih fewer (by omega)).bind fun more row hrow => .pure ?_
        have whole := hfirst.2.append (hrow.append .nil)
        simpa [SpentOnAll, leavesOf] using whole

omit h in
theorem block_spends (enough : n ≤ budget) :
    Spends n (block single budget) fun used t => Yields used t.leaves := by
  refine (accept_spends (by decide) n).bind fun opens _ hopens => ?_
  refine ((body_spends hs enough).weaken (Nat.sub_le _ _)).bind fun used row hrow => ?_
  refine (accept_spends (by decide) _).bind fun closes _ hcloses => .pure ?_
  have whole := hopens.append (hrow.append (hcloses.append .nil))
  simpa [leaves] using whole

theorem guarded_spends (enough : n ≤ budget) :
    Spends n (guarded inner single budget) SpentOnAll := by
  refine (accept_spends (by decide) n).bind fun opens _ hopens => ?_
  refine (h.weaken (Nat.sub_le _ _)).bind fun used test htest => ?_
  refine (accept_spends (by decide) _).bind fun closes _ hcloses => ?_
  refine ((block_spends hs enough).weaken (by omega)).bind fun more inside hinside => .pure ?_
  have whole := hopens.append (htest.2.append (hcloses.append (hinside.append .nil)))
  simpa [SpentOnAll, leavesOf] using whole

theorem branches_spends (enough : n ≤ budget) :
    Spends n (branches inner single budget) SpentOnAll := by
  induction budget generalizing n with
  | zero =>
      intro ts short
      omega
  | succ budget ih =>
      intro ts short
      cases ts with
      | nil => exact .nothing .nil
      | cons t rest =>
          have fewer : Spends (n - 1) inner SpentOn := h.weaken (Nat.sub_le _ _)
          have fewerSingle : Spends (n - 1) single SpentOn := hs.weaken (Nat.sub_le _ _)
          have less : n - 1 ≤ budget := by omega
          have shorter : rest.length < n - 1 := by
            rw [List.length_cons] at short
            omega
          by_cases tests : t.spells "elif" = true
          · simp only [branches, tests, if_true]
            have kept := Token.isDropped_eq_false_of_spells tests (by decide)
            refine .cons ((guarded_spends fewer fewerSingle less).bind (fun used parts hparts => ?_)
              rest shorter)
            refine ((ih fewer fewerSingle less).weaken (Nat.sub_le _ _)).bind
              fun more row hrow => .pure ?_
            have whole := hparts.append (hrow.append .nil)
            exact .kept (fun _ => kept) (by simpa [leavesOf_append] using whole)
          · by_cases closes : t.spells "else" = true
            · simp only [branches, tests, closes, Bool.false_eq_true, if_false, if_true]
              have kept := Token.isDropped_eq_false_of_spells closes (by decide)
              refine .cons ((block_spends fewerSingle less).bind
                (fun used inside hinside => .pure ?_) rest shorter)
              have whole := hinside.append .nil
              exact .kept (fun _ => kept) (by simpa [leavesOf] using whole)
            · simp only [branches, tests, closes, Bool.false_eq_true, if_false]
              exact .nothing .nil

theorem conditional_spends (enough : n ≤ budget) {t : Token} (spelled : t.spells "if" = true) :
    Spends n (conditional inner single budget t) fun used u => Yields (t :: used) u.leaves := by
  have kept := Token.isDropped_eq_false_of_spells spelled (by decide)
  refine (guarded_spends h hs enough).bind fun used parts hparts => ?_
  refine ((branches_spends h hs enough).weaken (Nat.sub_le _ _)).bind fun more row hrow => .pure ?_
  have whole := hparts.append (hrow.append .nil)
  exact .kept (fun _ => kept) (by simpa [leavesOf_append] using whole)

theorem whileLoop_spends (enough : n ≤ budget) :
    Spends n (whileLoop inner single budget) fun used t => Yields used t.leaves := by
  refine (guarded_spends h hs enough).bind fun used parts hparts => .pure ?_
  have whole := hparts.append .nil
  simpa [leaves] using whole

theorem forLoop_spends (enough : n ≤ budget) :
    Spends n (forLoop inner single budget) fun used t => Yields used t.leaves := by
  refine (accept_spends (by decide) n).bind fun opens _ hopens => ?_
  refine ((forInit_spends h enough).weaken (by omega)).bind fun used start hstart => ?_
  refine (accept_spends (by decide) _).bind fun first _ hfirst => ?_
  refine ((forTest_spends h).weaken (by omega)).bind fun more test htest => ?_
  refine (accept_spends (by decide) _).bind fun second _ hsecond => ?_
  refine ((updates_spends h enough).weaken (by omega)).bind fun last steps hsteps => ?_
  refine (accept_spends (by decide) _).bind fun closes _ hcloses => ?_
  refine ((block_spends hs enough).weaken (by omega)).bind fun inside block hblock => .pure ?_
  have whole := hopens.append (hstart.append (hfirst.append (htest.append (hsecond.append
    (hsteps.append (hcloses.append (hblock.append .nil)))))))
  simpa [leaves, leavesOf] using whole

end Statements

/-- A statement takes at least one token, and the budget lasts for all of it. -/
theorem statement_spends (budget : Nat) : Spends budget (statement budget) SpentOn := by
  induction budget with
  | zero =>
      intro ts short
      omega
  | succ budget ih =>
      have inner := expression_spends (budget + 1)
      have fewer : Spends budget (expression (budget + 1)) SpentOn := inner.weaken (Nat.le_succ _)
      have enough : budget ≤ budget + 1 := Nat.le_succ _
      intro ts short
      cases ts with
      | nil => exact .refused (by simp [Refused])
      | cons t rest =>
          have shorter : rest.length < budget := by
            simpa using short
          -- a keyword in front that the node replaces
          have behind : ∀ {r : Reader Tree} {text : String}, t.spells text = true →
              text ∈ Token.droppedTexts → (Spends budget r fun used u => Yields used u.leaves) →
              (r rest).Splits (t :: rest) SpentOn := by
            intro r text spelled mem hr
            refine .cons (hr.mono (fun used u hu => ?_) rest shorter)
            exact ⟨by simp, .dropped (Token.isDropped_of_spells spelled mem) hu⟩
          simp only [statement]
          split_ifs with declares prints tests loops counts jumps assigns
          · exact behind declares (by decide) (declaration_spends fewer enough)
          · exact behind prints (by decide) (printing_spends fewer)
          · refine .cons ((conditional_spends fewer ih enough tests).mono (fun used u hu => ?_)
              rest shorter)
            exact ⟨by simp, hu⟩
          · exact behind loops (by decide) (whileLoop_spends fewer ih enough)
          · exact behind counts (by decide) (forLoop_spends fewer ih enough)
          · have kept := Token.isDropped_eq_false_of_spellsAny jumps (by decide)
            exact .cons (.nothing ⟨by simp, .kept (fun _ => kept) .nil⟩)
          · exact assignment_splits inner assigns short
          · exact inner _ short

/-- The statements of a program take all the tokens. -/
theorem statements_spends {n budget : Nat} {single : Reader Tree} (hs : Spends n single SpentOn)
    (enough : n ≤ budget) : Spends n (statements single budget) SpentOnAll := by
  induction budget generalizing n with
  | zero =>
      intro ts short
      omega
  | succ budget ih =>
      intro ts short
      by_cases ends : ts.isEmpty = true
      · simp only [statements, ends, if_true]
        rw [List.isEmpty_iff.1 ends]
        exact .nothing .nil
      · simp only [statements, ends, Bool.false_eq_true, if_false]
        refine hs.bind (fun used first hfirst => ?_) ts short
        have nonempty := List.length_pos_iff.2 hfirst.1
        have fewer : Spends (n - used.length) single SpentOn := hs.weaken (Nat.sub_le _ _)
        refine (ih fewer (by omega)).bind fun more row hrow => .pure ?_
        have whole := hfirst.2.append (hrow.append .nil)
        simpa [SpentOnAll, leavesOf] using whole

theorem statements_ends {single : Reader Tree} {budget : Nat} {ts rest : List Token}
    {row : List Tree} (read : statements single budget ts = .read row rest) : rest = [] := by
  induction budget generalizing ts row with
  | zero => simp [statements, Reader.fail] at read
  | succ budget ih =>
      by_cases ends : ts.isEmpty = true
      · simp only [statements, ends, if_true, Reading.read.injEq] at read
        exact read.2.symm
      · simp only [statements, ends, Bool.false_eq_true, if_false] at read
        rw [Reader.on, Reader.bind_apply] at read
        cases hfirst : single ts with
        | stuck left => simp [hfirst] at read
        | read t next =>
            simp only [hfirst, Reader.bind_apply] at read
            cases others : statements single budget next with
            | stuck left => simp [others] at read
            | read more last =>
                simp only [others, Reader.pure_apply, Reading.read.injEq] at read
                obtain ⟨-, rfl⟩ := read
                exact ih others

/-- A program takes all the tokens, or is stuck where no operand begins. -/
theorem program_spends {ts : List Token} :
    (∃ t, program (ts.length + 1) ts = .read t [] ∧ Yields ts t.leaves) ∨
      ∃ rest, program (ts.length + 1) ts = .stuck rest ∧ rest <:+ ts ∧ Refused rest := by
  have taken := statements_spends (statement_spends (ts.length + 1)) (Nat.le_refl _) ts
    (Nat.lt_succ_self _)
  simp only [program, Reader.bind_apply]
  cases read : statements (statement (ts.length + 1)) (ts.length + 1) ts with
  | stuck rest =>
      rw [read] at taken
      cases taken with
      | stuck left refused => exact Or.inr ⟨rest, rfl, left, refused⟩
  | read row rest =>
      obtain rfl := statements_ends read
      rw [read] at taken
      cases taken with
      | read whole spent =>
          rw [List.append_nil] at whole
          subst whole
          exact Or.inl ⟨_, rfl, spent⟩

/-- The tokens in front of the end mark are those of the tree and the dropped ones. -/
theorem ofTokens_leaves {ts : List Token} {t : Tree} (made : ofTokens ts = .ok t)
    (honest : ∀ a ∈ Token.beforeEnd ts, a.Honest) :
    t.leaves = (Token.beforeEnd ts).filter fun a => !a.isDropped := by
  simp only [ofTokens] at made
  rcases @program_spends (Token.beforeEnd ts) with ⟨u, read, yields⟩ | ⟨rest, stuck, -, -⟩
  · rw [read] at made
    injection made with same
    exact same ▸ (yields honest).symm
  · rw [stuck] at made
    cases made

/-- A failure is a token that no operand begins with, or the end mark. -/
theorem ofTokens_refused {ts : List Token} {d : Diagnostic} (fails : ofTokens ts = .error d) :
    ∃ rest, rest <:+ Token.beforeEnd ts ∧ Refused rest ∧
      d = .unexpectedToken (rest.headD (Token.endMark ts)) := by
  simp only [ofTokens] at fails
  rcases @program_spends (Token.beforeEnd ts) with ⟨u, read, -⟩ | ⟨rest, stuck, left, refused⟩
  · rw [read] at fails
    cases fails
  · rw [stuck] at fails
    injection fails with same
    exact ⟨rest, left, refused, same.symm⟩

end Grammar

namespace Token

theorem beforeEnd_append_eof {ts : List Token} (marks : ∀ t ∈ ts, t.kind ≠ .eof) (p : Position) :
    beforeEnd (ts ++ [Token.eof p]) = ts := by
  rw [beforeEnd, List.takeWhile_append_of_pos (by simpa using marks)]
  simp [Token.eof]

theorem endMark_append_eof {ts : List Token} (marks : ∀ t ∈ ts, t.kind ≠ .eof) (p : Position) :
    endMark (ts ++ [Token.eof p]) = Token.eof p := by
  have unmarked : ts.find? (fun t => decide (t.kind = .eof)) = none := by
    simpa using marks
  simp [endMark, unmarked, Token.eof]

/-- What comes in front of the first end mark, whatever stands behind it. -/
theorem beforeEnd_append {us : List Token} (marks : ∀ t ∈ us, t.kind ≠ .eof) (more : List Token) :
    beforeEnd (us ++ more) = us ++ beforeEnd more :=
  List.takeWhile_append_of_pos (by simpa using marks)

theorem beforeEnd_cons_of_eof {e : Token} (ends : e.kind = .eof) (more : List Token) :
    beforeEnd (e :: more) = [] := by
  simp [beforeEnd, ends]

theorem endMark_append_cons {us : List Token} (marks : ∀ t ∈ us, t.kind ≠ .eof) {e : Token}
    (ends : e.kind = .eof) (more : List Token) : endMark (us ++ e :: more) = e := by
  have unmarked : us.find? (fun t => decide (t.kind = .eof)) = none := by
    simpa using marks
  simp [endMark, unmarked, ends]

/-- A truth value of a program is spelled like one. -/
theorem honest_of_mem_scan {source : String} {t : Token} (mem : t ∈ scan source) : t.Honest := by
  intro truth
  have spelled := Lexical.spells_truth ⟨source, t, mem, rfl, rfl⟩ truth
  exact (SpellsOnly.of_spellsAny spelled).spellsAny_eq_false (by decide)

end Token

/-- The leaves of a tree, with their texts and places, are the tokens of its program in order, without
the end mark and the tokens that no tree keeps. -/
theorem ofSource_leaves {source : String} {t : Tree} (made : Tree.ofSource source = .ok t) :
    t.leaves = (Token.scan source).filter fun a => !a.isDropped := by
  obtain ⟨ts, scanned, marks⟩ := Token.scanFrom_eq_append source.toList 0 Position.start
  have whole : Token.scan source = ts ++ [Token.eof (Position.start.afterAll source.toList)] :=
    scanned
  have front : Token.beforeEnd (Token.scan source) = ts := by
    rw [whole, Token.beforeEnd_append_eof marks]
  have honest : ∀ a ∈ Token.beforeEnd (Token.scan source), a.Honest := by
    intro a mem
    rw [front] at mem
    exact Token.honest_of_mem_scan (whole ▸ List.mem_append_left _ mem)
  have kept := Grammar.ofTokens_leaves made honest
  rw [kept, front, whole, List.filter_append]
  simp [Token.isDropped, Token.eof]

/-- A counting loop without parentheses, updates and a closing brace. -/
def unfinishedLoop : String := "📀 decl i = 0; i 😭 3\n\x7b print👉-1 * i"

/-- The tokens of `unfinishedLoop`. -/
def unfinishedLoopTokens : List Token :=
  [⟨.keyword, "📀", ⟨1, 1⟩⟩, ⟨.keyword, "decl", ⟨1, 3⟩⟩, ⟨.name, "i", ⟨1, 8⟩⟩,
    ⟨.operator, "=", ⟨1, 10⟩⟩, ⟨.number, "0", ⟨1, 12⟩⟩, ⟨.delimiter, ";", ⟨1, 13⟩⟩,
    ⟨.name, "i", ⟨1, 15⟩⟩, ⟨.operator, "😭", ⟨1, 17⟩⟩, ⟨.number, "3", ⟨1, 19⟩⟩,
    ⟨.delimiter, "\x7b", ⟨2, 1⟩⟩, ⟨.keyword, "print", ⟨2, 3⟩⟩, ⟨.delimiter, "👉", ⟨2, 8⟩⟩,
    ⟨.number, "-1", ⟨2, 9⟩⟩, ⟨.operator, "*", ⟨2, 12⟩⟩, ⟨.name, "i", ⟨2, 14⟩⟩,
    ⟨.eof, "", ⟨2, 15⟩⟩]

/-- The loop is read, and its tree has the names, the numbers and the two operators. -/
theorem ofSource_leaves_unfinishedLoop :
    ∃ t, Tree.ofSource unfinishedLoop = .ok t ∧
      t.leaves =
        [⟨.name, "i", ⟨1, 8⟩⟩, ⟨.number, "0", ⟨1, 12⟩⟩, ⟨.name, "i", ⟨1, 15⟩⟩,
          ⟨.operator, "😭", ⟨1, 17⟩⟩, ⟨.number, "3", ⟨1, 19⟩⟩, ⟨.number, "-1", ⟨2, 9⟩⟩,
          ⟨.operator, "*", ⟨2, 12⟩⟩, ⟨.name, "i", ⟨2, 14⟩⟩] := by
  have scanned : Token.scan unfinishedLoop = unfinishedLoopTokens := by
    decide +kernel
  obtain ⟨t, read⟩ : ∃ t, Tree.ofTokens unfinishedLoopTokens = .ok t := ⟨_, rfl⟩
  have made : Tree.ofSource unfinishedLoop = .ok t := by
    rw [Tree.ofSource, scanned, read]
  refine ⟨t, made, ?_⟩
  rw [ofSource_leaves made, scanned]
  decide

end EmojiLang
