import EmojiLang.Proofs.Grammar.Lookahead
import EmojiLang.Proofs.Grammar.Respelling

/-!
# Syntax errors come as early as they can

A sequence of tokens that is no program is reported at the first token with which no program can go on:
whatever follows that token, the report is the same; and what stands in front of it is the beginning of
some program.

**Method.**  The first half is `Agree.stuck_exchange`.  For the second half, two numbers are put in place
of the token and of everything behind it.  The readers are not stuck earlier than before, since they agree
up to that place, and not at one of the numbers, since a number is an operand.  It remains to be shown that
they do not ask for more at the very end.  One number can be the operand that was missing.  One more is
needed if that operand was the last one of the start of a counting loop, whose test comes next.

**Definitions.**
* `Token.Supply final n k ts`: fewer than `n` tokens are left, and at least `k` of the last ones, `final`,
  are among them.
* `Reader.Runs P r Q`: off tokens with `P` the reader leaves tokens with `Q`, or is stuck at a token.
* `Reader.Feeds final n i r`: at most one of the last tokens is taken, and one is enough to go on.

**Results.**
* `Runs.bind`: readers in sequence.
* `expression_feeds` and `forLoop_runs`: an expression takes at most one of two numbers at the end, and a
  counting loop may take both.
* `statement_feeds`: a statement that begins at one of them takes only that one.
* `program_ne_stuck_nil`: in front of two numbers at its end, a program is never stuck at the end.
* `ofTokens_stuck_earliest`: where a syntax error is reported.
-/

namespace EmojiLang

/-- Fewer than `n` tokens are left.  They end with `final`, or they are what is left of `final`, at least
`k` tokens. -/
def Token.Supply (final : List Token) (n k : Nat) (ts : List Token) : Prop :=
  ts.length < n ∧ (final <:+ ts ∨ ts <:+ final ∧ k ≤ ts.length)

namespace Token.Supply

variable {final ts rest : List Token} {n m k j : Nat} {t : Token}

theorem of_suffix (short : ts.length < n) (ends : final <:+ ts) : Supply final n k ts :=
  ⟨short, Or.inl ends⟩

theorem mono (h : Supply final n k ts) (le : n ≤ m) (fewer : j ≤ k) : Supply final m j ts :=
  ⟨Nat.lt_of_lt_of_le h.1 le, h.2.imp_right fun ⟨ends, enough⟩ => ⟨ends, Nat.le_trans fewer enough⟩⟩

theorem of_ne_nil (h : Supply final n 0 ts) (nonempty : ts ≠ []) : Supply final n 1 ts :=
  ⟨h.1, h.2.imp_right fun ⟨ends, _⟩ => ⟨ends, List.length_pos_iff.2 nonempty⟩⟩

theorem ne_nil (h : Supply final n (k + 1) ts) (several : k + 1 ≤ final.length) : ts ≠ [] := by
  rintro rfl
  rcases h.2 with ends | ⟨-, enough⟩
  · have few := ends.length_le
    rw [List.length_nil] at few
    omega
  · rw [List.length_nil] at enough
    omega

/-- Any token may be one of the last ones. -/
theorem tail (h : Supply final n (k + 1) (t :: rest)) (several : k + 1 ≤ final.length) :
    Supply final (n - 1) k rest := by
  obtain ⟨short, ends⟩ := h
  rw [List.length_cons] at short
  refine ⟨by omega, ?_⟩
  rcases ends with ends | ⟨ends, positive⟩
  · rcases List.suffix_cons_iff.1 ends with rfl | ends
    · rw [List.length_cons] at several
      exact Or.inr ⟨List.suffix_cons t rest, by omega⟩
    · exact Or.inl ends
  · rw [List.length_cons] at positive
    exact Or.inr ⟨(List.suffix_cons t rest).trans ends, by omega⟩

/-- A token that is none of the last ones stands in front of all of them. -/
theorem tail_of_not_mem (h : Supply final n k (t :: rest)) (other : t ∉ final) :
    Supply final (n - 1) j rest := by
  obtain ⟨short, ends⟩ := h
  rw [List.length_cons] at short
  refine of_suffix (by omega) ?_
  rcases ends with ends | ⟨ends, -⟩
  · rcases List.suffix_cons_iff.1 ends with rfl | ends
    · exact absurd List.mem_cons_self other
    · exact ends
  · exact absurd (ends.subset List.mem_cons_self) other

end Token.Supply

/-- The reading has left tokens with `Q`, or is stuck at a token. -/
inductive Reading.Leaves {α : Type} (Q : List Token → Prop) : Reading α → Prop
  | read {a : α} {rest : List Token} : Q rest → Leaves Q (.read a rest)
  | stuck {rest : List Token} : rest ≠ [] → Leaves Q (.stuck rest)

namespace Reader

variable {α β : Type} {P Q R : List Token → Prop} {r : Reader α} {f : α → Reader β}

/-- Off tokens with `P` the reader leaves tokens with `Q`, or is stuck at a token. -/
def Runs (P : List Token → Prop) (r : Reader α) (Q : List Token → Prop) : Prop :=
  ∀ ts, P ts → (r ts).Leaves Q

theorem leaves_bind {ts : List Token} (hfirst : (r ts).Leaves Q) (hf : ∀ a, Runs Q (f a) R) :
    ((r >>= f) ts).Leaves R := by
  rw [Reader.bind_apply]
  generalize r ts = reading at hfirst
  cases hfirst with
  | read left => exact hf _ _ left
  | stuck nonempty => exact .stuck nonempty

namespace Runs

theorem pure (a : α) : Runs P (Pure.pure a) P :=
  fun _ given => .read given

theorem bind (hr : Runs P r Q) (hf : ∀ a, Runs Q (f a) R) : Runs P (r >>= f) R :=
  fun ts given => leaves_bind (hr ts given) hf

/-- There are no tokens to read off. -/
theorem of_zero {final : List Token} {n k : Nat} (exhausted : n ≤ 0) : Runs (Token.Supply final n k) r Q := by
  intro ts given
  have short := given.1
  omega

/-- Less is asked of what is left. -/
theorem less {final : List Token} {n m k j : Nat} (h : Runs P r (Token.Supply final n k)) (le : n ≤ m)
    (fewer : j ≤ k) : Runs P r (Token.Supply final m j) := by
  intro ts given
  have leaves := h ts given
  generalize r ts = reading at leaves
  cases leaves with
  | read left => exact .read (left.mono le fewer)
  | stuck nonempty => exact .stuck nonempty

end Runs

/-- The reader takes a token, and at most one of the last ones: of `k + 1` of them at least `k` are left,
up to `k = i`. -/
def Feeds (final : List Token) (n i : Nat) (r : Reader α) : Prop :=
  ∀ m ≤ n, ∀ k ≤ i, Runs (Token.Supply final m (k + 1)) r (Token.Supply final (m - 1) k)

section Feeding

variable {final : List Token} {n m i k : Nat} (h : Feeds final n i r)
include h

theorem Feeds.weaken (le : m ≤ n) : Feeds final m i r :=
  fun l lower => h l (Nat.le_trans lower le)

theorem Feeds.runs (few : k ≤ i) :
    Runs (Token.Supply final n (k + 1)) r (Token.Supply final n k) :=
  (h n (Nat.le_refl n) k few).less (Nat.sub_le n 1) (Nat.le_refl k)

end Feeding

end Reader

namespace Grammar

open Reader EmojiLang.Tree Token

section Numbers

variable {final : List Token} (numbers : ∀ t ∈ final, t.kind = .number) {n k budget : Nat}
include numbers

section Marks

variable {t : Token} {text : String} {texts : List String} {rest : List Token} {j : Nat}

/-- A token that is spelled out is no number, so that all the numbers come behind it. -/
theorem supply_of_isSpelled (given : Supply final n k (t :: rest)) (spelled : t.kind.isSpelled = true) :
    Supply final (n - 1) j rest :=
  given.tail_of_not_mem fun mem => TokenKind.ne_of_isSpelled spelled rfl (numbers t mem)

theorem supply_of_spells (given : Supply final n k (t :: rest)) (spelled : t.spells text = true) :
    Supply final (n - 1) j rest :=
  supply_of_isSpelled numbers given (spells_iff.1 spelled).1

theorem supply_of_spellsAny (given : Supply final n k (t :: rest)) (spelled : t.spellsAny texts = true) :
    Supply final (n - 1) j rest :=
  supply_of_isSpelled numbers given (spellsAny_iff.1 spelled).1

theorem supply_of_name (given : Supply final n k (t :: rest)) (named : t.kind = .name) :
    Supply final (n - 1) j rest := by
  refine given.tail_of_not_mem fun mem => ?_
  have number := numbers t mem
  rw [named] at number
  cases number

theorem accept_runs (text : String) : Runs (Supply final n k) (accept text) (Supply final n k) := by
  intro ts given
  cases ts with
  | nil => exact .read given
  | cons t rest =>
      by_cases spelled : t.spells text = true
      · simp only [accept, spelled, if_true]
        exact .read ((supply_of_spells numbers given spelled).mono (Nat.sub_le n 1) (Nat.le_refl k))
      · simp only [accept, spelled, Bool.false_eq_true, if_false]
        exact .read given

end Marks

section Expressions

/-- An operator comes before all the numbers, so its operand may take one and leave as many as before. -/
theorem links_runs (signs : List String) {operand : Reader Tree} (h : Feeds final n 1 operand)
    (few : k ≤ 1) (enough : n ≤ budget) :
    Runs (Supply final n k) (links signs operand budget) (Supply final n k) := by
  induction budget generalizing n with
  | zero => exact .of_zero enough
  | succ budget ih =>
      intro ts given
      cases ts with
      | nil => exact .read given
      | cons t rest =>
          by_cases spelled : t.spellsAny signs = true
          · simp only [links, spelled, if_true]
            have fewer := h.weaken (Nat.sub_le n 1)
            have others := ih fewer (by omega)
            refine (fewer.runs few).bind (fun right => ?_) rest
              (supply_of_spellsAny numbers given spelled)
            exact (others.less (Nat.sub_le n 1) (Nat.le_refl k)).bind fun more => .pure _
          · simp only [links, spelled, Bool.false_eq_true, if_false]
            exact .read given

theorem level_feeds (kind : NodeKind) (signs : List String) {operand : Reader Tree}
    (h : Feeds final n 1 operand) (enough : n ≤ budget) :
    Feeds final n 1 (level kind signs budget operand) := by
  intro m lower k few
  have enough' : m - 1 ≤ budget := by omega
  have others := links_runs numbers signs (h.weaken (Nat.le_trans (Nat.sub_le m 1) lower)) few enough'
  exact (h m lower k few).bind fun first => others.bind fun more => .pure _

variable (two : final.length = 2)
include two

theorem operand_feeds {inner : Reader Tree} (h : Feeds final n 1 inner) :
    Feeds final (n + 1) 1 (operand inner) := by
  intro m lower k few ts given
  cases ts with
  | nil => exact absurd rfl (given.ne_nil (by omega))
  | cons t rest =>
      cases own : operandKind t.kind with
      | some kind =>
          simp only [operand, own]
          exact .read (given.tail (by omega))
      | none =>
          by_cases opens : t.spells "(" = true
          · simp only [operand, own, opens, if_true]
            have fewer : Feeds final (m - 1) 1 inner := h.weaken (by omega)
            exact ((fewer.runs few).bind fun e => (accept_runs numbers ")").bind fun _ => .pure e) rest
              (supply_of_spells numbers given opens)
          · simp only [operand, own, opens, Bool.false_eq_true, if_false]
            exact .stuck (List.cons_ne_nil t rest)

theorem unary_feeds {inner : Reader Tree} (h : Feeds final n 1 inner) :
    Feeds final (n + 1) 1 (unary inner) := by
  have operands := operand_feeds numbers two h
  intro m lower k few ts given
  cases ts with
  | nil => exact absurd rfl (given.ne_nil (by omega))
  | cons t rest =>
      by_cases negates : t.spellsAny unarySigns = true
      · simp only [unary, negates, if_true]
        have fewer : Feeds final (m - 1) 1 (operand inner) := operands.weaken (by omega)
        exact ((fewer.runs few).bind fun e => .pure _) rest
          (supply_of_spellsAny numbers given negates)
      · simp only [unary, negates, Bool.false_eq_true, if_false]
        exact operands m lower k few _ given

/-- An expression takes at most one of the two numbers. -/
theorem expression_feeds (budget : Nat) : Feeds final budget 1 (expression budget) := by
  induction budget with
  | zero => exact fun m lower k few => .of_zero lower
  | succ budget ih =>
      have enough := Nat.le_refl (budget + 1)
      have products := level_feeds numbers .product productSigns (unary_feeds numbers two ih) enough
      have sums := level_feeds numbers .sum sumSigns products enough
      have comparisons := level_feeds numbers .comparison comparisonSigns sums enough
      have conjunctions := level_feeds numbers .conjunction andSigns comparisons enough
      exact level_feeds numbers .disjunction orSigns conjunctions enough

end Expressions

section Statements

variable {inner : Reader Tree} (h : Feeds final n 1 inner)
include h

/-- The name of an assignment comes before both numbers, so that one is left behind its value. -/
theorem assignment_leaves {ts : List Token} (ahead : assignmentAhead ts = true)
    (given : Supply final n k ts) : (assignment inner ts).Leaves (Supply final (n - 1) 1) := by
  match ts, ahead with
  | name :: sign :: rest, ahead =>
      simp only [assignmentAhead, Bool.and_eq_true, decide_eq_true_eq] at ahead
      have value := (h.weaken (Nat.sub_le n 1)).runs (Nat.le_refl 1)
      exact ((accept_runs numbers "=").bind fun _ => value.bind fun right => .pure _)
        (sign :: rest) (supply_of_name numbers given ahead.1)

omit h in
theorem rowTail_runs {row : Reader (List Tree)}
    (others : Runs (Supply final n k) row (Supply final n k)) (first : Tree) :
    Runs (Supply final n k) (rowTail row first) (Supply final n k) := by
  refine (accept_runs numbers ",").bind fun goesOn => ?_
  cases goesOn with
  | true => exact others.bind fun more => .pure _
  | false => exact .pure _

theorem entryTail_runs (name : Token) :
    Runs (Supply final n 2) (entryTail inner name) (Supply final n 1) := by
  refine (accept_runs numbers "=").bind fun given => ?_
  cases given with
  | true => exact (h.runs (Nat.le_refl 1)).bind fun right => .pure _
  | false => exact (Runs.pure _).less (Nat.le_refl n) (Nat.le_succ 1)

theorem entries_runs (few : k ≤ 1) (enough : n ≤ budget) :
    Runs (Supply final n k) (entries inner budget) (Supply final n k) := by
  induction budget generalizing n k with
  | zero => exact .of_zero enough
  | succ budget ih =>
      intro ts given
      cases ts with
      | nil => exact .read given
      | cons t rest =>
          by_cases named : t.kind = .name
          · have less := h.weaken (Nat.sub_le n 1)
            have others := ih less (Nat.le_refl 1) (by omega)
            rw [entries_succ inner budget named]
            refine ((entryTail_runs numbers less t).bind (rowTail_runs numbers others)).less
              (Nat.sub_le n 1) few rest ?_
            exact supply_of_name numbers given named
          · simp only [entries, named, if_false]
            exact .read given

theorem declaration_runs (few : k ≤ 1) (enough : n ≤ budget) :
    Runs (Supply final n k) (declaration inner budget) (Supply final n k) :=
  (entries_runs numbers h few enough).bind fun _ => .pure _

theorem printing_runs : Runs (Supply final n 2) (printing inner) (Supply final n 1) :=
  (accept_runs numbers "(").bind fun _ => (h.runs (Nat.le_refl 1)).bind fun _ =>
    (accept_runs numbers ")").bind fun _ => .pure _

theorem updates_runs (few : k ≤ 1) (enough : n ≤ budget) :
    Runs (Supply final n k) (updates inner budget) (Supply final n k) := by
  induction budget generalizing n k with
  | zero => exact .of_zero enough
  | succ budget ih =>
      intro ts given
      by_cases ahead : assignmentAhead ts = true
      · have less := h.weaken (Nat.sub_le n 1)
        have others := ih less (Nat.le_refl 1) (by omega)
        rw [updates_succ inner budget ahead]
        refine leaves_bind (assignment_leaves numbers h ahead given) fun first => ?_
        exact (rowTail_runs numbers others first).less (Nat.sub_le n 1) few
      · simp only [updates, ahead, Bool.false_eq_true, if_false]
        exact .read given

/-- The start of a counting loop may take one of the two numbers. -/
theorem forInit_runs (enough : n ≤ budget) :
    Runs (Supply final n 2) (forInit inner budget) (Supply final n 1) := by
  intro ts given
  cases ts with
  | nil => exact .read (given.mono (Nat.le_refl n) (Nat.le_succ 1))
  | cons t rest =>
      by_cases declares : t.spells "decl" = true
      · simp only [forInit, declares, if_true]
        have enough' : n - 1 ≤ budget := by omega
        have declared := declaration_runs numbers (h.weaken (Nat.sub_le n 1)) (Nat.le_refl 1) enough'
        exact (declared.less (Nat.sub_le n 1) (Nat.le_refl 1)).bind (fun start => .pure _) rest
          (supply_of_spells numbers given declares)
      · by_cases ahead : assignmentAhead (t :: rest) = true
        · simp only [forInit, declares, ahead, Bool.false_eq_true, if_false, if_true]
          refine leaves_bind (assignment_leaves numbers h ahead given) fun start => ?_
          exact (Runs.pure _).less (Nat.sub_le n 1) (Nat.le_refl 1)
        · simp only [forInit, declares, ahead, Bool.false_eq_true, if_false]
          exact .read (given.mono (Nat.le_refl n) (Nat.le_succ 1))

omit numbers in
/-- The test of a counting loop may take the other one. -/
theorem forTest_runs : Runs (Supply final n 1) (forTest inner) (Supply final n 0) := by
  intro ts given
  by_cases missing : ahead ";" ts = true
  · simp only [forTest, missing, if_true]
    exact .read (given.mono (Nat.le_refl n) (Nat.zero_le 1))
  · simp only [forTest, missing, Bool.false_eq_true, if_false]
    exact ((h.runs (Nat.zero_le 1)).bind fun test => .pure _) ts given

variable {single : Reader Tree} (hs : Feeds final n 0 single)
include hs

omit h numbers in
theorem body_runs (enough : n ≤ budget) :
    Runs (Supply final n 0) (body single budget) (Supply final n 0) := by
  induction budget generalizing n with
  | zero => exact .of_zero enough
  | succ budget ih =>
      intro ts given
      by_cases ends : (ts.isEmpty || ahead "\x7d" ts) = true
      · simp only [body, ends, if_true]
        exact .read given
      · have nonempty : ts ≠ [] := by
          rintro rfl
          exact ends rfl
        simp only [body, ends, Bool.false_eq_true, if_false]
        refine (hs n (Nat.le_refl n) 0 (Nat.le_refl 0)).bind (fun first => ?_) ts (given.of_ne_nil nonempty)
        exact ((ih (hs.weaken (Nat.sub_le n 1)) (by omega)).less (Nat.sub_le n 1)
          (Nat.le_refl 0)).bind fun more => .pure _

omit h in
theorem block_runs (enough : n ≤ budget) :
    Runs (Supply final n 0) (block single budget) (Supply final n 0) :=
  (accept_runs numbers "\x7b").bind fun _ => (body_runs hs enough).bind fun _ =>
    (accept_runs numbers "\x7d").bind fun _ => .pure _

theorem guarded_runs (enough : n ≤ budget) :
    Runs (Supply final n 1) (guarded inner single budget) (Supply final n 0) :=
  (accept_runs numbers "(").bind fun _ => (h.runs (Nat.zero_le 1)).bind fun _ =>
    (accept_runs numbers ")").bind fun _ => (block_runs numbers hs enough).bind fun _ => .pure _

theorem branches_runs (enough : n ≤ budget) :
    Runs (Supply final n 0) (branches inner single budget) (Supply final n 0) := by
  induction budget generalizing n with
  | zero => exact .of_zero enough
  | succ budget ih =>
      intro ts given
      cases ts with
      | nil => exact .read given
      | cons t rest =>
          have less := h.weaken (Nat.sub_le n 1)
          have lessSingle := hs.weaken (Nat.sub_le n 1)
          have fewer : n - 1 ≤ budget := by omega
          by_cases tests : t.spells "elif" = true
          · simp only [branches, tests, if_true]
            refine (guarded_runs numbers less lessSingle fewer).bind (fun branch => ?_) rest
              (supply_of_spells numbers given tests)
            exact ((ih less lessSingle fewer).less (Nat.sub_le n 1) (Nat.le_refl 0)).bind
              fun more => .pure _
          · by_cases closes : t.spells "else" = true
            · simp only [branches, tests, closes, Bool.false_eq_true, if_false, if_true]
              exact ((block_runs numbers lessSingle fewer).less (Nat.sub_le n 1) (Nat.le_refl 0)).bind
                (fun inside => .pure _) rest (supply_of_spells numbers given closes)
            · simp only [branches, tests, closes, Bool.false_eq_true, if_false]
              exact .read given

theorem conditional_runs (enough : n ≤ budget) (t : Token) :
    Runs (Supply final n 1) (conditional inner single budget t) (Supply final n 0) :=
  (guarded_runs numbers h hs enough).bind fun _ => (branches_runs numbers h hs enough).bind fun _ =>
    .pure _

theorem whileLoop_runs (enough : n ≤ budget) :
    Runs (Supply final n 1) (whileLoop inner single budget) (Supply final n 0) :=
  (guarded_runs numbers h hs enough).bind fun _ => .pure _

/-- A counting loop is the one statement that may ask for both numbers. -/
theorem forLoop_runs (enough : n ≤ budget) :
    Runs (Supply final n 2) (forLoop inner single budget) (Supply final n 0) :=
  (accept_runs numbers "(").bind fun _ => (forInit_runs numbers h enough).bind fun _ =>
    (accept_runs numbers ";").bind fun _ => (forTest_runs h).bind fun _ =>
      (accept_runs numbers ";").bind fun _ =>
        (updates_runs numbers h (Nat.zero_le 1) enough).bind fun _ =>
          (accept_runs numbers ")").bind fun _ => (block_runs numbers hs enough).bind fun _ => .pure _

end Statements

variable (two : final.length = 2)
include two

/-- A statement at one of the numbers takes that one.  A statement that begins with a keyword has both of
them behind it. -/
theorem statement_feeds (budget : Nat) : Feeds final budget 0 (statement budget) := by
  induction budget with
  | zero => exact fun m lower k few => .of_zero lower
  | succ budget ih =>
      have expressions := expression_feeds numbers two (budget + 1)
      intro m lower k few ts given
      obtain rfl : k = 0 := Nat.le_zero.1 few
      cases ts with
      | nil => exact absurd rfl (given.ne_nil (by omega))
      | cons t rest =>
          have less : Feeds final (m - 1) 1 (expression (budget + 1)) := expressions.weaken (by omega)
          have inside : Feeds final (m - 1) 0 (statement budget) := ih.weaken (by omega)
          have enough : m - 1 ≤ budget + 1 := by omega
          simp only [statement]
          split_ifs with declares prints tests loops counts jumps assigns
          · exact declaration_runs numbers less (Nat.zero_le 1) enough rest
              (supply_of_spells numbers given declares)
          · exact (printing_runs numbers less).less (Nat.le_refl _) (Nat.zero_le 1) rest
              (supply_of_spells numbers given prints)
          · exact conditional_runs numbers less inside enough t rest
              (supply_of_spells numbers given tests)
          · exact whileLoop_runs numbers less inside enough rest
              (supply_of_spells numbers given loops)
          · exact forLoop_runs numbers less inside enough rest
              (supply_of_spells numbers given counts)
          · exact .read (supply_of_spellsAny numbers given jumps)
          · have assigned := assignment_leaves numbers (expressions.weaken lower) assigns given
            generalize assignment _ _ = reading at assigned
            cases assigned with
            | read left => exact .read (left.mono (Nat.le_refl _) (Nat.zero_le 1))
            | stuck nonempty => exact .stuck nonempty
          · exact expressions m lower 0 (Nat.zero_le 1) _ given

omit numbers two in
theorem statements_runs (budget : Nat) {single : Reader Tree} (hs : Feeds final n 0 single)
    (enough : n ≤ budget) :
    Runs (Supply final n 0) (statements single budget) (Supply final n 0) := by
  induction budget generalizing n with
  | zero => exact .of_zero enough
  | succ budget ih =>
      intro ts given
      cases ts with
      | nil => exact .read given
      | cons t rest =>
          refine (hs n (Nat.le_refl n) 0 (Nat.le_refl 0)).bind (fun first => ?_) (t :: rest)
            (given.of_ne_nil (List.cons_ne_nil t rest))
          exact ((ih (hs.weaken (Nat.sub_le n 1)) (by omega)).less (Nat.sub_le n 1)
            (Nat.le_refl 0)).bind fun more => .pure _

/-- In front of two numbers at the end, a program does not ask for more. -/
theorem program_ne_stuck_nil {ts : List Token} (ends : final <:+ ts) :
    program (ts.length + 1) ts ≠ .stuck [] := by
  intro stuck
  have runs := ((statements_runs (ts.length + 1) (statement_feeds numbers two _)
    (Nat.le_refl _)).bind fun all => .pure (Tree.node .program all)) ts
    (.of_suffix (Nat.lt_succ_self _) ends)
  rw [program] at stuck
  rw [stuck] at runs
  cases runs with
  | stuck nonempty => exact nonempty rfl

end Numbers

variable {kept rest : List Token}

/-- A reader that is stuck at a token is stuck there whatever stands behind it. -/
theorem program_stuck_cons {t : Token} {more : List Token}
    (stuck : program ((kept ++ t :: more).length + 1) (kept ++ t :: more) = .stuck (t :: more))
    (more' : List Token) :
    program ((kept ++ t :: more').length + 1) (kept ++ t :: more') = .stuck (t :: more') := by
  have unnamed : t.kind ≠ .name := by
    rcases @program_spends (kept ++ t :: more) with ⟨u, read, -⟩ | ⟨rest, stuck', -, refused⟩
    · rw [stuck] at read
      cases read
    · rw [stuck] at stuck'
      injection stuck' with same
      subst same
      intro named
      have refused := (refused t rfl).1
      rw [named] at refused
      cases refused
  exact (program_agree (.same unnamed more more') _ _).stuck_exchange (List.cons_ne_nil t more')
    (Nat.lt_succ_self _) (Nat.lt_succ_self _) stuck

/-- With two numbers instead of what it is stuck at, a program is read. -/
theorem program_read_of_stuck (stuck : program ((kept ++ rest).length + 1) (kept ++ rest) = .stuck rest)
    {a b : Token} (hfirst : a.kind = .number) (hsecond : b.kind = .number) :
    ∃ t, program ((kept ++ [a, b]).length + 1) (kept ++ [a, b]) = .read t [] := by
  have numbers : ∀ t ∈ [a, b], t.kind = .number := by simp [hfirst, hsecond]
  rcases @program_spends (kept ++ [a, b]) with ⟨t, read, -⟩ | ⟨left, stuck', suffix, refused⟩
  · exact ⟨t, read⟩
  · exfalso
    cases left with
    | nil => exact program_ne_stuck_nil numbers rfl (List.suffix_append kept [a, b]) stuck'
    | cons t more =>
        have other : t ∉ [a, b] := by
          intro mem
          have operandless := (refused t rfl).1
          rw [numbers t mem] at operandless
          cases operandless
        -- the token is one of those in front, where the readers were not stuck before
        obtain ⟨front, whole⟩ := suffix
        rcases List.append_eq_append_iff.1 whole with ⟨back, rfl, behind⟩ | ⟨back, rfl, behind⟩
        · cases back with
          | nil =>
              rw [List.nil_append] at behind
              exact other (behind ▸ List.mem_cons_self)
          | cons u back =>
              rw [List.cons_append, List.cons.injEq] at behind
              obtain ⟨rfl, rfl⟩ := behind
              rw [List.append_assoc, List.cons_append] at stuck' stuck
              have earlier := program_stuck_cons stuck' (back ++ rest)
              rw [stuck] at earlier
              injection earlier with same
              have lengths := congrArg List.length same
              rw [List.length_cons, List.length_append] at lengths
              omega
        · have mem : t ∈ [a, b] := by
            rw [behind]
            exact List.mem_append_right back List.mem_cons_self
          exact other mem

end Grammar

/-- A sequence is reported at the token at which it is stuck, whatever stands behind that. -/
theorem ofTokens_of_stuck {kept rest : List Token} {e : Token}
    (marks : ∀ t ∈ kept ++ rest, t.kind ≠ .eof) (ends : e.kind = .eof)
    (stuck : Grammar.program ((kept ++ rest).length + 1) (kept ++ rest) = .stuck rest)
    (more : List Token) :
    Tree.ofTokens (kept ++ rest.headD e :: more) = .error (.unexpectedToken (rest.headD e)) := by
  have keptMarks : ∀ t ∈ kept, t.kind ≠ .eof := fun t mem => marks t (List.mem_append_left rest mem)
  cases rest with
  | nil =>
      rw [List.append_nil] at stuck
      simp only [Tree.ofTokens, List.headD_nil, Token.beforeEnd_append keptMarks,
        Token.beforeEnd_cons_of_eof ends, List.append_nil, stuck,
        Token.endMark_append_cons keptMarks ends more]
  | cons t behind =>
      have unended : t.kind ≠ .eof := marks t (List.mem_append_right kept List.mem_cons_self)
      have unread : Token.beforeEnd (kept ++ t :: more) = kept ++ t :: Token.beforeEnd more := by
        rw [Token.beforeEnd_append keptMarks]
        simp [Token.beforeEnd, unended]
      simp only [Tree.ofTokens, List.headD_cons, unread,
        Grammar.program_stuck_cons stuck (Token.beforeEnd more)]

/-- A sequence of tokens that ends with its first end mark and is no program is reported at the first
token with which no program goes on.  Whatever follows that token, the report is the same; and what comes
in front of it is the beginning of a program, which any two numbers complete. -/
theorem ofTokens_stuck_earliest {us : List Token} {e : Token} (marks : ∀ t ∈ us, t.kind ≠ .eof)
    (ends : e.kind = .eof) {d : Diagnostic} (fails : Tree.ofTokens (us ++ [e]) = .error d) :
    ∃ k a, Tree.stuckAt? (us ++ [e]) = some k ∧ (us ++ [e])[k]? = some a ∧ d = .unexpectedToken a ∧
      (∀ ts, ts.take (k + 1) = (us ++ [e]).take (k + 1) → Tree.ofTokens ts = .error d) ∧
      ∀ first second last : Token, first.kind = .number → second.kind = .number → last.kind = .eof →
        ∃ t, Tree.ofTokens ((us ++ [e]).take k ++ [first, second, last]) = .ok t := by
  have unread : Token.beforeEnd (us ++ [e]) = us := by
    rw [Token.beforeEnd_append marks, Token.beforeEnd_cons_of_eof ends, List.append_nil]
  have mark : Token.endMark (us ++ [e]) = e := Token.endMark_append_cons marks ends []
  simp only [Tree.ofTokens, unread, mark] at fails
  rcases @Grammar.program_spends us with ⟨t, read, -⟩ | ⟨rest, stuck, ⟨kept, rfl⟩, -⟩
  · rw [read] at fails
    cases fails
  rw [stuck] at fails
  injection fails with same
  have keptMarks : ∀ t ∈ kept, t.kind ≠ .eof := fun t mem => marks t (List.mem_append_left rest mem)
  obtain ⟨behind, whole⟩ : ∃ behind, kept ++ rest ++ [e] = kept ++ rest.headD e :: behind := by
    cases rest <;> simp
  refine ⟨kept.length, rest.headD e, ?_, by simp [whole], same.symm, ?_, ?_⟩
  · simp only [Tree.stuckAt?, unread, stuck]
    rw [List.length_append, Nat.add_sub_cancel]
  · intro ts agrees
    have joined := List.take_append_drop (kept.length + 1) ts
    rw [agrees, whole, List.take_length_add_append, List.take_succ_cons, List.take_zero,
      List.append_assoc, List.singleton_append] at joined
    rw [← joined, ← same]
    exact ofTokens_of_stuck marks ends stuck _
  · intro first second last number number' ended
    have unread' : Token.beforeEnd (kept ++ [first, second, last]) = kept ++ [first, second] := by
      rw [Token.beforeEnd_append keptMarks]
      simp [Token.beforeEnd, number, number', ended]
    obtain ⟨t, read⟩ := Grammar.program_read_of_stuck stuck number number'
    rw [whole, List.take_left]
    exact ⟨t, by simp only [Tree.ofTokens, unread', read]⟩

/-- A counting loop whose start has no value. -/
def valuelessStart : List Token :=
  [⟨.keyword, "for", ⟨1, 1⟩⟩, ⟨.delimiter, "(", ⟨1, 4⟩⟩, ⟨.name, "i", ⟨1, 5⟩⟩,
    ⟨.operator, "=", ⟨1, 7⟩⟩, ⟨.delimiter, ")", ⟨1, 9⟩⟩]

/-- The loop is reported at its closing parenthesis whatever follows, and two numbers in place of that make
it complete. -/
theorem ofTokens_stuck_earliest_valuelessStart :
    ∃ d, Tree.ofTokens (valuelessStart ++ [Token.eof ⟨1, 10⟩]) = .error d ∧
      (∀ more, Tree.ofTokens (valuelessStart ++ more) = .error d) ∧
      ∃ t, Tree.ofTokens (valuelessStart.take 4 ++
        [⟨.number, "0", ⟨1, 9⟩⟩, ⟨.number, "1", ⟨1, 11⟩⟩, Token.eof ⟨1, 12⟩]) = .ok t := by
  obtain ⟨d, fails⟩ : ∃ d, Tree.ofTokens (valuelessStart ++ [Token.eof ⟨1, 10⟩]) = .error d :=
    ⟨_, rfl⟩
  obtain ⟨k, a, stuck, -, -, same, complete⟩ := ofTokens_stuck_earliest (by decide) rfl fails
  obtain rfl : 4 = k := by
    have index : Tree.stuckAt? (valuelessStart ++ [Token.eof ⟨1, 10⟩]) = some 4 := by
      decide +kernel
    rw [index] at stuck
    injection stuck
  exact ⟨d, fails, fun more => same _ rfl, complete _ _ _ rfl rfl rfl⟩

end EmojiLang
