import EmojiLang.Proofs.Eval.Respelling
import EmojiLang.Proofs.Grammar.Consumption
import Mathlib.Data.List.Forall2

/-!
# Reading does not depend on the spelling

Two token sequences are read side by side.  If their tokens are equivalent one by one, every decision of
a reader is the same on both sides, so the two are read into trees of one shape, or both readers are
stuck in front of the same number of tokens.  The places of the tokens are never asked for.

**Definitions.**
* `Reader.Parallel R A r s`: on sequences related by `R` one by one, the readers read constructs related
  by `A`, or both are stuck; what is left is related again.
* `Token.terminated`: the sequence with an end mark as its last token.
* `Tree.stuckAt?`: the index of the token at which the grammar does not go on.

**Results.**
* `Parallel.bind`: readers in sequence, side by side.
* `expression_parallel`, `statement_parallel` and `program_parallel`: the readers of the grammar.
* `mem_of_mem_leaves`: a tree has no tokens but those it has been read off.
* `ofTokens_respelled`: two spellings of a program have the same tree up to spelling, or fail at the same
  token; to put a program into plain spelling before or after reading it is the same.
-/

namespace EmojiLang

namespace Token

namespace Equivalent

variable {a b : Token} (h : a.Equivalent b)
include h

theorem spells_eq (text : String) : b.spells text = a.spells text := by
  rw [spells, spells, h.1, h.plain_eq]

theorem spellsAny_eq (texts : List String) : b.spellsAny texts = a.spellsAny texts := by
  simp only [spellsAny, funext h.spells_eq]

theorem same_plain : a.plain.same b.plain = true := by
  rw [same_iff, plain, plain, ← h.1]
  cases spelled : a.kind.isSpelled with
  | true => simp [h.1, h.plain_eq]
  | false => simp [h.1, h.text_eq spelled]

end Equivalent

end Token

namespace Tree

variable {R S : Token → Token → Prop}

theorem AlikeAll.append {ts us vs ws : List Tree} (h : AlikeAll R ts us) (k : AlikeAll R vs ws) :
    AlikeAll R (ts ++ vs) (us ++ ws) := by
  induction ts generalizing us with
  | nil =>
      rw [alikeAll_nil.1 h]
      exact k
  | cons t ts ih =>
      obtain ⟨u, us, rfl, head, tail⟩ := alikeAll_cons.1 h
      exact ⟨head, ih tail⟩

mutual

/-- The tokens of trees that are alike may be replaced on both sides. -/
theorem Alike.mapTokens {f g : Token → Token} (map : ∀ a b, R a b → S (f a) (g b)) :
    ∀ {t u : Tree}, Alike R t u → Alike S (t.mapTokens f) (u.mapTokens g)
  | .leaf a, u, h => by
      obtain ⟨b, rfl, related⟩ := alike_leaf.1 h
      exact map a b related
  | .node kind ts, u, h => by
      obtain ⟨us, rfl, row⟩ := alike_node.1 h
      exact ⟨rfl, AlikeAll.mapTokensOf map row⟩

theorem AlikeAll.mapTokensOf {f g : Token → Token} (map : ∀ a b, R a b → S (f a) (g b)) :
    ∀ {ts us : List Tree}, AlikeAll R ts us →
      AlikeAll S (Tree.mapTokensOf f ts) (Tree.mapTokensOf g us)
  | [], us, h => by
      rw [alikeAll_nil.1 h]
      trivial
  | t :: ts, us, h => by
      obtain ⟨u, us, rfl, head, tail⟩ := alikeAll_cons.1 h
      exact ⟨head.mapTokens map, AlikeAll.mapTokensOf map tail⟩

end

mutual

theorem Alike.of_mem_leaves : ∀ {t u : Tree}, Alike R t u → ∀ a ∈ t.leaves, ∃ b, R a b
  | .leaf a, u, h => by
      obtain ⟨b, -, related⟩ := alike_leaf.1 h
      simpa [leaves] using ⟨b, related⟩
  | .node kind ts, u, h => by
      obtain ⟨us, -, row⟩ := alike_node.1 h
      exact AlikeAll.of_mem_leavesOf row

theorem AlikeAll.of_mem_leavesOf :
    ∀ {ts us : List Tree}, AlikeAll R ts us → ∀ a ∈ leavesOf ts, ∃ b, R a b
  | [], us, h => by
      simp [leavesOf]
  | t :: ts, us, h => by
      obtain ⟨u, us, -, head, tail⟩ := alikeAll_cons.1 h
      intro a mem
      rcases List.mem_append.1 mem with mem | mem
      · exact head.of_mem_leaves a mem
      · exact AlikeAll.of_mem_leavesOf tail a mem

end

end Tree

/-- Both readings are constructs related by `A`, or both are stuck; the tokens that are left are related
by `R` one by one. -/
inductive Reading.Related {α : Type} (R : Token → Token → Prop) (A : α → α → Prop) :
    Reading α → Reading α → Prop
  | read {a b : α} {ts us : List Token} :
      A a b → List.Forall₂ R ts us → Related R A (.read a ts) (.read b us)
  | stuck {ts us : List Token} : List.Forall₂ R ts us → Related R A (.stuck ts) (.stuck us)

namespace Reader

variable {α β : Type} {R : Token → Token → Prop} {A : α → α → Prop} {B : β → β → Prop}

/-- Off related tokens the two readers read related constructs, or both are stuck. -/
def Parallel (R : Token → Token → Prop) (A : α → α → Prop) (r s : Reader α) : Prop :=
  ∀ ts us, List.Forall₂ R ts us → Reading.Related R A (r ts) (s us)

namespace Parallel

theorem pure {a b : α} (h : A a b) : Parallel R A (Pure.pure a) (Pure.pure b) :=
  fun _ _ related => .read h related

theorem fail : Parallel R A Reader.fail Reader.fail :=
  fun _ _ related => .stuck related

theorem bind {r s : Reader α} {f g : α → Reader β} (hr : Parallel R A r s)
    (hf : ∀ a b, A a b → Parallel R B (f a) (g b)) : Parallel R B (r >>= f) (s >>= g) := by
  intro ts us related
  have hfirst := hr ts us related
  rw [Reader.bind_apply, Reader.bind_apply]
  generalize r ts = reading, s us = reading' at hfirst
  cases hfirst with
  | read constructs left => exact hf _ _ constructs _ _ left
  | stuck left => exact .stuck left

end Parallel

section Decisions

variable (le : ∀ a b, R a b → a.Equivalent b)
include le

theorem accept_parallel (text : String) : Parallel R Eq (accept text) (accept text) := by
  rintro _ _ (_ | ⟨head, tail⟩)
  · exact .read rfl .nil
  · simp only [accept, (le _ _ head).spells_eq]
    split
    · exact .read rfl tail
    · exact .read rfl (.cons head tail)

theorem ahead_eq (text : String) {ts us : List Token} (related : List.Forall₂ R ts us) :
    ahead text us = ahead text ts := by
  cases related with
  | nil => rfl
  | cons head _ => exact (le _ _ head).spells_eq text

theorem assignmentAhead_eq {ts us : List Token} (related : List.Forall₂ R ts us) :
    assignmentAhead us = assignmentAhead ts := by
  cases related with
  | nil => rfl
  | cons hfirst rest =>
      cases rest with
      | nil => rfl
      | cons hsecond _ =>
          simp only [assignmentAhead, (le _ _ hfirst).1, (le _ _ hsecond).spells_eq]

end Decisions

end Reader

namespace Grammar

open Reader EmojiLang.Tree

variable {R : Token → Token → Prop} (le : ∀ a b, R a b → a.Equivalent b)
include le

section Expressions

theorem links_parallel (signs : List String) {operand : Reader Tree}
    (h : Parallel R (Alike R) operand operand) (budget : Nat) :
    Parallel R (AlikeAll R) (links signs operand budget) (links signs operand budget) := by
  induction budget with
  | zero => exact .fail
  | succ budget ih =>
      rintro _ _ (_ | ⟨head, tail⟩)
      · exact .read trivial .nil
      · simp only [links, (le _ _ head).spellsAny_eq]
        split
        · exact h.bind (fun right right' hright => ih.bind fun more more' hmore =>
            .pure ⟨head, hright, hmore⟩) _ _ tail
        · exact .read trivial (.cons head tail)

theorem level_parallel (kind : NodeKind) (signs : List String) (budget : Nat)
    {operand : Reader Tree} (h : Parallel R (Alike R) operand operand) :
    Parallel R (Alike R) (level kind signs budget operand) (level kind signs budget operand) := by
  refine h.bind fun first first' hfirst => ?_
  refine (links_parallel le signs h budget).bind fun more more' hmore => .pure ?_
  cases more with
  | nil =>
      rw [alikeAll_nil.1 hmore]
      exact hfirst
  | cons link more =>
      obtain ⟨link', more', rfl, hlink, hmore⟩ := alikeAll_cons.1 hmore
      exact ⟨rfl, hfirst, hlink, hmore⟩

omit le in
theorem alike_atom_of_related {a b : Token} (h : R a b) (kind : NodeKind) :
    Alike R (.atom kind a) (.atom kind b) :=
  ⟨rfl, h, trivial⟩

theorem operand_parallel {inner : Reader Tree} (h : Parallel R (Alike R) inner inner) :
    Parallel R (Alike R) (operand inner) (operand inner) := by
  rintro _ _ (_ | ⟨head, tail⟩)
  · exact .stuck .nil
  · simp only [operand, ← (le _ _ head).1, (le _ _ head).spells_eq]
    split
    · exact .read (alike_atom_of_related head _) tail
    · split
      · exact h.bind (fun e e' he => (accept_parallel le ")").bind fun _ _ _ => .pure he) _ _ tail
      · exact .stuck (.cons head tail)

theorem unary_parallel {inner : Reader Tree} (h : Parallel R (Alike R) inner inner) :
    Parallel R (Alike R) (unary inner) (unary inner) := by
  rintro _ _ (_ | ⟨head, tail⟩)
  · exact .stuck .nil
  · simp only [unary, (le _ _ head).spellsAny_eq]
    split
    · exact (operand_parallel le h).bind (fun e e' he => .pure ⟨rfl, head, he, trivial⟩) _ _ tail
    · exact operand_parallel le h _ _ (.cons head tail)

theorem expression_parallel (budget : Nat) :
    Parallel R (Alike R) (expression budget) (expression budget) := by
  induction budget with
  | zero => exact .fail
  | succ budget ih =>
      exact level_parallel le _ _ _ (level_parallel le _ _ _ (level_parallel le _ _ _
        (level_parallel le _ _ _ (level_parallel le _ _ _ (unary_parallel le ih)))))

end Expressions

section Statements

variable {inner : Reader Tree} (h : Parallel R (Alike R) inner inner)
include h

theorem assignment_parallel : Parallel R (Alike R) (assignment inner) (assignment inner) := by
  rintro _ _ (_ | ⟨head, tail⟩)
  · exact .stuck .nil
  · exact (accept_parallel le "=").bind (fun _ _ _ => h.bind fun right right' hright =>
      .pure ⟨rfl, alike_atom_of_related head _, hright, trivial⟩) _ _ tail

theorem entries_parallel (budget : Nat) :
    Parallel R (AlikeAll R) (entries inner budget) (entries inner budget) := by
  induction budget with
  | zero => exact .fail
  | succ budget ih =>
      rintro _ _ (_ | ⟨head, tail⟩)
      · exact .read trivial .nil
      · have name := alike_atom_of_related head .name
        simp only [entries, ← (le _ _ head).1]
        split
        · refine Parallel.bind (A := Alike R) ((accept_parallel le "=").bind ?_) ?_ _ _ tail
          · rintro given _ rfl
            cases given with
            | true => exact h.bind fun right right' hright => .pure ⟨rfl, name, hright, trivial⟩
            | false => exact .pure name
          · intro entry entry' hentry
            refine (accept_parallel le ",").bind ?_
            rintro goesOn _ rfl
            cases goesOn with
            | true => exact ih.bind fun more more' hmore => .pure ⟨hentry, hmore⟩
            | false => exact .pure ⟨hentry, trivial⟩
        · exact .read trivial (.cons head tail)

theorem declaration_parallel (budget : Nat) :
    Parallel R (Alike R) (declaration inner budget) (declaration inner budget) :=
  (entries_parallel le h budget).bind fun _ _ hentries => .pure ⟨rfl, hentries⟩

theorem printing_parallel : Parallel R (Alike R) (printing inner) (printing inner) :=
  (accept_parallel le "(").bind fun _ _ _ => h.bind fun _ _ he =>
    (accept_parallel le ")").bind fun _ _ _ => .pure ⟨rfl, he, trivial⟩

theorem updates_parallel (budget : Nat) :
    Parallel R (AlikeAll R) (updates inner budget) (updates inner budget) := by
  induction budget with
  | zero => exact .fail
  | succ budget ih =>
      intro ts us related
      simp only [updates, assignmentAhead_eq le related]
      split
      · refine (assignment_parallel le h).bind (fun first first' hfirst => ?_) _ _ related
        refine (accept_parallel le ",").bind ?_
        rintro goesOn _ rfl
        cases goesOn with
        | true => exact ih.bind fun more more' hmore => .pure ⟨hfirst, hmore⟩
        | false => exact .pure ⟨hfirst, trivial⟩
      · exact .read trivial related

theorem forInit_parallel (budget : Nat) :
    Parallel R (Alike R) (forInit inner budget) (forInit inner budget) := by
  have nothing : Alike R (.node .forInit []) (.node .forInit []) := ⟨rfl, trivial⟩
  rintro _ _ (_ | ⟨head, tail⟩)
  · exact .read nothing .nil
  · simp only [forInit, (le _ _ head).spells_eq, assignmentAhead_eq le (.cons head tail)]
    split
    · exact (declaration_parallel le h budget).bind (fun _ _ hd => .pure ⟨rfl, hd, trivial⟩) _ _ tail
    · split
      · exact (assignment_parallel le h).bind (fun _ _ ha => .pure ⟨rfl, ha, trivial⟩) _ _
          (.cons head tail)
      · exact .read nothing (.cons head tail)

theorem forTest_parallel : Parallel R (Alike R) (forTest inner) (forTest inner) := by
  intro ts us related
  simp only [forTest, ahead_eq le ";" related]
  split
  · exact .read ⟨rfl, trivial⟩ related
  · exact h.bind (fun _ _ he => .pure ⟨rfl, he, trivial⟩) _ _ related

variable {single : Reader Tree} (hs : Parallel R (Alike R) single single)
include hs

omit h in
theorem body_parallel (budget : Nat) :
    Parallel R (AlikeAll R) (body single budget) (body single budget) := by
  induction budget with
  | zero => exact .fail
  | succ budget ih =>
      intro ts us related
      have empty : us.isEmpty = ts.isEmpty := by
        cases related <;> rfl
      simp only [body, empty, ahead_eq le "\x7d" related]
      split
      · exact .read trivial related
      · exact hs.bind (fun _ _ hfirst => ih.bind fun _ _ hmore => .pure ⟨hfirst, hmore⟩) _ _ related

omit h in
theorem block_parallel (budget : Nat) :
    Parallel R (Alike R) (block single budget) (block single budget) :=
  (accept_parallel le "\x7b").bind fun _ _ _ => (body_parallel le hs budget).bind fun _ _ hbody =>
    (accept_parallel le "\x7d").bind fun _ _ _ => .pure ⟨rfl, hbody⟩

theorem guarded_parallel (budget : Nat) :
    Parallel R (AlikeAll R) (guarded inner single budget) (guarded inner single budget) :=
  (accept_parallel le "(").bind fun _ _ _ => h.bind fun _ _ htest =>
    (accept_parallel le ")").bind fun _ _ _ => (block_parallel le hs budget).bind fun _ _ hblock =>
      .pure ⟨htest, hblock, trivial⟩

omit le h hs in
theorem alikeAll_branch {a b : Token} {branch branch' more more' : List Tree} (keywords : R a b)
    (hbranch : AlikeAll R branch branch') (hmore : AlikeAll R more more') :
    AlikeAll R (.leaf a :: branch ++ more) (.leaf b :: branch' ++ more') := by
  have hfirst : AlikeAll R (.leaf a :: branch) (.leaf b :: branch') := ⟨keywords, hbranch⟩
  exact hfirst.append hmore

theorem branches_parallel (budget : Nat) :
    Parallel R (AlikeAll R) (branches inner single budget) (branches inner single budget) := by
  induction budget with
  | zero => exact .fail
  | succ budget ih =>
      rintro _ _ (_ | ⟨head, tail⟩)
      · exact .read trivial .nil
      · simp only [branches, (le _ _ head).spells_eq]
        split
        · exact (guarded_parallel le h hs budget).bind (fun _ _ hbranch => ih.bind fun _ _ hmore =>
            .pure (alikeAll_branch head hbranch hmore)) _ _ tail
        · split
          · exact (block_parallel le hs budget).bind (fun _ _ hlast =>
              .pure ⟨head, hlast, trivial⟩) _ _ tail
          · exact .read trivial (.cons head tail)

theorem conditional_parallel (budget : Nat) {a b : Token} (keywords : R a b) :
    Parallel R (Alike R) (conditional inner single budget a)
      (conditional inner single budget b) := by
  refine (guarded_parallel le h hs budget).bind fun branch branch' hbranch => ?_
  refine (branches_parallel le h hs budget).bind fun more more' hmore => .pure ?_
  exact ⟨rfl, alikeAll_branch keywords hbranch hmore⟩

theorem whileLoop_parallel (budget : Nat) :
    Parallel R (Alike R) (whileLoop inner single budget) (whileLoop inner single budget) :=
  (guarded_parallel le h hs budget).bind fun _ _ hparts => .pure ⟨rfl, hparts⟩

theorem forLoop_parallel (budget : Nat) :
    Parallel R (Alike R) (forLoop inner single budget) (forLoop inner single budget) :=
  (accept_parallel le "(").bind fun _ _ _ => (forInit_parallel le h budget).bind fun _ _ hstart =>
    (accept_parallel le ";").bind fun _ _ _ => (forTest_parallel le h).bind fun _ _ htest =>
      (accept_parallel le ";").bind fun _ _ _ => (updates_parallel le h budget).bind fun _ _ hsteps =>
        (accept_parallel le ")").bind fun _ _ _ => (block_parallel le hs budget).bind
          fun _ _ hblock => .pure ⟨rfl, hstart, htest, ⟨rfl, hsteps⟩, hblock, trivial⟩

end Statements

theorem statement_parallel (budget : Nat) :
    Parallel R (Alike R) (statement budget) (statement budget) := by
  induction budget with
  | zero => exact .fail
  | succ budget ih =>
      have inner := expression_parallel le (budget + 1)
      rintro _ _ (_ | ⟨head, tail⟩)
      · exact .stuck .nil
      · simp only [statement, (le _ _ head).spells_eq, (le _ _ head).spellsAny_eq,
          assignmentAhead_eq le (.cons head tail)]
        split_ifs
        · exact declaration_parallel le inner _ _ _ tail
        · exact printing_parallel le inner _ _ tail
        · exact conditional_parallel le inner ih _ head _ _ tail
        · exact whileLoop_parallel le inner ih _ _ _ tail
        · exact forLoop_parallel le inner ih _ _ _ tail
        · exact .read ⟨rfl, head, trivial⟩ tail
        · exact assignment_parallel le inner _ _ (.cons head tail)
        · exact inner _ _ (.cons head tail)

omit le in
theorem statements_parallel {single : Reader Tree} (hs : Parallel R (Alike R) single single)
    (budget : Nat) :
    Parallel R (AlikeAll R) (statements single budget) (statements single budget) := by
  induction budget with
  | zero => exact .fail
  | succ budget ih =>
      intro ts us related
      have empty : us.isEmpty = ts.isEmpty := by
        cases related <;> rfl
      simp only [statements, empty]
      split
      · exact .read trivial .nil
      · exact hs.bind (fun _ _ hfirst => ih.bind fun _ _ hmore => .pure ⟨hfirst, hmore⟩) _ _ related

theorem program_parallel (budget : Nat) :
    Parallel R (Alike R) (program budget) (program budget) :=
  (statements_parallel (statement_parallel le budget) budget).bind fun _ _ hall =>
    .pure ⟨rfl, hall⟩

end Grammar

namespace Token

/-- The sequence with an end mark as its last token.  If there is none, one is added at the place of the
last token. -/
def terminated (ts : List Token) : List Token :=
  if ts.getLast?.any fun t => decide (t.kind = .eof) then ts
  else ts ++ [Token.eof ((ts.getLast?.map Token.position).getD Position.start)]

/-- Up to the first end mark, these are the tokens that are read. -/
theorem terminated_eq_append (ts : List Token) :
    ∃ tail, terminated ts = beforeEnd ts ++ endMark ts :: tail := by
  have parts : beforeEnd ts ++ ts.dropWhile (fun t => decide (t.kind ≠ .eof)) = ts :=
    List.takeWhile_append_dropWhile
  have found : ts.find? (fun t => decide (t.kind = .eof)) =
      (ts.dropWhile fun t => decide (t.kind ≠ .eof)).head? := by
    rw [List.find?_eq_head?_dropWhile_not]
    simp
  cases left : ts.dropWhile fun t => decide (t.kind ≠ .eof) with
  | nil =>
      rw [left] at parts found
      have marks : beforeEnd ts = ts := by
        simpa using parts
      have last : ts.getLast?.any (fun t => decide (t.kind = .eof)) = false := by
        cases ends : ts.getLast? with
        | none => rfl
        | some t =>
            have mem := List.mem_of_getLast? ends
            simpa using List.find?_eq_none.1 found t mem
      exact ⟨[], by simp [terminated, endMark, last, found, marks]⟩
  | cons mark tail =>
      rw [left] at parts found
      simp only [List.head?_cons] at found
      rw [endMark, found, terminated]
      split
      · exact ⟨tail, parts.symm⟩
      · refine ⟨tail ++ [Token.eof ((ts.getLast?.map Token.position).getD Position.start)], ?_⟩
        rw [← List.cons_append, ← List.append_assoc, parts]

end Token

namespace Tree

/-- The index of the token at which no phrase of the grammar goes on. -/
def stuckAt? (ts : List Token) : Option Nat :=
  let unread := Token.beforeEnd ts
  match Grammar.program (unread.length + 1) unread with
  | .read _ _ => none
  | .stuck rest => some (unread.length - rest.length)

/-- A sequence that is not read fails at the token of that index. -/
theorem ofTokens_of_stuckAt? {ts : List Token} {i : Nat} (h : stuckAt? ts = some i) :
    ∃ a, (Token.terminated ts)[i]? = some a ∧ ofTokens ts = .error (.unexpectedToken a) := by
  rcases @Grammar.program_spends (Token.beforeEnd ts) with ⟨t, read, -⟩ | ⟨rest, stuck, left, -⟩
  · simp [stuckAt?, read] at h
  · refine ⟨rest.headD (Token.endMark ts), ?_, by simp [ofTokens, stuck]⟩
    simp only [stuckAt?, stuck, Option.some.injEq] at h
    obtain ⟨used, whole⟩ := left
    obtain ⟨tail, terminated⟩ := Token.terminated_eq_append ts
    rw [terminated, ← h, ← whole]
    cases rest <;> simp

end Tree

section Sequences

variable {R : Token → Token → Prop} (le : ∀ a b, R a b → a.Equivalent b)
include le

theorem beforeEnd_related {ts us : List Token} (related : List.Forall₂ R ts us) :
    List.Forall₂ R (Token.beforeEnd ts) (Token.beforeEnd us) := by
  induction related with
  | nil => exact .nil
  | cons head tail ih =>
      simp only [Token.beforeEnd, List.takeWhile_cons, ← (le _ _ head).1]
      split
      · exact .cons head ih
      · exact .nil

/-- Related sequences are read side by side. -/
theorem ofTokens_related {ts us : List Token} (related : List.Forall₂ R ts us) :
    (∃ t u, Tree.ofTokens ts = .ok t ∧ Tree.ofTokens us = .ok u ∧ Tree.Alike R t u) ∨
      ∃ i, Tree.stuckAt? ts = some i ∧ Tree.stuckAt? us = some i := by
  have unread := beforeEnd_related le related
  have read := Grammar.program_parallel le ((Token.beforeEnd ts).length + 1) _ _ unread
  simp only [Tree.ofTokens, Tree.stuckAt?, ← unread.length_eq]
  generalize Grammar.program _ (Token.beforeEnd ts) = reading,
    Grammar.program _ (Token.beforeEnd us) = reading' at read
  cases read with
  | read alike left => exact Or.inl ⟨_, _, rfl, rfl, alike⟩
  | stuck left =>
      refine Or.inr ⟨_, rfl, ?_⟩
      simp only [left.length_eq]

end Sequences

/-- The tokens of a tree are among those that it has been read off. -/
theorem mem_of_mem_leaves {ts : List Token} {t : Tree} (made : Tree.ofTokens ts = .ok t) {a : Token}
    (mem : a ∈ t.leaves) : a ∈ ts := by
  -- the sequence is read beside itself, its tokens being related to themselves only
  have related : List.Forall₂ (fun a b => a = b ∧ a ∈ ts) ts ts :=
    List.forall₂_same.2 fun a mem => ⟨rfl, mem⟩
  have equivalent : ∀ a b : Token, a = b ∧ a ∈ ts → a.Equivalent b := by
    rintro a _ ⟨rfl, -⟩
    exact ⟨rfl, Or.inl rfl⟩
  rcases ofTokens_related equivalent related with ⟨u, v, read, -, alike⟩ | ⟨i, stuck, -⟩
  · obtain rfl : t = u := by
      rw [made] at read
      injection read
    obtain ⟨b, -, given⟩ := alike.of_mem_leaves a mem
    exact given
  · obtain ⟨b, -, fails⟩ := Tree.ofTokens_of_stuckAt? stuck
    rw [made] at fails
    cases fails

/-- Two sequences of equivalent tokens, wherever the tokens stand, are read into trees of one shape with
equivalent leaves, which are the same in plain spelling; or both fail, at the token of the same index.
To read a sequence in plain spelling is to read it and put the tree into plain spelling. -/
theorem ofTokens_respelled {ts us : List Token} (same : List.Forall₂ Token.Equivalent ts us) :
    ((∃ t u, Tree.ofTokens ts = .ok t ∧ Tree.ofTokens us = .ok u ∧
        Tree.Alike Token.Equivalent t u ∧
        Tree.Alike (fun a b => a.same b = true) t.plain u.plain) ∨
      ∃ i a b, Tree.stuckAt? ts = some i ∧ Tree.stuckAt? us = some i ∧
        (Token.terminated ts)[i]? = some a ∧ (Token.terminated us)[i]? = some b ∧
        Tree.ofTokens ts = .error (.unexpectedToken a) ∧
        Tree.ofTokens us = .error (.unexpectedToken b)) ∧
    (Tree.ofTokens (ts.map Token.plain)).toOption = (Tree.ofTokens ts).toOption.map Tree.plain := by
  constructor
  · rcases ofTokens_related (fun _ _ h => h) same with ⟨t, u, read, read', alike⟩ | ⟨i, stuck, stuck'⟩
    · exact Or.inl ⟨t, u, read, read', alike, alike.mapTokens fun _ _ h => h.same_plain⟩
    · obtain ⟨a, token, fails⟩ := Tree.ofTokens_of_stuckAt? stuck
      obtain ⟨b, token', fails'⟩ := Tree.ofTokens_of_stuckAt? stuck'
      exact Or.inr ⟨i, a, b, stuck, stuck', token, token', fails, fails'⟩
  · have plain : List.Forall₂ (fun a b => b = Token.plain a) ts (ts.map Token.plain) :=
      List.forall₂_map_right_iff.2 (List.forall₂_same.2 fun _ _ => rfl)
    have equivalent : ∀ a b : Token, b = a.plain → a.Equivalent b := by
      rintro a _ rfl
      exact (Token.equivalentInPlace_plain a).1
    rcases ofTokens_related equivalent plain with ⟨t, u, read, read', alike⟩ | ⟨i, stuck, stuck'⟩
    · rw [read, read', Tree.eq_mapTokens_of_alike (fun _ _ => id) alike]
      rfl
    · obtain ⟨a, -, fails⟩ := Tree.ofTokens_of_stuckAt? stuck
      obtain ⟨b, -, fails'⟩ := Tree.ofTokens_of_stuckAt? stuck'
      rw [fails, fails']
      rfl

/-- An output statement in glyphs. -/
def glyphSum : List Token :=
  [⟨.keyword, "🖨", ⟨1, 1⟩⟩, ⟨.delimiter, "👉", ⟨1, 2⟩⟩, ⟨.number, "1", ⟨1, 3⟩⟩,
    ⟨.operator, "➕", ⟨1, 4⟩⟩, ⟨.number, "2", ⟨1, 5⟩⟩, ⟨.delimiter, "👈", ⟨1, 6⟩⟩]

/-- The same statement in plain spelling and somewhere else. -/
def wordSum : List Token :=
  glyphSum.map fun a => { a.plain with position := ⟨2, 3 * a.position.column⟩ }

/-- Both are read into the same plain tree, and both fail at the end if they are cut off behind the
operator. -/
theorem ofTokens_respelled_glyphSum :
    (∃ t u, Tree.ofTokens glyphSum = .ok t ∧ Tree.ofTokens wordSum = .ok u ∧
        Tree.Alike (fun a b => a.same b = true) t.plain u.plain) ∧
      ∃ a b, (Token.terminated (glyphSum.take 4))[4]? = some a ∧
        (Token.terminated (wordSum.take 4))[4]? = some b ∧
        Tree.ofTokens (glyphSum.take 4) = .error (.unexpectedToken a) ∧
        Tree.ofTokens (wordSum.take 4) = .error (.unexpectedToken b) := by
  have same : List.Forall₂ Token.Equivalent glyphSum wordSum :=
    List.forall₂_map_right_iff.2
      (List.forall₂_same.2 fun a _ => (Token.equivalentInPlace_plain a).1)
  have read : Tree.stuckAt? glyphSum = none := by
    decide +kernel
  have stuck : Tree.stuckAt? (glyphSum.take 4) = some 4 := by
    decide +kernel
  constructor
  · rcases (ofTokens_respelled same).1 with ⟨t, u, made, made', -, alike⟩ | ⟨i, _, _, fails, -⟩
    · exact ⟨t, u, made, made', alike⟩
    · simp [read] at fails
  · rcases (ofTokens_respelled (List.forall₂_take 4 same)).1 with
      ⟨t, _, made, -⟩ | ⟨i, a, b, fails, -, token, token', rest⟩
    · obtain ⟨a, -, fails⟩ := Tree.ofTokens_of_stuckAt? stuck
      simp [made] at fails
    · obtain rfl : 4 = i := by simpa [stuck] using fails
      exact ⟨a, b, token, token', rest⟩

end EmojiLang
