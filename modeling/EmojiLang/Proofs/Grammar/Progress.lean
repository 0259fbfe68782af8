import EmojiLang.Proofs.Grammar.Cursor

/-!
# The cursor makes progress

At each place the cursor does what the readers of the grammar do with the tokens in front of the next end
mark.  So every walk ends, it never goes beyond that mark, and it finds what the readers find.  Only
`advance` moves the cursor, it moves forward, and a loop that goes on has taken a token.

**Definitions.**
* `Token.throughEnd ts`: the tokens up to the first end mark.
* `Cursor.unread ts place`: the tokens from a place up to the next end mark, and `Cursor.nextEnd ts place`:
  the place of that mark.
* `Cursor.Along ts place place'`: a way forward in front of the same end mark.
* `Cursor.Faces ts place`: a token that is no end mark is at the cursor.
* `Cursor.Follows`: an outcome of a walk beside what a reader has done with the unread tokens.
* `Cursor.Tracks ts n w r`: in front of fewer than `n` unread tokens, the walk `w` follows the reader `r`.
* `Cursor.Progresses ts w place`: from a place, the walk `w` ends further on, unless it fails.

**Results.**
* `Follows.bind` and `Tracks.bind`: walks in sequence follow readers in sequence.
* `expression_tracks`, `statement_tracks` and `program_tracks`: the walks for the constructs.
* `Tracks.progresses`: a walk makes progress if it follows a reader that takes tokens.
* `parse_eq`: the walk for a program finds what `Tree.ofTokens` does.
* `parse_progress`: both for programs, and the progress of statements and expressions.
-/

namespace EmojiLang

namespace Token

open Grammar (Endless)

/-- The tokens up to the first end mark and with it, or all of them if there is none. -/
def throughEnd (ts : List Token) : List Token := ts.take ((beforeEnd ts).length + 1)

variable {ts : List Token}

theorem beforeEnd_append_end (us : List Token) {e : Token} (ends : e.kind = .eof) (more : List Token) :
    beforeEnd (us ++ e :: more) = beforeEnd us := by
  induction us with
  | nil => exact beforeEnd_cons_of_eof ends more
  | cons u us ih =>
      simp only [beforeEnd, List.cons_append, List.takeWhile_cons] at ih ⊢
      rw [ih]

/-- Either there is no end mark, or there is a first one. -/
theorem endless_or_split (ts : List Token) :
    Endless ts ∨ ∃ us e more, ts = us ++ e :: more ∧ Endless us ∧ e.kind = .eof := by
  cases hfirst : ts.find? fun t => decide (t.kind = .eof) with
  | none => exact Or.inl (by simpa [Endless] using hfirst)
  | some e =>
      obtain ⟨ends, us, more, whole, marks⟩ := List.find?_eq_some_iff_append.1 hfirst
      exact Or.inr ⟨us, e, more, whole, by simpa [Endless] using marks, of_decide_eq_true ends⟩

theorem beforeEnd_of_endless (marks : Endless ts) : beforeEnd ts = ts :=
  List.takeWhile_eq_self_iff.2 (by simpa [Endless] using marks)

theorem beforeEnd_split {us : List Token} (marks : Endless us) {e : Token} (ends : e.kind = .eof)
    (more : List Token) : beforeEnd (us ++ e :: more) = us := by
  rw [beforeEnd_append marks, beforeEnd_cons_of_eof ends, List.append_nil]

section Cut

theorem throughEnd_of_endless (marks : Endless ts) : throughEnd ts = ts := by
  rw [throughEnd, beforeEnd_of_endless marks, List.take_of_length_le (Nat.le_succ _)]

theorem throughEnd_split {us : List Token} (marks : Endless us) {e : Token} (ends : e.kind = .eof)
    (more : List Token) : throughEnd (us ++ e :: more) = us ++ [e] := by
  rw [throughEnd, beforeEnd_split marks ends, List.take_length_add_append]
  rfl

theorem beforeEnd_throughEnd (ts : List Token) : beforeEnd (throughEnd ts) = beforeEnd ts := by
  rcases endless_or_split ts with marks | ⟨us, e, more, rfl, marks, ends⟩
  · rw [throughEnd_of_endless marks]
  · rw [throughEnd_split marks ends, beforeEnd_split marks ends, beforeEnd_split marks ends]

theorem endMark_throughEnd (ts : List Token) : endMark (throughEnd ts) = endMark ts := by
  rcases endless_or_split ts with marks | ⟨us, e, more, rfl, marks, ends⟩
  · rw [throughEnd_of_endless marks]
  · rw [throughEnd_split marks ends, endMark_append_cons marks ends, endMark_append_cons marks ends]

/-- What stands behind the first end mark is not read. -/
theorem ofTokens_throughEnd (ts : List Token) : Tree.ofTokens (throughEnd ts) = Tree.ofTokens ts := by
  rw [Tree.ofTokens, Tree.ofTokens, beforeEnd_throughEnd, endMark_throughEnd]

end Cut

section Ended

/-- The ended tokens have an end mark as the last one. -/
theorem ended_eq (ts : List Token) : ∃ front e, ended ts = front ++ [e] ∧ e.kind = .eof := by
  rw [ended]
  split
  · next ends =>
      obtain ⟨e, last, stops⟩ := Option.map_eq_some_iff.1 ends
      obtain ⟨front, whole⟩ := List.getLast?_eq_some_iff.1 last
      exact ⟨front, e, whole, stops⟩
  · exact ⟨ts, _, rfl, rfl⟩

/-- So among the ended tokens there is a first end mark. -/
theorem ended_split (ts : List Token) :
    ∃ us e more, ended ts = us ++ e :: more ∧ Endless us ∧ e.kind = .eof := by
  obtain ⟨front, e, whole, ends⟩ := ended_eq ts
  rcases endless_or_split (ended ts) with marks | split
  · exact absurd ends (marks e (by simp [whole]))
  · exact split

theorem beforeEnd_ended (ts : List Token) : beforeEnd (ended ts) = beforeEnd ts := by
  rw [ended]
  split
  · rfl
  · exact beforeEnd_append_end ts rfl []

theorem endMark_ended (ts : List Token) : endMark (ended ts) = endMark ts := by
  rw [ended]
  split
  · rfl
  · cases hfirst : ts.find? fun t => decide (t.kind = .eof) with
    | some e => simp only [endMark, List.find?_append, hfirst, Option.some_or]
    | none => simp [endMark, List.find?_append, hfirst, Token.eof]

end Ended

end Token

namespace Cursor

open Reader

variable {α β : Type} {ts : List Token} {place place' place'' : Nat}

section Places

/-- The tokens from a place up to the next end mark. -/
def unread (ts : List Token) (place : Nat) : List Token := Token.beforeEnd (ts.drop place)

/-- The place of the next end mark. -/
def nextEnd (ts : List Token) (place : Nat) : Nat := place + (unread ts place).length

/-- There is an end mark at the place or behind it. -/
def Stands (ts : List Token) (place : Nat) : Prop := nextEnd ts place < ts.length

/-- The second place is not in front of the first one, and no end mark has been passed between them. -/
structure Along (ts : List Token) (place place' : Nat) : Prop where
  forward : place ≤ place'
  sameEnd : nextEnd ts place' = nextEnd ts place

namespace Along

theorem refl (ts : List Token) (place : Nat) : Along ts place place := ⟨Nat.le_refl _, rfl⟩

theorem trans (h : Along ts place place') (k : Along ts place' place'') : Along ts place place'' :=
  ⟨Nat.le_trans h.forward k.forward, k.sameEnd.trans h.sameEnd⟩

theorem stands (h : Along ts place place') (stands : Stands ts place) : Stands ts place' := by
  rw [Stands, h.sameEnd]
  exact stands

theorem length_le (h : Along ts place place') :
    (unread ts place').length ≤ (unread ts place).length := by
  have forward := h.forward
  have same := h.sameEnd
  rw [nextEnd, nextEnd] at same
  omega

/-- A way that leaves fewer tokens leads further on. -/
theorem lt (h : Along ts place place') (fewer : (unread ts place').length < (unread ts place).length) :
    place < place' := by
  have same := h.sameEnd
  rw [nextEnd, nextEnd] at same
  omega

end Along

/-- A token that is no end mark is at the cursor, in front of the other unread ones. -/
structure Faces (ts : List Token) (place : Nat) : Prop where
  goesOn : (tokenAt ts place).kind ≠ .eof
  whole : unread ts place = tokenAt ts place :: unread ts (place + 1)
  along : Along ts place (place + 1)

theorem tokenAt_eq (inside : place < ts.length) : tokenAt ts place = ts[place] := by
  have hfirst : min place (ts.length - 1) = place := by omega
  rw [tokenAt, hfirst, List.getD_eq_getElem?_getD, List.getElem?_eq_getElem inside, Option.getD_some]

/-- Either an end mark is at the cursor, or another token. -/
theorem atEnd_or_faces (stands : Stands ts place) :
    ((tokenAt ts place).kind = .eof ∧ unread ts place = []) ∨ Faces ts place := by
  have inside : place < ts.length := Nat.lt_of_le_of_lt (Nat.le_add_right _ _) stands
  have parts : unread ts place = Token.beforeEnd (tokenAt ts place :: ts.drop (place + 1)) := by
    rw [unread, List.drop_eq_getElem_cons inside, tokenAt_eq inside]
  by_cases ends : (tokenAt ts place).kind = .eof
  · exact Or.inl ⟨ends, by rw [parts, Token.beforeEnd_cons_of_eof ends]⟩
  · have whole : unread ts place = tokenAt ts place :: unread ts (place + 1) := by
      rw [parts, Token.beforeEnd, List.takeWhile_cons_of_pos (by simpa using ends)]
      rfl
    refine Or.inr ⟨ends, whole, Nat.le_succ _, ?_⟩
    rw [nextEnd, nextEnd, whole, List.length_cons]
    omega

/-- An end mark spells nothing. -/
theorem spells_of_eof {t : Token} (ends : t.kind = .eof) (text : String) : t.spells text = false := by
  simp [Token.spells, ends, TokenKind.isSpelled]

theorem spellsAny_of_eof {t : Token} (ends : t.kind = .eof) (texts : List String) :
    t.spellsAny texts = false := by
  simp [Token.spellsAny, spells_of_eof ends]

theorem ahead_unread (stands : Stands ts place) (text : String) :
    ahead text (unread ts place) = (tokenAt ts place).spells text := by
  rcases atEnd_or_faces stands with ⟨ends, empty⟩ | faces
  · rw [empty, spells_of_eof ends]
    rfl
  · rw [faces.whole]
    rfl

theorem isEmpty_unread (stands : Stands ts place) :
    (unread ts place).isEmpty = decide ((tokenAt ts place).kind = .eof) := by
  rcases atEnd_or_faces stands with ⟨ends, empty⟩ | faces
  · simp [empty, ends]
  · simp [faces.whole, faces.goesOn]

/-- To look at two tokens at once never leads beyond an end mark, since that is no name. -/
theorem assignmentAhead_unread (stands : Stands ts place) :
    assignmentAhead (unread ts place) =
      (decide ((tokenAt ts place).kind = .name) && (tokenAt ts (place + 1)).spells "=") := by
  rcases atEnd_or_faces stands with ⟨ends, empty⟩ | faces
  · simp [empty, ends, assignmentAhead]
  · rw [faces.whole]
    rcases atEnd_or_faces (faces.along.stands stands) with ⟨ends, empty⟩ | next
    · simp [empty, assignmentAhead, spells_of_eof ends]
    · rw [next.whole]
      rfl

end Places

section Following

/-- The walk from `place` has ended like the reading of the unread tokens, and what that has left is unread
where the cursor is now.  A walk that has failed reports the token at the cursor. -/
inductive Follows (ts : List Token) (place : Nat) : Option (Except Diagnostic α × Nat) → Reading α → Prop
  | read {a : α} {place' : Nat} {rest : List Token} : Along ts place place' → unread ts place' = rest →
      Follows ts place (some (.ok a, place')) (.read a rest)
  | stuck {place' : Nat} {rest : List Token} : Along ts place place' → unread ts place' = rest →
      Follows ts place (some (.error (.unexpectedToken (tokenAt ts place')), place')) (.stuck rest)

/-- In front of fewer than `n` unread tokens, the walk follows the reader. -/
def Tracks (ts : List Token) (n : Nat) (w : Walk α) (r : Reader α) : Prop :=
  ∀ place, Stands ts place → (unread ts place).length < n →
    Follows ts place (w.run place) (r (unread ts place))

variable {n m k : Nat} {w : Walk α} {r : Reader α} {f : α → Walk β} {g : α → Reader β}

namespace Follows

theorem further {outcome : Option (Except Diagnostic α × Nat)} {reading : Reading α}
    (along : Along ts place place') (h : Follows ts place' outcome reading) :
    Follows ts place outcome reading := by
  cases h with
  | read way left => exact .read (along.trans way) left
  | stuck way left => exact .stuck (along.trans way) left

/-- Nothing has been read. -/
theorem here (a : α) : Follows ts place (some (.ok a, place)) (.read a (unread ts place)) :=
  .read (.refl ts place) rfl

/-- Walks in sequence, the second of them after whatever the first one has read. -/
theorem bind {us : List Token} (h : Follows ts place (w.run place) (r us)) (stands : Stands ts place)
    (hf : ∀ a rest, r us = .read a rest → rest.length ≤ (unread ts place).length →
      rest.length < m ∧ Tracks ts m (f a) (g a)) :
    Follows ts place ((w >>= f).run place) ((r >>= g) us) := by
  rw [Walk.run_bind, Reader.bind_apply]
  generalize w.run place = outcome, r us = reading at h hf
  cases h with
  | stuck along left => exact .stuck along left
  | @read a place' rest along left =>
      subst left
      obtain ⟨short, tracks⟩ := hf a _ rfl along.length_le
      exact (tracks place' (along.stands stands) short).further along

end Follows

namespace Tracks

theorem weaken (h : Tracks ts n w r) (le : m ≤ n) : Tracks ts m w r :=
  fun place stands short => h place stands (Nat.lt_of_lt_of_le short le)

theorem fewer (h : Tracks ts n w r) : Tracks ts (n - 1) w r := h.weaken (Nat.sub_le n 1)

/-- No tokens are fewer than none. -/
theorem of_zero (exhausted : n ≤ 0) : Tracks ts n w r := by
  intro place _ short
  omega

theorem pure (a : α) : Tracks ts n (Pure.pure a) (Pure.pure a) :=
  fun _ _ _ => .here a

theorem bind (hw : Tracks ts n w r) (hf : ∀ a, Tracks ts n (f a) (g a)) :
    Tracks ts n (w >>= f) (r >>= g) := by
  intro place stands short
  exact (hw place stands short).bind stands fun a rest _ le => ⟨Nat.lt_of_le_of_lt le short, hf a⟩

/-- The second walk has fewer tokens in front of it, by those that the first reader takes. -/
theorem bind_taking (hw : Tracks ts n w r) (takes : Takes n k r)
    (hf : ∀ a, Tracks ts (n - k) (f a) (g a)) : Tracks ts n (w >>= f) (r >>= g) := by
  intro place stands short
  refine (hw place stands short).bind stands fun a rest read _ => ⟨?_, hf a⟩
  have taken := takes _ a rest short read
  omega

end Tracks

/-- A walk that steps over the token at the cursor, beside what a reader does behind that token. -/
theorem Faces.advance {f : Token → Walk α} (h : Faces ts place) (stands : Stands ts place)
    (short : (unread ts place).length < n) (hf : Tracks ts (n - 1) (f (tokenAt ts place)) r) :
    Follows ts place ((Cursor.advance ts >>= f).run place) (r (unread ts (place + 1))) := by
  rw [run_advance_bind ts h.goesOn]
  refine (hf (place + 1) (h.along.stands stands) ?_).further h.along
  rw [h.whole, List.length_cons] at short
  omega

theorem eat_tracks (text : String) : Tracks ts n (eat ts text) (accept text) := by
  intro place stands short
  by_cases spelled : (tokenAt ts place).spells text = true
  · rcases atEnd_or_faces stands with ⟨ends, empty⟩ | faces
    · rw [spells_of_eof ends] at spelled
      cases spelled
    · simp only [eat, run_check_bind, spelled, if_true, faces.whole, accept]
      exact faces.advance stands short (.pure true)
  · have refused : accept text (unread ts place) = .read false (unread ts place) := by
      rcases atEnd_or_faces stands with ⟨ends, empty⟩ | faces
      · rw [empty, accept]
      · rw [faces.whole, accept, if_neg spelled]
    simp only [eat, run_check_bind, spelled, Bool.false_eq_true, if_false, refused]
    exact .here false

end Following

section Expressions

variable {n budget : Nat}

/-- Where the links of a chain begin, there is one. -/
theorem isEmpty_of_links {signs : List String} {operand : Reader Tree} {t : Token}
    (spelled : t.spellsAny signs = true) {rest left : List Token} {row : List Tree}
    (read : Grammar.links signs operand budget (t :: rest) = .read row left) : row.isEmpty = false := by
  cases budget with
  | zero => cases read
  | succ budget =>
      simp only [Grammar.links, spelled, if_true, Reader.on, Reader.bind_apply, Reader.pure_apply] at read
      cases hfirst : operand rest with
      | stuck _ => simp [hfirst] at read
      | read right more =>
          cases others : Grammar.links signs operand budget more with
          | stuck _ => simp [hfirst, others] at read
          | read row' last =>
              simp only [hfirst, others, Reading.read.injEq] at read
              rw [← read.1]
              rfl

variable {rungs : List (NodeKind × List String)} {operand : Reader Tree}

/-- Each link takes its operator, so that the budget lasts for all of them. -/
theorem links_tracks (signs : List String) (h : Tracks ts n (climb (ts, rungs)) operand)
    (enough : n ≤ budget) :
    Tracks ts n (links (ts, signs, rungs)) (Grammar.links signs operand budget) := by
  induction budget generalizing n with
  | zero => exact .of_zero enough
  | succ budget ih =>
      intro place stands short
      rw [links, run_checkAny_bind, run_ite]
      rcases atEnd_or_faces stands with ⟨ends, empty⟩ | faces
      · simp only [spellsAny_of_eof ends, Bool.false_eq_true, if_false, empty, Grammar.links]
        exact .read (.refl ts place) empty
      · simp only [faces.whole, Grammar.links]
        split
        · exact faces.advance stands short
            (h.fewer.bind fun right => (ih h.fewer (by omega)).bind fun more => .pure _)
        · exact .read (.refl ts place) faces.whole

/-- One level.  Whether there are any links can be told from the token at the cursor. -/
theorem level_tracks (kind : NodeKind) (signs : List String) (h : Tracks ts n (climb (ts, rungs)) operand)
    (enough : n ≤ budget) :
    Tracks ts n (climb (ts, (kind, signs) :: rungs)) (Grammar.level kind signs budget operand) := by
  have links := links_tracks signs h enough
  rw [climb]
  refine h.bind fun first place stands short => ?_
  rw [run_checkAny_bind, run_ite]
  by_cases spelled : (tokenAt ts place).spellsAny signs = true
  · rw [if_pos spelled]
    refine (links place stands short).bind stands fun row rest read le =>
      ⟨Nat.lt_of_le_of_lt le short, ?_⟩
    rcases atEnd_or_faces stands with ⟨ends, empty⟩ | faces
    · rw [spellsAny_of_eof ends] at spelled
      cases spelled
    · rw [faces.whole] at read
      rw [isEmpty_of_links spelled read]
      exact .pure _
  · have followed := links place stands short
    rw [Cursor.links, run_checkAny_bind, run_ite, if_neg spelled, Walk.run_pure] at followed
    rw [if_neg spelled, Walk.run_pure, Reader.bind_apply]
    generalize Grammar.links signs operand budget (unread ts place) = reading at followed
    cases followed with
    | read along left => exact .read along left

theorem climb_tracks {inner : Reader Tree} (h : Tracks ts n (unary ts) (Grammar.unary inner))
    (enough : n ≤ budget) (rungs : List (NodeKind × List String)) :
    Tracks ts n (climb (ts, rungs)) (Grammar.climb budget inner rungs) := by
  induction rungs with
  | nil =>
      rw [climb]
      exact h
  | cons rung rungs ih => exact level_tracks rung.1 rung.2 ih enough

/-- An operand in parentheses has fewer tokens in front of it. -/
theorem operand_tracks {inner : Reader Tree} (h : Tracks ts n (expression ts) inner) :
    Tracks ts (n + 1) (Cursor.operand ts) (Grammar.operand inner) := by
  intro place stands short
  rw [Cursor.operand, run_peek_bind]
  rcases atEnd_or_faces stands with ⟨ends, empty⟩ | faces
  · simp only [ends, Grammar.operandKind, run_check_bind, spells_of_eof ends, Bool.false_eq_true, if_false,
      Walk.run_throw, empty, Grammar.operand]
    exact .stuck (.refl ts place) empty
  · simp only [faces.whole, Grammar.operand]
    cases own : Grammar.operandKind (tokenAt ts place).kind with
    | some kind => exact faces.advance stands short (.pure _)
    | none =>
        simp only [run_check_bind, run_ite]
        split
        · exact faces.advance stands short (h.bind fun inner => (eat_tracks ")").bind fun _ => .pure inner)
        · exact .stuck (.refl ts place) faces.whole

theorem unary_tracks {inner : Reader Tree} (h : Tracks ts n (expression ts) inner) :
    Tracks ts (n + 1) (unary ts) (Grammar.unary inner) := by
  intro place stands short
  have direct := operand_tracks h place stands short
  rw [unary, run_checkAny_bind, run_ite]
  rcases atEnd_or_faces stands with ⟨ends, empty⟩ | faces
  · rw [empty] at direct ⊢
    rw [spellsAny_of_eof ends, if_neg Bool.false_ne_true]
    exact direct
  · rw [faces.whole] at direct ⊢
    rw [Grammar.unary]
    split
    · exact faces.advance stands short ((operand_tracks h).fewer.bind fun right => .pure _)
    · exact direct

/-- The walk for an expression follows the reader as far as its budget goes. -/
theorem expression_tracks (budget : Nat) :
    Tracks ts budget (expression ts) (Grammar.expression budget) := by
  induction budget with
  | zero => exact .of_zero (Nat.le_refl 0)
  | succ budget ih =>
      rw [expression, Grammar.expression_eq_climb]
      exact climb_tracks (unary_tracks ih) (Nat.le_refl _) Grammar.ladder

end Expressions

section Statements

variable {n budget : Nat} {inner : Reader Tree} (h : Tracks ts n (expression ts) inner)
include h

theorem assignment_follows (stands : Stands ts place) (short : (unread ts place).length < n)
    (ahead : assignmentAhead (unread ts place) = true) :
    Follows ts place ((assignment ts).run place) (Grammar.assignment inner (unread ts place)) := by
  rcases atEnd_or_faces stands with ⟨ends, empty⟩ | faces
  · rw [empty] at ahead
    cases ahead
  · rw [faces.whole, assignment, Grammar.assignment]
    exact faces.advance stands short ((eat_tracks "=").bind fun _ => h.fewer.bind fun right => .pure _)

theorem entries_tracks (enough : n ≤ budget) :
    Tracks ts n (entries ts) (Grammar.entries inner budget) := by
  induction budget generalizing n with
  | zero => exact .of_zero enough
  | succ budget ih =>
      intro place stands short
      rw [entries, run_atName_bind, run_ite]
      rcases atEnd_or_faces stands with ⟨ends, empty⟩ | faces
      · simp only [ends, reduceCtorEq, decide_false, Bool.false_eq_true, if_false, empty, Grammar.entries]
        exact .read (.refl ts place) empty
      · simp only [faces.whole, Grammar.entries, decide_eq_true_eq]
        split
        · refine faces.advance stands short (Tracks.bind ?_ fun entry => ?_)
          · refine (eat_tracks "=").bind fun given => ?_
            cases given with
            | true => exact h.fewer.bind fun right => .pure _
            | false => exact .pure _
          · refine (eat_tracks ",").bind fun goesOn => ?_
            cases goesOn with
            | true => exact (ih h.fewer (by omega)).bind fun more => .pure _
            | false => exact .pure _
        · exact .read (.refl ts place) faces.whole

/-- A declaration, with its keyword at the cursor. -/
theorem declaration_follows (stands : Stands ts place) (short : (unread ts place).length ≤ n)
    (faces : Faces ts place) (enough : n ≤ budget) :
    Follows ts place ((declaration ts).run place)
      (Grammar.declaration inner budget (unread ts (place + 1))) :=
  faces.advance stands (Nat.lt_succ_of_le short) ((entries_tracks h enough).bind fun _ => .pure _)

/-- An output statement, with its keyword at the cursor. -/
theorem printing_follows (stands : Stands ts place) (short : (unread ts place).length ≤ n)
    (faces : Faces ts place) :
    Follows ts place ((printing ts).run place) (Grammar.printing inner (unread ts (place + 1))) :=
  faces.advance stands (Nat.lt_succ_of_le short) ((eat_tracks "(").bind fun _ =>
    h.bind fun _ => (eat_tracks ")").bind fun _ => .pure _)

/-- An assignment takes its name, so that the budget lasts for all updates. -/
theorem updates_tracks (spends : Spends n inner Grammar.SpentOn) (enough : n ≤ budget) :
    Tracks ts n (updates ts) (Grammar.updates inner budget) := by
  induction budget generalizing n with
  | zero => exact .of_zero enough
  | succ budget ih =>
      intro place stands short
      rw [updates, run_atAssignment_bind, run_ite, ← assignmentAhead_unread stands]
      simp only [Grammar.updates]
      split
      · next ahead =>
          have less : ∀ t rest, Grammar.assignment inner (unread ts place) = .read t rest →
              rest.length < n - 1 := by
            intro t rest read
            have taken := Grammar.assignment_splits spends ahead short
            rw [read] at taken
            cases taken with
            | @read used _ _ whole spent =>
                have positive := List.length_pos_iff.2 spent.1
                rw [whole, List.length_append] at short
                omega
          refine (assignment_follows h stands short ahead).bind stands fun first rest read _ =>
            ⟨less first rest read, (eat_tracks ",").bind fun goesOn => ?_⟩
          cases goesOn with
          | true => exact (ih h.fewer (spends.weaken (Nat.sub_le n 1)) (by omega)).bind fun more => .pure _
          | false => exact .pure _
      · exact .here []

theorem forInit_tracks (enough : n ≤ budget) :
    Tracks ts n (forInit ts) (Grammar.forInit inner budget) := by
  intro place stands short
  rw [forInit, run_check_bind, run_ite, run_atAssignment_bind, run_ite, ← assignmentAhead_unread stands]
  rcases atEnd_or_faces stands with ⟨ends, empty⟩ | faces
  · rw [empty, spells_of_eof ends]
    exact .read (.refl ts place) empty
  · rw [faces.whole, Grammar.forInit]
    split
    · exact (declaration_follows h stands (Nat.le_of_lt short) faces enough).bind stands
        fun start rest _ le => ⟨Nat.lt_of_le_of_lt le short, .pure _⟩
    · split
      · next ahead =>
          rw [← faces.whole] at ahead ⊢
          exact (assignment_follows h stands short ahead).bind stands fun start rest _ le =>
            ⟨Nat.lt_of_le_of_lt le short, .pure _⟩
      · exact .read (.refl ts place) faces.whole

theorem forTest_tracks : Tracks ts n (forTest ts) (Grammar.forTest inner) := by
  intro place stands short
  rw [forTest, run_check_bind, run_ite, Grammar.forTest, ahead_unread stands]
  split
  · exact .here _
  · exact (h.bind fun test => .pure _) place stands short

omit h
variable {single : Reader Tree} (hs : Tracks ts n (statement ts) single) (takes : Takes n 1 single)
include hs takes

/-- Each statement takes a token, so that the budget lasts for all of them. -/
theorem body_tracks (enough : n ≤ budget) : Tracks ts n (body ts) (Grammar.body single budget) := by
  induction budget generalizing n with
  | zero => exact .of_zero enough
  | succ budget ih =>
      intro place stands short
      rw [body, run_check_bind, run_ite, run_atEnd_bind, run_ite]
      simp only [Grammar.body, isEmpty_unread stands, ahead_unread stands, Bool.or_eq_true]
      by_cases closes : (tokenAt ts place).spells "\x7d" = true
      · rw [if_pos closes, if_pos (Or.inr closes)]
        exact .here []
      · by_cases ends : decide ((tokenAt ts place).kind = .eof) = true
        · rw [if_neg closes, if_pos ends, if_pos (Or.inl ends)]
          exact .here []
        · rw [if_neg closes, if_neg ends, if_neg (not_or_intro ends closes)]
          exact (hs.bind_taking takes fun first =>
            (ih hs.fewer (takes.weaken (Nat.sub_le n 1)) (by omega)).bind fun more => .pure _)
              place stands short

theorem block_tracks (enough : n ≤ budget) : Tracks ts n (block ts) (Grammar.block single budget) := by
  rw [block]
  exact (eat_tracks "\x7b").bind fun _ => (body_tracks hs takes enough).bind fun _ =>
    (eat_tracks "\x7d").bind fun _ => .pure _

include h

theorem guarded_tracks (enough : n ≤ budget) :
    Tracks ts n (guarded ts) (Grammar.guarded inner single budget) := by
  rw [guarded]
  exact (eat_tracks "(").bind fun _ => h.bind fun _ => (eat_tracks ")").bind fun _ =>
    (block_tracks hs takes enough).bind fun _ => .pure _

/-- Each further branch takes its keyword, so that the budget lasts for all of them. -/
theorem branches_tracks (enough : n ≤ budget) :
    Tracks ts n (branches ts) (Grammar.branches inner single budget) := by
  induction budget generalizing n with
  | zero => exact .of_zero enough
  | succ budget ih =>
      intro place stands short
      rw [branches, run_check_bind, run_ite, run_check_bind, run_ite]
      rcases atEnd_or_faces stands with ⟨ends, empty⟩ | faces
      · simp only [spells_of_eof ends, Bool.false_eq_true, if_false, empty, Grammar.branches]
        exact .read (.refl ts place) empty
      · have smaller := takes.weaken (Nat.sub_le n 1)
        simp only [faces.whole, Grammar.branches]
        split_ifs with further last
        · exact faces.advance stands short
            ((guarded_tracks h.fewer hs.fewer smaller (by omega)).bind fun branch =>
              (ih h.fewer hs.fewer smaller (by omega)).bind fun more => .pure _)
        · exact faces.advance stands short
            ((block_tracks hs.fewer smaller (by omega)).bind fun last => .pure _)
        · exact .read (.refl ts place) faces.whole

/-- A conditional, with its keyword at the cursor. -/
theorem conditional_follows (stands : Stands ts place) (short : (unread ts place).length ≤ n)
    (faces : Faces ts place) (enough : n ≤ budget) :
    Follows ts place ((conditional ts).run place)
      (Grammar.conditional inner single budget (tokenAt ts place) (unread ts (place + 1))) := by
  rw [conditional]
  exact faces.advance stands (Nat.lt_succ_of_le short)
    ((guarded_tracks h hs takes enough).bind fun branch =>
      (branches_tracks h hs takes enough).bind fun more => .pure _)

/-- A loop with a test only, with its keyword at the cursor. -/
theorem whileLoop_follows (stands : Stands ts place) (short : (unread ts place).length ≤ n)
    (faces : Faces ts place) (enough : n ≤ budget) :
    Follows ts place ((whileLoop ts).run place)
      (Grammar.whileLoop inner single budget (unread ts (place + 1))) := by
  rw [whileLoop]
  exact faces.advance stands (Nat.lt_succ_of_le short)
    ((guarded_tracks h hs takes enough).bind fun parts => .pure _)

/-- A counting loop, with its keyword at the cursor. -/
theorem forLoop_follows (spends : Spends n inner Grammar.SpentOn) (stands : Stands ts place)
    (short : (unread ts place).length ≤ n) (faces : Faces ts place) (enough : n ≤ budget) :
    Follows ts place ((forLoop ts).run place)
      (Grammar.forLoop inner single budget (unread ts (place + 1))) := by
  rw [forLoop]
  exact faces.advance stands (Nat.lt_succ_of_le short)
    ((eat_tracks "(").bind fun _ => (forInit_tracks h enough).bind fun start =>
      (eat_tracks ";").bind fun _ => (forTest_tracks h).bind fun test =>
        (eat_tracks ";").bind fun _ => (updates_tracks h spends enough).bind fun steps =>
          (eat_tracks ")").bind fun _ => (block_tracks hs takes enough).bind fun inner => .pure _)

end Statements

section Programs

theorem expression_takes (budget : Nat) : Takes budget 1 (Grammar.expression budget) :=
  (Grammar.expression_spends budget).takes fun _ _ spent => spent.1

theorem statement_takes (budget : Nat) : Takes budget 1 (Grammar.statement budget) :=
  (Grammar.statement_spends budget).takes fun _ _ spent => spent.1

/-- The walk for a statement follows the reader as far as its budget goes. -/
theorem statement_tracks (budget : Nat) :
    Tracks ts budget (statement ts) (Grammar.statement budget) := by
  induction budget with
  | zero => exact .of_zero (Nat.le_refl 0)
  | succ budget ih =>
      have inner : Tracks ts (budget + 1) (expression ts) (Grammar.expression (budget + 1)) :=
        expression_tracks (budget + 1)
      have fewer := inner.weaken (Nat.le_succ budget)
      have spends := (Grammar.expression_spends (budget + 1)).weaken (Nat.le_succ budget)
      have takes := statement_takes budget
      have enough := Nat.le_succ budget
      intro place stands short
      rw [statement]
      simp only [run_check_bind, run_checkAny_bind, run_atAssignment_bind, run_ite,
        ← assignmentAhead_unread stands]
      rcases atEnd_or_faces stands with ⟨ends, empty⟩ | faces
      · simp only [spells_of_eof ends, spellsAny_of_eof ends, empty, assignmentAhead, Bool.false_eq_true,
          if_false]
        have stuck := inner place stands short
        rw [empty, Grammar.expression_nil] at stuck
        exact stuck
      · have less := Nat.le_of_lt_succ short
        have whole := faces.whole
        rw [whole]
        simp only [Grammar.statement]
        split_ifs with declares prints tests loops counts jumps assigns
        · exact declaration_follows fewer stands less faces enough
        · exact printing_follows fewer stands less faces
        · exact conditional_follows fewer ih takes stands less faces enough
        · exact whileLoop_follows fewer ih takes stands less faces enough
        · exact forLoop_follows fewer ih takes spends stands less faces enough
        · exact faces.advance stands short (.pure _)
        · rw [← whole] at assigns ⊢
          exact assignment_follows inner stands short assigns
        · rw [← whole]
          exact inner place stands short

theorem statements_tracks {n budget : Nat} {single : Reader Tree} (hs : Tracks ts n (statement ts) single)
    (takes : Takes n 1 single) (enough : n ≤ budget) :
    Tracks ts n (statements ts) (Grammar.statements single budget) := by
  induction budget generalizing n with
  | zero => exact .of_zero enough
  | succ budget ih =>
      intro place stands short
      rw [statements, run_atEnd_bind, run_ite]
      simp only [Grammar.statements, isEmpty_unread stands]
      rcases atEnd_or_faces stands with ⟨ends, empty⟩ | faces
      · simp only [ends, decide_true, if_true]
        exact .read (.refl ts place) empty
      · simp only [faces.goesOn, decide_false, Bool.false_eq_true, if_false]
        exact (hs.bind_taking takes fun first =>
          (ih hs.fewer (takes.weaken (Nat.sub_le n 1)) (by omega)).bind fun more => .pure _)
            place stands short

theorem program_tracks (budget : Nat) : Tracks ts budget (program ts) (Grammar.program budget) :=
  (statements_tracks (statement_tracks budget) (statement_takes budget) (Nat.le_refl budget)).bind
    fun _ => .pure _

end Programs

section Progress

/-- The walk ends, and not behind the next end mark.  It has moved the cursor forward unless it fails. -/
def Progresses {α : Type} (ts : List Token) (w : Walk α) (place : Nat) : Prop :=
  ∃ outcome after, w.run place = some (outcome, after) ∧ after ≤ nextEnd ts place ∧
    match outcome with
    | .ok _ => place < after
    | .error _ => place ≤ after

theorem Along.le_nextEnd {place' : Nat} (h : Along ts place place') : place' ≤ nextEnd ts place := by
  rw [← h.sameEnd]
  exact Nat.le_add_right _ _

/-- A walk makes progress if it follows a reader that takes tokens. -/
theorem Tracks.progresses {α : Type} {n : Nat} {w : Walk α} {r : Reader α} (h : Tracks ts n w r)
    (takes : Takes n 1 r) (stands : Stands ts place) (short : (unread ts place).length < n) :
    Progresses ts w place := by
  have followed := h place stands short
  have taken := takes (unread ts place)
  rw [Progresses]
  generalize w.run place = outcome, r (unread ts place) = reading at followed taken
  cases followed with
  | read along left =>
      have fewer := taken _ _ short rfl
      rw [← left] at fewer
      exact ⟨_, _, rfl, along.le_nextEnd, along.lt fewer⟩
  | stuck along left => exact ⟨_, _, rfl, along.le_nextEnd, along.forward⟩

/-- To step over a token that is no end mark is progress. -/
theorem Faces.progresses (h : Faces ts place) : Progresses ts (Cursor.advance ts) place :=
  ⟨_, _, run_advance ts h.goesOn, h.along.le_nextEnd, Nat.lt_succ_self place⟩

theorem stands_ended (inside : place < (Token.ended ts).length) : Stands (Token.ended ts) place := by
  obtain ⟨front, e, whole, ends⟩ := Token.ended_eq ts
  rw [whole, List.length_append, List.length_singleton] at inside
  have rest : unread (front ++ [e]) place = Token.beforeEnd (front.drop place) := by
    rw [unread, List.drop_append_of_le_length (by omega), Token.beforeEnd_append_end _ ends]
  have short : (Token.beforeEnd (front.drop place)).length ≤ (front.drop place).length :=
    (List.takeWhile_prefix _).length_le
  rw [List.length_drop] at short
  rw [Stands, nextEnd, whole, rest, List.length_append, List.length_singleton]
  omega

theorem unread_ended (ts : List Token) : unread (Token.ended ts) 0 = Token.beforeEnd ts := by
  rw [unread, List.drop_zero, Token.beforeEnd_ended]

/-- The token at the cursor is the first one that is unread, or else the next end mark. -/
theorem tokenAt_eq_headD (stands : Stands ts place) :
    tokenAt ts place = (unread ts place).headD (tokenAt ts (nextEnd ts place)) := by
  rcases atEnd_or_faces stands with ⟨_, empty⟩ | faces
  · rw [nextEnd, empty]
    rfl
  · rw [faces.whole]
    rfl

theorem tokenAt_nextEnd (ts : List Token) :
    tokenAt (Token.ended ts) (Token.beforeEnd ts).length = Token.endMark ts := by
  obtain ⟨us, e, more, split, marks, ends⟩ := Token.ended_split ts
  rw [← Token.beforeEnd_ended ts, ← Token.endMark_ended ts, split, Token.beforeEnd_split marks ends,
    Token.endMark_append_cons marks ends, tokenAt_eq (by simp)]
  simp

/-- Up to the first end mark, the next one is the first one. -/
theorem nextEnd_ended (inside : place ≤ (Token.beforeEnd ts).length) :
    nextEnd (Token.ended ts) place = (Token.beforeEnd ts).length := by
  obtain ⟨us, e, more, split, marks, ends⟩ := Token.ended_split ts
  rw [← Token.beforeEnd_ended ts, split, Token.beforeEnd_split marks ends] at inside ⊢
  rw [nextEnd, unread, List.drop_append_of_le_length inside, Token.beforeEnd_append_end _ ends,
    Token.beforeEnd_of_endless fun t mem => marks t (List.mem_of_mem_drop mem), List.length_drop]
  omega

/-- The walk for a program ends with what its tokens spell, and it leaves as many tokens unread as the
reader. -/
theorem parse_eq (ts : List Token) :
    parse ts = some (Tree.ofTokens ts, (Token.beforeEnd ts).length -
      (Grammar.program ((Token.beforeEnd ts).length + 1) (Token.beforeEnd ts)).left.length) := by
  have stands : Stands (Token.ended ts) 0 := by
    obtain ⟨front, e, whole, _⟩ := Token.ended_eq ts
    exact stands_ended (by simp [whole])
  have outcome := program_tracks ((Token.beforeEnd ts).length + 1) 0 stands
    (by rw [unread_ended]; exact Nat.lt_succ_self _)
  rw [unread_ended] at outcome
  rw [parse, Tree.ofTokens]
  generalize (program (Token.ended ts)).run 0 = walked,
    Grammar.program ((Token.beforeEnd ts).length + 1) (Token.beforeEnd ts) = reading at outcome
  have place_eq : ∀ place, Along (Token.ended ts) 0 place →
      (Token.beforeEnd ts).length - (unread (Token.ended ts) place).length = place := by
    intro place along
    have same := along.sameEnd
    rw [nextEnd, nextEnd, unread_ended] at same
    omega
  cases outcome with
  | @read t last rest along left =>
      subst left
      simp only [Reading.left, place_eq last along]
  | @stuck last rest along left =>
      subst left
      have stops := tokenAt_eq_headD (along.stands stands)
      rw [along.sameEnd, nextEnd, unread_ended, Nat.zero_add, tokenAt_nextEnd] at stops
      simp only [Reading.left, place_eq last along, ← stops]

/-- Whatever the tokens are, the walk for a program ends, with the tree or the failure that they spell, and
not behind the first end mark.  What stands behind that mark does not matter.  From every place, a walk for
a statement or an expression ends as well: it fails, or the cursor is further on than before, and in neither
case it has passed the next end mark.  Only `advance` moves the cursor: over a token that is no end mark. -/
theorem parse_progress (ts : List Token) :
    (∃ last, parse ts = some (Tree.ofTokens ts, last) ∧ last ≤ (Token.beforeEnd ts).length) ∧
      parse (Token.throughEnd ts) = parse ts ∧
      (∀ place ≤ (Token.beforeEnd ts).length,
        nextEnd (Token.ended ts) place = (Token.beforeEnd ts).length) ∧
      ∀ place < (Token.ended ts).length,
        Progresses (Token.ended ts) (statement (Token.ended ts)) place ∧
          Progresses (Token.ended ts) (expression (Token.ended ts)) place ∧
          if (tokenAt (Token.ended ts) place).kind = .eof then
            (advance (Token.ended ts)).run place = some (.ok (tokenAt (Token.ended ts) place), place)
          else Progresses (Token.ended ts) (advance (Token.ended ts)) place := by
  refine ⟨⟨_, parse_eq ts, Nat.sub_le _ _⟩, ?_, fun _ => nextEnd_ended, fun place inside => ?_⟩
  · rw [parse_eq, parse_eq, Token.beforeEnd_throughEnd, Token.ofTokens_throughEnd]
  · have stands := stands_ended inside
    have short := Nat.lt_succ_self (unread (Token.ended ts) place).length
    refine ⟨?_, ?_, ?_⟩
    · exact (statement_tracks _).progresses (statement_takes _) stands short
    · exact (expression_tracks _).progresses (expression_takes _) stands short
    · split
      · next ends => exact run_advance_of_eof _ ends
      · next goesOn =>
          rcases atEnd_or_faces stands with ⟨ends, _⟩ | faces
          · exact absurd ends goesOn
          · exact faces.progresses

end Progress

end Cursor

end EmojiLang
