import EmojiLang.Proofs.Grammar.Lookahead
import Mathlib.Data.List.Forall2

/-!
# The segments of a program

Statements have no terminators.  All the same the tokens of a program fall into segments, one for each of
its statements, and any run of neighbouring segments is a program by itself: where a statement ends does
not depend on what stands behind it.

**Definition.** `Segments row segments`: the statements `row` are read off the segments, one off each, in
front of the next segments or of any beginning of those.

**Results.**
* `statements_segments`: the tokens of the statements of a program are segmented.
* `Segments.split`: a part of the segments is segmented as well.
* `Segments.ofTokens`: an input that consists of segments is the program of their statements.
* `ofTokens_segments`: the tokens of a program are segments of its statements.
-/

namespace EmojiLang

namespace Grammar

open Reader EmojiLang.Tree

/-- The statements are read off the segments, one off each, in front of the next segments or of any
beginning of those. -/
inductive Segments : List Tree → List (List Token) → Prop
  | nil : Segments [] []
  | cons {s : Tree} {row : List Tree} {segment : List Token} {segments : List (List Token)} :
      segment ≠ [] →
      (∀ keep, keep <+: segments.flatten → ∀ budget, (segment ++ keep).length < budget →
        statement budget (segment ++ keep) = .read s keep) →
      Segments row segments → Segments (s :: row) (segment :: segments)

/-- A statement that has been read does not depend on what is cut off behind it. -/
theorem statement_cut {budget : Nat} {segment rest : List Token} {s : Tree}
    (short : (segment ++ rest).length < budget)
    (read : statement budget (segment ++ rest) = .read s rest) {keep : List Token} (front : keep <+: rest)
    {budget' : Nat} (enough : (segment ++ keep).length < budget') :
    statement budget' (segment ++ keep) = .read s keep := by
  obtain ⟨tail, rfl⟩ := front
  rw [← List.append_assoc] at short read
  have agree := (statement_steady (.cut tail) budget budget').agree
  have alone := agree.read_exchange short (by rwa [List.append_nil]) read
  rwa [List.append_nil, List.append_nil] at alone

/-- The tokens that the statements of a program are read off are segmented. -/
theorem statements_segments {n budget : Nat} {ts rest : List Token} {row : List Tree}
    (short : ts.length < n) (read : statements (statement n) budget ts = .read row rest) :
    ∃ segments, segments.flatten = ts ∧ Segments row segments := by
  induction budget generalizing ts row rest with
  | zero => simp [statements, Reader.fail] at read
  | succ budget ih =>
      by_cases ends : ts.isEmpty = true
      · simp only [statements, ends, if_true, Reading.read.injEq] at read
        obtain ⟨rfl, -⟩ := read
        exact ⟨[], (List.isEmpty_iff.1 ends).symm, .nil⟩
      · simp only [statements, ends, Bool.false_eq_true, if_false] at read
        rw [Reader.on, Reader.bind_apply] at read
        have taken := statement_spends n ts short
        cases hfirst : statement n ts with
        | stuck left => simp [hfirst] at read
        | read s next =>
            rw [hfirst] at taken
            cases taken with
            | @read segment _ _ whole spent =>
                subst whole
                simp only [hfirst, Reader.bind_apply] at read
                cases others : statements (statement n) budget next with
                | stuck left => simp [others] at read
                | read more last =>
                    simp only [others, Reader.pure_apply, Reading.read.injEq] at read
                    obtain ⟨rfl, -⟩ := read
                    have fewer : next.length < n := by
                      rw [List.length_append] at short
                      omega
                    obtain ⟨segments, rfl, segmented⟩ := ih fewer others
                    refine ⟨segment :: segments, rfl, .cons spent.1 ?_ segmented⟩
                    intro keep front budget' enough
                    exact statement_cut short hfirst front enough

namespace Segments

variable {row : List Tree} {segments : List (List Token)}

theorem ne_nil (h : Segments row segments) : ∀ segment ∈ segments, segment ≠ [] := by
  induction h with
  | nil => simp
  | cons filled _ _ ih => exact List.forall_mem_cons.2 ⟨filled, ih⟩

/-- Segments fall into two parts at any place. -/
theorem split {front back : List (List Token)} (h : Segments row (front ++ back)) :
    ∃ row₁ row₂, row = row₁ ++ row₂ ∧ Segments row₁ front ∧ Segments row₂ back := by
  induction front generalizing row with
  | nil => exact ⟨[], row, rfl, .nil, h⟩
  | cons segment front ih =>
      rw [List.cons_append] at h
      cases h with
      | cons filled reads others =>
          obtain ⟨row₁, row₂, rfl, hfirst, hsecond⟩ := ih others
          refine ⟨_ :: row₁, row₂, rfl, .cons filled (fun keep start => reads keep ?_) hfirst, hsecond⟩
          rw [List.flatten_append]
          exact start.trans (List.prefix_append _ _)

/-- The statements are read off the segments together. -/
theorem statements_read (h : Segments row segments) {n budget : Nat} (short : segments.flatten.length < n)
    (enough : segments.flatten.length < budget) :
    statements (statement n) budget segments.flatten = .read row [] := by
  induction h generalizing budget with
  | nil =>
      obtain ⟨less, rfl⟩ := Nat.exists_eq_succ_of_ne_zero (Nat.ne_of_gt enough)
      rfl
  | @cons s row segment segments filled reads others ih =>
      rw [List.flatten_cons, List.length_append] at short enough
      have nonempty := List.length_pos_iff.2 filled
      obtain ⟨less, rfl⟩ : ∃ less, budget = less + 1 := ⟨budget - 1, by omega⟩
      have goesOn : (segment ++ segments.flatten).isEmpty = false := by
        simp [filled]
      have hfirst := reads segments.flatten List.prefix_rfl n (by rw [List.length_append]; omega)
      have more : statements (statement n) less segments.flatten = .read row [] :=
        ih (by omega) (by omega)
      simp only [List.flatten_cons, statements, goesOn, Bool.false_eq_true, if_false, Reader.on,
        Reader.bind_apply, hfirst, more, Reader.pure_apply]

/-- An input that consists of the segments is the program of their statements. -/
theorem ofTokens (h : Segments row segments) {input : List Token}
    (spelled : Token.beforeEnd input = segments.flatten) :
    Tree.ofTokens input = .ok (.node .program row) := by
  have read := h.statements_read (Nat.lt_succ_self _) (Nat.lt_succ_self _)
  simp only [Tree.ofTokens, spelled, program, Reader.bind_apply, read, Reader.pure_apply]

theorem ofTokens_each (h : Segments row segments) :
    List.Forall₂ (fun segment s => ∀ input, Token.beforeEnd input = segment →
      Tree.ofTokens input = .ok (.node .program [s])) segments row := by
  induction h with
  | nil => exact .nil
  | @cons s row segment segments filled reads _ ih =>
      have alone : Segments [s] [segment] := by
        refine .cons filled (fun keep start => reads keep ?_) .nil
        rw [List.prefix_nil.1 start]
        exact List.nil_prefix
      refine .cons (fun input spelled => alone.ofTokens ?_) ih
      rw [spelled, List.flatten_cons, List.flatten_nil, List.append_nil]

end Segments

/-- The tokens of a program are segments of its statements. -/
theorem ofTokens_segments {ts : List Token} {t : Tree} (made : Tree.ofTokens ts = .ok t) :
    ∃ row segments, t = .node .program row ∧ segments.flatten = Token.beforeEnd ts ∧
      Segments row segments := by
  simp only [Tree.ofTokens, program, Reader.bind_apply] at made
  cases read : statements (statement ((Token.beforeEnd ts).length + 1))
      ((Token.beforeEnd ts).length + 1) (Token.beforeEnd ts) with
  | stuck rest =>
      rw [read] at made
      cases made
  | read row rest =>
      rw [read] at made
      injection made with same
      obtain ⟨segments, whole, segmented⟩ := statements_segments (Nat.lt_succ_self _) read
      exact ⟨row, segments, same.symm, whole, segmented⟩

end Grammar

end EmojiLang
