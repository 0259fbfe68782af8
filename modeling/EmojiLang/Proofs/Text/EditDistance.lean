import EmojiLang.Text.EditDistance
import Mathlib.Order.Bounds.Basic
import Mathlib.Order.MinMax

/-!
# The distance that the rows compute

The table of distances has a place for any two initial parts, and every place is found from three
neighbours.  The rows of the algorithm are the rows of the table.  That the table holds the least numbers
of edits is seen on the recursion alone: some row of edits is as short, and one edit more or less never
changes an entry by more than one.

**Definitions.**
* `Edit a b`: one character is inserted, deleted or replaced.
* `Edits n a b`: `n` edits, one after the other.
* `table a b`: the place of the table for two initial parts, each with its last character in front.
* `rowBehind a seen rest`: the places of one row behind that of `seen`.

**Results.**
* `nextRow_row`: the next row of the algorithm is the next row of the table.
* `editDistance_eq_table`: the algorithm ends with the last place.
* `edits_table`: there are as many edits as the table says.
* `Edit.table_le`: one edit more or less makes a difference of one at most.
* `editDistance_isLeast`: the distance is the least number of edits.
* `editDistance_metric`: so it is symmetric, it is zero only between equal texts, and a detour is no shorter.
-/

namespace EmojiLang
namespace Text

/-- One character is inserted, deleted or replaced. -/
inductive Edit : List Char → List Char → Prop
  | insert (before after : List Char) (c : Char) : Edit (before ++ after) (before ++ c :: after)
  | delete (before after : List Char) (c : Char) : Edit (before ++ c :: after) (before ++ after)
  | replace (before after : List Char) (c d : Char) : Edit (before ++ c :: after) (before ++ d :: after)

/-- The first characters become the second ones by `n` edits, one after the other. -/
inductive Edits : Nat → List Char → List Char → Prop
  | nil (a : List Char) : Edits 0 a a
  | cons {n : Nat} {a b c : List Char} : Edit a b → Edits n b c → Edits (n + 1) a c

section Edits

variable {a b c : List Char} {n m : Nat}

/-- An edit may be taken back. -/
theorem Edit.symm (h : Edit a b) : Edit b a := by
  cases h with
  | insert before after c => exact .delete before after c
  | delete before after c => exact .insert before after c
  | replace before after c d => exact .replace before after d c

theorem Edit.reverse (h : Edit a b) : Edit a.reverse b.reverse := by
  cases h with
  | insert before after c => simpa using Edit.insert after.reverse before.reverse c
  | delete before after c => simpa using Edit.delete after.reverse before.reverse c
  | replace before after c d => simpa using Edit.replace after.reverse before.reverse c d

/-- An edit behind a common first character. -/
theorem Edit.behind (c : Char) (h : Edit a b) : Edit (c :: a) (c :: b) := by
  cases h with
  | insert before after d => exact .insert (c :: before) after d
  | delete before after d => exact .delete (c :: before) after d
  | replace before after d e => exact .replace (c :: before) after d e

namespace Edits

theorem trans (h : Edits n a b) (k : Edits m b c) : Edits (n + m) a c := by
  induction h with
  | nil a => rwa [Nat.zero_add]
  | cons first _ ih =>
      rw [Nat.add_right_comm]
      exact .cons first (ih k)

theorem single (h : Edit a b) : Edits 1 a b := .cons h (.nil b)

theorem symm (h : Edits n a b) : Edits n b a := by
  induction h with
  | nil a => exact .nil a
  | cons first _ ih => exact ih.trans (.single first.symm)

theorem reverse (h : Edits n a b) : Edits n a.reverse b.reverse := by
  induction h with
  | nil a => exact .nil a.reverse
  | cons first _ ih => exact .cons first.reverse ih

theorem reverse_iff : Edits n a.reverse b.reverse ↔ Edits n a b :=
  ⟨fun h => by simpa using h.reverse, reverse⟩

theorem behind (c : Char) (h : Edits n a b) : Edits n (c :: a) (c :: b) := by
  induction h with
  | nil a => exact .nil (c :: a)
  | cons first _ ih => exact .cons (first.behind c) ih

/-- The shorter one of two rows of edits. -/
theorem min (h : Edits n a b) (k : Edits m a b) : Edits (min n m) a b := by
  rcases min_choice n m with least | least
  · rwa [least]
  · rwa [least]

theorem zero_iff : Edits 0 a b ↔ a = b := by
  constructor
  · rintro ⟨⟩
    rfl
  · rintro rfl
    exact .nil a

end Edits

end Edits

/-- The place of the table for two initial parts, each written with its last character in front.  It is
found from the three places where the last character of one part or of both is missing. -/
def table : List Char → List Char → Nat
  | [], b => b.length
  | c :: a, [] => (c :: a).length
  | c :: a, d :: b =>
      min (min (table a (d :: b) + 1) (table (c :: a) b + 1))
        (if c = d then table a b else table a b + 1)

/-- The places of the row of `a` that stand behind that of `seen`, for the characters still to come. -/
def rowBehind (a : List Char) : (seen rest : List Char) → List Nat
  | _, [] => []
  | seen, d :: rest => table a (d :: seen) :: rowBehind a (d :: seen) rest

section Rows

variable (a b : List Char)

theorem table_nil_left : table [] b = b.length := by
  rw [table]

theorem table_nil_right : table a [] = a.length := by
  cases a with
  | nil => rw [table]
  | cons c a => rw [table]

theorem rowBehind_nil (seen rest : List Char) :
    rowBehind [] seen rest = List.range' (seen.length + 1) rest.length := by
  induction rest generalizing seen with
  | nil => rfl
  | cons d rest ih =>
      rw [rowBehind, ih, table_nil_left, List.length_cons, List.length_cons, List.range'_succ]

theorem firstRow_eq : firstRow b = table [] [] :: rowBehind [] [] b := by
  rw [firstRow, rowBehind_nil, List.range_succ_eq_map, List.range'_eq_map_range]
  simp [table, Nat.add_comm]

/-- What the algorithm keeps of the row above is what the table needs: the place above, the one before
that, and the one that has just been found. -/
theorem nextEntries_rowBehind (c : Char) (seen rest : List Char) :
    nextEntries c rest (table a seen) (table (c :: a) seen) (rowBehind a seen rest) =
      rowBehind (c :: a) seen rest := by
  induction rest generalizing seen with
  | nil => rfl
  | cons d rest ih =>
      have entry : min (min (table a (d :: seen) + 1) (table (c :: a) seen + 1))
          (if c = d then table a seen else table a seen + 1) = table (c :: a) (d :: seen) := by
        rw [table]
      simp only [rowBehind, nextEntries, entry, ih]

/-- The next row of the algorithm is the next row of the table. -/
theorem nextRow_row (c : Char) :
    nextRow b (table a [] :: rowBehind a [] b) c = table (c :: a) [] :: rowBehind (c :: a) [] b := by
  have first : table a [] + 1 = table (c :: a) [] := by
    rw [table_nil_right, table_nil_right, List.length_cons]
  rw [nextRow, first, nextEntries_rowBehind]

/-- Character by character, the algorithm goes from row to row. -/
theorem foldl_nextRow (more : List Char) :
    more.foldl (nextRow b) (table a [] :: rowBehind a [] b) =
      table (more.reverse ++ a) [] :: rowBehind (more.reverse ++ a) [] b := by
  induction more generalizing a with
  | nil => rfl
  | cons c more ih => rw [List.foldl_cons, nextRow_row, ih, List.reverse_cons, List.append_assoc]; rfl

theorem getLastD_rowBehind (seen rest : List Char) :
    (rowBehind a seen rest).getLastD (table a seen) = table a (rest.reverse ++ seen) := by
  induction rest generalizing seen with
  | nil => rfl
  | cons d rest ih =>
      rw [rowBehind, List.getLastD_cons, ih, List.reverse_cons, List.append_assoc]
      rfl

end Rows

/-- The algorithm ends with the place of the table for both texts. -/
theorem editDistance_eq_table (s t : String) :
    editDistance s t = table s.toList.reverse t.toList.reverse := by
  rw [editDistance, firstRow_eq, foldl_nextRow, List.getLastD_cons, getLastD_rowBehind, List.append_nil,
    List.append_nil]

section Optimal

variable (a b : List Char) (c d : Char)

theorem table_cons_le : table (c :: a) b ≤ table a b + 1 := by
  cases b with
  | nil => rw [table_nil_right, table_nil_right, List.length_cons]
  | cons d b =>
      rw [table]
      omega

theorem table_le_cons_right : table a (d :: b) ≤ table a b + 1 := by
  cases a with
  | nil => rw [table_nil_left, table_nil_left, List.length_cons]
  | cons c a =>
      rw [table]
      omega

theorem table_le_cons : table a b ≤ table (c :: a) b + 1 := by
  induction b with
  | nil =>
      rw [table_nil_right, table_nil_right, List.length_cons]
      omega
  | cons d b ih =>
      have longer := table_le_cons_right a b d
      rw [table]
      split <;> omega

theorem table_replace_le : table (c :: a) b ≤ table (d :: a) b + 1 := by
  induction b with
  | nil => simp [table_nil_right]
  | cons e b ih =>
      rw [table, table]
      split <;> split <;> omega

variable {a b}

/-- A difference of one at most stays one behind a further common character. -/
theorem table_behind_le {a' : List Char} (h : ∀ b, table a b ≤ table a' b + 1) (b : List Char) :
    table (c :: a) b ≤ table (c :: a') b + 1 := by
  induction b with
  | nil => simpa [table_nil_right] using h []
  | cons d b ih =>
      have above := h (d :: b)
      have diagonal := h b
      rw [table, table]
      split <;> omega

/-- One edit more or less makes a difference of one at most. -/
theorem Edit.table_le {a' : List Char} (h : Edit a a') (b : List Char) : table a b ≤ table a' b + 1 := by
  cases h with
  | insert before after c =>
      induction before generalizing b with
      | nil => exact table_le_cons after b c
      | cons d before ih => exact table_behind_le d (fun b => ih b) b
  | delete before after c =>
      induction before generalizing b with
      | nil => exact table_cons_le after b c
      | cons d before ih => exact table_behind_le d (fun b => ih b) b
  | replace before after c e =>
      induction before generalizing b with
      | nil => exact table_replace_le after b c e
      | cons d before ih => exact table_behind_le d (fun b => ih b) b

theorem table_self (a : List Char) : table a a = 0 := by
  induction a with
  | nil => rw [table_nil_left, List.length_nil]
  | cons c a ih => rw [table, if_pos rfl, ih, Nat.min_zero]

/-- No row of edits is shorter than the table says. -/
theorem Edits.table_le {n : Nat} (h : Edits n a b) : table a b ≤ n := by
  induction h with
  | nil a => rw [table_self]
  | @cons n a a' b first _ ih => exact Nat.le_trans (first.table_le b) (Nat.succ_le_succ ih)

/-- A text is gone when all of its characters have been deleted. -/
theorem edits_nil (a : List Char) : Edits a.length a [] := by
  induction a with
  | nil => exact .nil []
  | cons c a ih => exact .cons (.delete [] a c) ih

/-- There are as many edits as the table says.  They follow the place that the entry was found from. -/
theorem edits_table (a b : List Char) : Edits (table a b) a b := by
  induction a, b using table.induct with
  | case1 b =>
      rw [table_nil_left]
      exact (edits_nil b).symm
  | case2 c a =>
      rw [table_nil_right]
      exact edits_nil (c :: a)
  | case3 c a d b above left diagonal =>
      have deleted : Edits (table a (d :: b) + 1) (c :: a) (d :: b) :=
        .cons (.delete [] a c) above
      have inserted : Edits (table (c :: a) b + 1) (c :: a) (d :: b) :=
        .cons (.insert [] (c :: a) d) (left.behind d)
      have changed : Edits (if c = d then table a b else table a b + 1) (c :: a) (d :: b) := by
        by_cases same : c = d
        · rw [if_pos same, same]
          exact diagonal.behind d
        · rw [if_neg same]
          exact .cons (.replace [] a c d) (diagonal.behind d)
      rw [table]
      exact (deleted.min inserted).min changed

end Optimal

/-- The distance of two texts is the least number of edits between them. -/
theorem editDistance_isLeast (s t : String) :
    IsLeast {n | Edits n s.toList t.toList} (editDistance s t) := by
  rw [editDistance_eq_table]
  constructor
  · exact Edits.reverse_iff.1 (edits_table _ _)
  · intro n edits
    exact (Edits.reverse edits).table_le

section Metric

variable (s t u : String)

theorem editDistance_comm : editDistance s t = editDistance t s := by
  have le (s t : String) : editDistance s t ≤ editDistance t s :=
    (editDistance_isLeast s t).2 (editDistance_isLeast t s).1.symm
  exact Nat.le_antisymm (le s t) (le t s)

theorem editDistance_eq_zero_iff : editDistance s t = 0 ↔ s = t := by
  have attained := (editDistance_isLeast s t).1
  constructor
  · intro zero
    rw [zero] at attained
    exact String.toList_inj.1 (Edits.zero_iff.1 attained)
  · rintro rfl
    exact Nat.le_zero.1 ((editDistance_isLeast s s).2 (Edits.nil s.toList))

theorem editDistance_triangle : editDistance s u ≤ editDistance s t + editDistance t u :=
  (editDistance_isLeast s u).2 ((editDistance_isLeast s t).1.trans (editDistance_isLeast t u).1)

end Metric

/-- The distance of two texts is the least number of insertions, deletions and replacements of single
characters that turn one into the other.  So it is the same both ways, it is zero exactly between equal
texts, and it is never longer than a detour over a third text. -/
theorem editDistance_metric (s t : String) :
    IsLeast {n | Edits n s.toList t.toList} (editDistance s t) ∧
      editDistance s t = editDistance t s ∧
      (editDistance s t = 0 ↔ s = t) ∧
      ∀ u, editDistance s u ≤ editDistance s t + editDistance t u :=
  ⟨editDistance_isLeast s t, editDistance_comm s t, editDistance_eq_zero_iff s t,
    editDistance_triangle s t⟩

example : editDistance "kitten" "sitting" = 3 := by
  decide +kernel

end Text
end EmojiLang
