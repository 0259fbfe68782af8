import EmojiLang.Proofs.Token.Reprint

/-!
# Texts that are joined at a line break

No piece of a text reaches over a line feed except a string.  So where a text does not end within a string,
a line feed and a second text may follow, and the tokens of both are those of the first text and then those
of the second one, further down by the lines of the first.

**Definitions.**
* `Token.endsQuoted`: the text ends within a string whose closing quote is missing.
* `Token.lower n t`: the token in the same column, `n` lines further down.

**Results.**
* `Piece.cut_append_feed`: no piece but such a string reaches over a line feed.
* `Token.scanFrom_append_feed`: what is left of the first text and the whole of the second one.
* `Token.scanFrom_ne_of_endsQuoted`: a string that is not closed goes on behind the line feed.
* `Token.scanFrom_lower`: further down the tokens are the same.
* `Token.scan_lines`: two texts with a line feed between them.
-/

namespace EmojiLang

namespace Piece

variable {c : Char} {rest : List Char}

/-- A piece does not reach beyond its text. -/
theorem more_le (c : Char) (rest : List Char) : (cut c rest).more ≤ rest.length := by
  unfold cut
  split_ifs with space comments quotes counts spells
  · exact Nat.zero_le _
  · exact (List.takeWhile_prefix _).length_le
  · have parts := List.takeWhile_append_dropWhile (p := fun c => decide (c ≠ '"')) (l := rest)
    have whole := congrArg List.length parts
    rw [List.length_append] at whole
    simp only [string, List.length_take]
    omega
  · exact (List.takeWhile_prefix _).length_le
  · exact (List.takeWhile_prefix _).length_le
  · unfold sign
    split
    · next text kind matched =>
        have within := (begins_of_longestMatch matched).atHead.length_le
        simp only [String.length_toList, List.length_cons] at within
        dsimp only
        split
        · next ahead =>
            have nonempty : rest.drop (text.length - 1) ≠ [] := by
              intro empty
              rw [empty] at ahead
              cases ahead
            have positive := List.length_pos_of_ne_nil nonempty
            rw [List.length_drop] at positive
            omega
        · omega
    · exact Nat.zero_le _

/-- A comment ends in front of a line feed. -/
theorem comment_append_feed (rest more : List Char) : comment (rest ++ '\n' :: more) = comment rest := by
  have ends : ('\n' :: more).takeWhile (fun c => decide (c ≠ '\n')) = [] :=
    List.takeWhile_cons_of_neg (by simp)
  rw [comment, comment, List.takeWhile_append, ends, List.append_nil]
  split
  · next all => rw [all]
  · rfl

/-- In front of a line feed the same piece is cut off, unless it is a string that is not closed. -/
theorem cut_append_feed (closed : c = '"' → '"' ∈ rest) (more : List Char) :
    cut c (rest ++ '\n' :: more) = cut c rest := by
  by_cases comments : c = Glyph.comment
  · subst comments
    simp only [cut, comment_append_feed]
    rfl
  · refine cut_append (fun d ahead => ?_) comments closed
    obtain rfl : '\n' = d := by simpa using ahead
    rfl

end Piece

namespace Token

/-- The text ends within a string whose closing quote is missing, when its first `skip` characters belong to
a piece that has been read already. -/
def endsQuoted : (skip : Nat) → List Char → Bool
  | _, [] => false
  | skip + 1, _ :: rest => endsQuoted skip rest
  | 0, c :: rest => c == '"' && !rest.contains '"' || endsQuoted (Piece.cut c rest).more rest

/-- The token in the same column, `n` lines further down. -/
def lower (n : Nat) (t : Token) : Token :=
  { t with position := ⟨t.position.line + n, t.position.column⟩ }

section Joining

variable {skip : Nat} {cs : List Char} {p : Position}

theorem scanFrom_ne_nil : scanFrom skip p cs ≠ [] := by
  obtain ⟨ts, scanned, -⟩ := scanFrom_eq_append cs skip p
  simp [scanned]

/-- A token that is put in front is not the last one. -/
theorem dropLast_place {ts : List Token} (nonempty : ts ≠ []) (piece : Piece) :
    (place p piece ts).dropLast = place p piece ts.dropLast := by
  unfold place
  split
  · rw [List.dropLast_cons_of_ne_nil nonempty]
  · rfl

theorem place_append (piece : Piece) (ts us : List Token) :
    place p piece (ts ++ us) = place p piece ts ++ us := by
  unfold place
  split <;> rfl

/-- Where a piece begins that is no open string, it is cut off in front of the line feed as well. -/
theorem scanFrom_append_cons {c : Char} {rest : List Char} (closed : c = '"' → '"' ∈ rest)
    (more : List Char) :
    scanFrom 0 p (c :: rest ++ '\n' :: more) =
      place p (Piece.cut c rest) (scanFrom (Piece.cut c rest).more (p.after c) (rest ++ '\n' :: more)) := by
  rw [List.cons_append, scanFrom, Piece.cut_append_feed closed]

theorem closed_of_endsQuoted {c : Char} {rest : List Char} (ends : endsQuoted 0 (c :: rest) = false) :
    (c = '"' → '"' ∈ rest) ∧ endsQuoted (Piece.cut c rest).more rest = false := by
  rw [endsQuoted, Bool.or_eq_false_iff] at ends
  refine ⟨?_, ends.2⟩
  rintro rfl
  simpa using ends.1

/-- What is left of a text is read, and then a line feed and what stands behind it. -/
theorem scanFrom_append_feed (closed : endsQuoted skip cs = false) (within : skip ≤ cs.length)
    (p : Position) (more : List Char) :
    scanFrom skip p (cs ++ '\n' :: more) =
      (scanFrom skip p cs).dropLast ++ scanFrom 0 ((p.afterAll cs).after '\n') more := by
  induction cs generalizing skip p with
  | nil =>
      obtain rfl := Nat.le_zero.1 within
      rfl
  | cons c rest ih =>
      cases skip with
      | succ skip => exact ih closed (Nat.le_of_succ_le_succ within) (p.after c)
      | zero =>
          obtain ⟨quoted, later⟩ := closed_of_endsQuoted closed
          rw [scanFrom_append_cons quoted, ih later (Piece.more_le c rest), scanFrom, place_append,
            dropLast_place scanFrom_ne_nil]
          rfl

section Unclosed

variable {rest : List Char} (unquoted : '"' ∉ rest)
include unquoted

/-- A string that is not closed reaches up to the end of the text. -/
theorem cut_unclosed : Piece.cut '"' rest = ⟨some (.string, String.ofList rest), rest.length⟩ := by
  have inside : ∀ d ∈ rest, decide (d ≠ '"') = true := by
    intro d mem
    simpa using ne_of_mem_of_not_mem mem unquoted
  have all : rest.takeWhile (fun d => decide (d ≠ '"')) = rest := List.takeWhile_eq_self_iff.2 inside
  have empty : rest.dropWhile (fun d => decide (d ≠ '"')) = [] := List.dropWhile_eq_nil_iff.2 inside
  have strings : Piece.cut '"' rest = Piece.string rest := rfl
  simp only [strings, Piece.string, all, empty, List.take_nil, List.length_nil, Nat.add_zero]

/-- It would go on behind a line feed. -/
theorem cut_unclosed_append (more : List Char) :
    ∃ text, (Piece.cut '"' (rest ++ '\n' :: more)).token = some (.string, text) ∧
      text ≠ String.ofList rest := by
  have inside : ∀ d ∈ rest, decide (d ≠ '"') = true := by
    intro d mem
    simpa using ne_of_mem_of_not_mem mem unquoted
  refine ⟨_, rfl, fun same => ?_⟩
  rw [List.takeWhile_append_of_pos inside, List.takeWhile_cons_of_pos (by simp)] at same
  simpa using congrArg String.toList same

end Unclosed

/-- If a string has been left open, the second text is not read by itself. -/
theorem scanFrom_ne_of_endsQuoted (opened : endsQuoted skip cs = true) (p : Position)
    (more : List Char) (ts : List Token) :
    scanFrom skip p (cs ++ '\n' :: more) ≠ (scanFrom skip p cs).dropLast ++ ts := by
  induction cs generalizing skip p with
  | nil => cases skip <;> cases opened
  | cons c rest ih =>
      cases skip with
      | succ skip => exact ih opened (p.after c)
      | zero =>
          by_cases here : c = '"' ∧ '"' ∉ rest
          · obtain ⟨rfl, unquoted⟩ := here
            obtain ⟨text, goesOn, other⟩ := cut_unclosed_append unquoted more
            intro same
            rw [List.cons_append, scanFrom, place, goesOn, scanFrom, cut_unclosed unquoted,
              dropLast_place scanFrom_ne_nil] at same
            obtain ⟨hfirst, -⟩ := List.cons.inj same
            exact other (congrArg Token.text hfirst)
          · have quoted : c = '"' → '"' ∈ rest := by
              rintro rfl
              exact not_not.1 fun unquoted => here ⟨rfl, unquoted⟩
            have later : endsQuoted (Piece.cut c rest).more rest = true := by
              rw [endsQuoted, Bool.or_eq_true] at opened
              refine opened.resolve_left fun hfirst => here ?_
              simpa using hfirst
            rw [scanFrom_append_cons quoted, scanFrom, dropLast_place scanFrom_ne_nil, ← place_append]
            intro same
            unfold place at same
            split at same
            · exact ih later (p.after c) (List.cons.inj same).2
            · exact ih later (p.after c) same

/-- Further down the tokens of a text are the same. -/
theorem scanFrom_lower (n skip : Nat) (p : Position) (cs : List Char) :
    scanFrom skip ⟨p.line + n, p.column⟩ cs = (scanFrom skip p cs).map (lower n) := by
  have after (p : Position) (c : Char) :
      Position.after ⟨p.line + n, p.column⟩ c = ⟨(p.after c).line + n, (p.after c).column⟩ := by
    unfold Position.after
    split
    · simp [Nat.add_right_comm]
    · rfl
  induction cs generalizing skip p with
  | nil => cases skip <;> rfl
  | cons c rest ih =>
      cases skip with
      | succ skip => rw [scanFrom, after, ih]; rfl
      | zero =>
          rw [scanFrom, after, ih, scanFrom]
          unfold place
          split <;> rfl

end Joining

/-- Two texts with a line feed between them have the tokens of the first one without its end mark, and behind
these the tokens of the second one in their columns, further down by the lines of the first and one more.
This is so exactly if the first text does not end within a string whose closing quote is missing. -/
theorem scan_lines (a b : String) :
    scan (a ++ "\n" ++ b) =
        (scan a).dropLast ++ (scan b).map (lower (1 + a.toList.count '\n')) ↔
      endsQuoted 0 a.toList = false := by
  have whole : (a ++ "\n" ++ b).toList = a.toList ++ '\n' :: b.toList := by
    simp
  have place : (Position.start.afterAll a.toList).after '\n' =
      ⟨Position.start.line + (1 + a.toList.count '\n'), Position.start.column⟩ := by
    have counted : Position.start.afterAll a.toList = Position.behind a.toList :=
      Position.afterAll_behind [] a.toList
    rw [counted]
    simp [Position.after, Position.behind, Position.start, Nat.add_comm]
  rw [scan, scan, scan, whole, ← scanFrom_lower, ← place]
  constructor
  · intro same
    rw [Bool.eq_false_iff]
    exact fun opened => scanFrom_ne_of_endsQuoted opened _ _ _ same
  · intro closed
    exact scanFrom_append_feed closed (Nat.zero_le _) _ _

end Token

end EmojiLang
