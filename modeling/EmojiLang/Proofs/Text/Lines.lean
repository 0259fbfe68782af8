import EmojiLang.Proofs.Token.Placement
import EmojiLang.Text.Lines

/-!
# Places and lines

There are two notions of line.  The place of a token counts every line feed in front of it; the lines of
a text are without their line ends, a carriage return may belong to a line end, and an empty last line is
none.  For whatever stands in a text and has no blanks in it the two agree.

**Results.**
* `splitLines_append`: walking over a text, the finished lines and the begun one are counted by the place.
* `shows_of_begins`: what begins at a place is found there, by the lines of the text.
* `lines_behind`: the place behind a last line feed is in none of the lines.
-/

namespace EmojiLang
namespace Text

section Walking

/-- Behind `before` there are as many finished lines, and as many characters of the begun one, as the
place says. -/
theorem splitLines_append (before after reversed : List Char) (n : Nat) :
    ∃ finished begun,
      splitLines '\n' '\r' reversed (before ++ after) =
          finished ++ splitLines '\n' '\r' begun after ∧
        Position.afterAll ⟨n, reversed.length + 1⟩ before =
          ⟨n + finished.length, begun.length + 1⟩ := by
  induction before generalizing reversed n with
  | nil => exact ⟨[], reversed, rfl, rfl⟩
  | cons c before ih =>
      by_cases feed : c = '\n'
      · obtain ⟨finished, begun, split, place⟩ := ih [] (n + 1)
        refine ⟨(dropReturn '\r' reversed).reverse :: finished, begun, ?_, ?_⟩
        · simp only [feed, List.cons_append, splitLines, if_true, split]
        · simpa [Position.after, feed, Nat.add_assoc, Nat.add_comm 1] using place
      · obtain ⟨finished, begun, split, place⟩ := ih (c :: reversed) n
        refine ⟨finished, begun, ?_, ?_⟩
        · simp only [List.cons_append, splitLines, feed, if_false, split]
        · simpa [Position.after, feed] using place

theorem splitLines_append_of_not_mem {word : List Char} (inside : '\n' ∉ word)
    (reversed after : List Char) :
    splitLines '\n' '\r' reversed (word ++ after) =
      splitLines '\n' '\r' (word.reverse ++ reversed) after := by
  induction word generalizing reversed with
  | nil => rfl
  | cons c word ih =>
      simp only [List.mem_cons, not_or] at inside
      simp [splitLines, Ne.symm inside.1, ih inside.2]

/-- A line keeps what it has begun with, unless that ends with a carriage return. -/
theorem splitLines_begun {last : Char} (kept : last ≠ '\r') (begun more after : List Char) :
    ∃ line rest, splitLines '\n' '\r' (more ++ last :: begun) after = line :: rest ∧
      (last :: begun).reverse <+: line := by
  induction after generalizing more with
  | nil =>
      refine ⟨(more ++ last :: begun).reverse, [], ?_, by simp⟩
      cases more <;> rfl
  | cons c after ih =>
      by_cases feed : c = '\n'
      · refine ⟨_, _, by rw [feed, splitLines, if_pos rfl], ?_⟩
        -- a carriage return that the line end takes away is one of `more`
        cases more with
        | nil => simp [dropReturn, kept]
        | cons d more =>
            simp only [List.cons_append, dropReturn]
            split <;> simp
      · obtain ⟨line, rest, split, begins⟩ := ih (c :: more)
        refine ⟨line, rest, ?_, begins⟩
        rw [splitLines, if_neg feed]
        exact split

theorem Begins.not_mem {text : String} {cs : List Char} (h : Begins text cs) {c : Char}
    (blank : isSpace c = true) : c ∉ text.toList := by
  intro mem
  simp [h.unspaced c mem] at blank

/-- The line that has been begun goes on with a text that comes next. -/
theorem splitLines_of_begins {text : String} {after : List Char} (h : Begins text after)
    (begun : List Char) :
    ∃ line rest, splitLines '\n' '\r' begun after = line :: rest ∧
      begun.reverse ++ text.toList <+: line := by
  obtain ⟨tail, rfl⟩ := h.atHead
  obtain ⟨last, others, ends⟩ :=
    List.exists_cons_of_ne_nil (List.reverse_ne_nil_iff.2 h.nonempty)
  have kept : last ≠ '\r' := by
    rintro rfl
    refine h.not_mem (c := '\r') rfl (List.mem_reverse.1 ?_)
    simp [ends]
  obtain ⟨line, rest, split, begins⟩ := splitLines_begun kept (others ++ begun) [] tail
  have same : (last :: (others ++ begun)).reverse = begun.reverse ++ text.toList := by
    rw [← List.cons_append, ← ends]
    simp
  refine ⟨line, rest, ?_, same ▸ begins⟩
  rw [splitLines_append_of_not_mem (h.not_mem rfl), ends]
  exact split

end Walking

/-- The text stands in line `line` of `source`, at the place `p`. -/
structure Shows (source : String) (p : Position) (line text : String) : Prop where
  counted : 1 ≤ p.line ∧ 1 ≤ p.column
  found : (lines source)[p.line - 1]? = some line
  atColumn : text.toList <+: line.toList.drop (p.column - 1)

/-- What begins at a place of a text is found there by its lines. -/
theorem shows_of_begins {source text : String} {before after : List Char}
    (whole : source.toList = before ++ after) (begins : Begins text after) :
    ∃ line, Shows source (Position.start.afterAll before) line text := by
  obtain ⟨finished, begun, split, place⟩ := splitLines_append before after [] 1
  obtain ⟨line, rest, here, reached⟩ := splitLines_of_begins begins begun
  have start : Position.start.afterAll before = ⟨1 + finished.length, begun.length + 1⟩ := place
  rw [start]
  refine ⟨String.ofList line, ⟨by simp, by simp⟩, ?_, ?_⟩
  · rw [lines, whole, split, here]
    simp
  · obtain ⟨tail, rfl⟩ := reached
    refine ⟨tail, ?_⟩
    simp [List.append_assoc, List.drop_left']

/-- A line feed behind a text makes no difference to what begins in it. -/
theorem begins_before_feed {text : String} {cs before after : List Char}
    (whole : cs ++ ['\n'] = before ++ after) (begins : Begins text after) :
    ∃ left, cs = before ++ left ∧ Begins text left := by
  have nonempty : after ≠ [] := by
    rintro rfl
    exact begins.nonempty (List.prefix_nil.1 begins.atHead)
  obtain ⟨left, last, rfl⟩ := (List.eq_nil_or_concat after).resolve_left nonempty
  rw [List.concat_eq_append, ← List.append_assoc] at whole
  obtain ⟨rfl, feed⟩ := List.append_inj' whole rfl
  obtain rfl : '\n' = last := by simpa using feed
  have atHead : text.toList <+: left ++ ['\n'] := by
    simpa using begins.atHead
  refine ⟨left, rfl, ?_, begins.nonempty, begins.unspaced⟩
  refine (List.prefix_concat_iff.1 atHead).resolve_left fun all => ?_
  refine begins.not_mem (c := '\n') rfl ?_
  simp [all]

/-- The place behind a last line feed is in none of the lines in front of that. -/
theorem lines_behind (source : String) :
    (lines source)[(Position.start.afterAll (source.toList ++ ['\n'])).line - 1]? = none := by
  obtain ⟨finished, begun, split, place⟩ := splitLines_append source.toList [] [] 1
  have start : Position.start.afterAll source.toList = ⟨1 + finished.length, begun.length + 1⟩ :=
    place
  have last : (splitLines '\n' '\r' begun []).length ≤ 1 := by
    cases begun <;> simp [splitLines]
  have count : (lines source).length ≤ finished.length + 1 := by
    rw [List.append_nil] at split
    simp only [lines, split, List.length_map, List.length_append]
    omega
  have behind : (Position.start.afterAll (source.toList ++ ['\n'])).line = 1 + finished.length + 1 := by
    rw [Position.afterAll, List.foldl_append]
    rw [Position.afterAll] at start
    simp [start, Position.after]
  rw [behind, List.getElem?_eq_none_iff]
  omega

end Text

namespace Token

/-- A token is found in the lines of its program, unless it is the end mark or a literal string.  The
line feed added to the program does not matter. -/
theorem shows_of_mem_scan {source : String} {t : Token} (mem : t ∈ scan (source ++ "\n"))
    (marks : t.kind ≠ .eof) (other : t.kind ≠ .string) :
    ∃ line, Text.Shows source t.position line t.text := by
  obtain ⟨before, after, whole, placed, begins⟩ := standsIn_of_mem_scan mem marks other
  rw [String.toList_append] at whole
  obtain ⟨left, inside, begins⟩ := Text.begins_before_feed whole begins
  rw [placed]
  exact Text.shows_of_begins inside begins

end Token
end EmojiLang
