import EmojiLang.Proofs.Token.Lexical
import Mathlib.Data.List.TakeWhile

/-!
# Where tokens stand

The place of a token is where its text begins in the program.  Literal strings apart, whose quotes are
not part of their text, the characters there are the text of the token, and no blank is among them; so
a token never reaches over the end of a line.

**Definitions.**
* `Text.Begins text cs`: a text that is not empty and has no blanks stands at the head of `cs`.
* `Token.StandsIn t cs`: the token stands in `cs` at the place that it says.

**Results.**
* `Piece.begins_of_cut`: the text of a token that is cut off a program stands at its head.
* `Token.scanFrom_eq_append`: a program ends with one end mark, behind its last character.
* `Token.standsIn_of_mem_scan`: every other token stands where it says.
-/

namespace EmojiLang

namespace Text

theorem mem_of_isSpace {c : Char} (h : isSpace c = true) :
    c ∈ [' ', '\t', '\n', '\x0b', '\x0c', '\r'] := by
  simpa [isSpace, or_assoc] using h

/-- A class of characters that has none of the blanks. -/
theorem isSpace_eq_false {p : Char → Bool}
    (apart : [' ', '\t', '\n', '\x0b', '\x0c', '\r'].all (fun c => !p c) = true) {c : Char}
    (h : p c = true) : isSpace c = false := by
  rw [Bool.eq_false_iff]
  intro blank
  have other := List.all_eq_true.1 apart c (mem_of_isSpace blank)
  simp [h] at other

/-- The text is not empty, has no blanks and stands at the head of the characters. -/
structure Begins (text : String) (cs : List Char) : Prop where
  atHead : text.toList <+: cs
  nonempty : text.toList ≠ []
  unspaced : ∀ c ∈ text.toList, isSpace c = false

/-- A first character with the run of a class behind it. -/
theorem begins_takeWhile {p : Char → Bool}
    (apart : [' ', '\t', '\n', '\x0b', '\x0c', '\r'].all (fun c => !p c) = true) {c : Char}
    (hfirst : isSpace c = false) (rest : List Char) :
    Begins (String.ofList (c :: rest.takeWhile p)) (c :: rest) where
  atHead := by
    simpa using List.takeWhile_prefix p
  nonempty := by
    simp
  unspaced d mem := by
    simp only [String.toList_ofList, List.mem_cons] at mem
    rcases mem with rfl | mem
    · exact hfirst
    · exact isSpace_eq_false apart (List.mem_takeWhile_imp mem)

end Text

namespace Piece

theorem begins_of_longestMatch {cs : List Char} {found : String × TokenKind}
    (h : Glyph.longestMatch cs = some found) : Text.Begins found.1 cs := by
  have nonempty : ∀ s ∈ Glyph.spellings, s.1.toList ≠ [] := by decide
  have unspaced : (Glyph.spellings.all fun s => s.1.toList.all fun c => !Text.isSpace c) = true := by
    decide
  simp only [List.all_eq_true, Bool.not_eq_eq_eq_not, Bool.not_true] at unspaced
  have mem := Glyph.mem_spellings_of_longestMatch h
  rw [Glyph.longestMatch_eq] at h
  rcases Glyph.mem_of_foldl_longer h with none | matched
  · cases none
  · have atHead := (List.mem_filter.1 matched).2
    exact ⟨List.isPrefixOf_iff_prefix.1 atHead, nonempty _ mem, unspaced _ mem⟩

/-- The text of a token is what stands at the head of the program, unless it is a literal string. -/
theorem begins_of_cut {c : Char} {rest : List Char} {kind : TokenKind} {text : String}
    (h : (cut c rest).token = some (kind, text)) (other : kind ≠ .string) :
    Text.Begins text (c :: rest) := by
  unfold cut at h
  split_ifs at h with blank comments quotes counts spells
  · simp [Piece.blank] at h
  · simp [Piece.comment] at h
  · simp only [string, Option.some.injEq, Prod.mk.injEq] at h
    exact absurd h.1.symm other
  · simp only [numeral, Option.some.injEq, Prod.mk.injEq] at h
    exact h.2 ▸ Text.begins_takeWhile (by decide) (by simpa using blank) rest
  · simp only [word, Option.some.injEq, Prod.mk.injEq] at h
    exact h.2 ▸ Text.begins_takeWhile (by decide) (by simpa using blank) rest
  · unfold sign at h
    split at h
    · next found matched =>
        simp only [Option.some.injEq, Prod.mk.injEq] at h
        exact h.2 ▸ begins_of_longestMatch matched
    · simp only [Option.some.injEq, Prod.mk.injEq] at h
      exact h.2 ▸ ⟨by simp, by simp, by simpa using blank⟩

theorem kind_ne_eof_of_cut {c : Char} {rest : List Char} {kind : TokenKind} {text : String}
    (h : (cut c rest).token = some (kind, text)) : kind ≠ .eof := by
  have listed : ∀ s ∈ Glyph.words ++ Glyph.spellings, s.2 ≠ .eof := by decide
  rintro rfl
  rcases kind_of_cut h with other | mem
  · simp at other
  · exact listed _ mem rfl

end Piece

namespace Position

@[simp]
theorem afterAll_nil (p : Position) : p.afterAll [] = p := rfl

@[simp]
theorem afterAll_cons (p : Position) (c : Char) (cs : List Char) :
    p.afterAll (c :: cs) = (p.after c).afterAll cs := rfl

end Position

namespace Token

/-- The walk ends with the end mark behind the last character, and meets no other one. -/
theorem scanFrom_eq_append (cs : List Char) (skip : Nat) (p : Position) :
    ∃ ts, scanFrom skip p cs = ts ++ [Token.eof (p.afterAll cs)] ∧ ∀ t ∈ ts, t.kind ≠ .eof := by
  induction cs generalizing skip p with
  | nil => exact ⟨[], by cases skip <;> rfl, by simp⟩
  | cons c rest ih =>
      cases skip with
      | succ skip => exact ih skip (p.after c)
      | zero =>
          obtain ⟨ts, scanned, marks⟩ := ih (Piece.cut c rest).more (p.after c)
          simp only [scanFrom, place, scanned]
          split
          · next kind text cut =>
              exact ⟨⟨kind, text, p⟩ :: ts, rfl,
                List.forall_mem_cons.2 ⟨Piece.kind_ne_eof_of_cut cut, marks⟩⟩
          · exact ⟨ts, rfl, marks⟩

/-- Every token but the end mark has been cut off the program at its place. -/
theorem cut_of_mem_scanFrom {t : Token} (other : t.kind ≠ .eof) :
    ∀ {cs : List Char} {skip : Nat} {p : Position}, t ∈ scanFrom skip p cs →
      ∃ before c rest, cs = before ++ c :: rest ∧ t.position = p.afterAll before ∧
        (Piece.cut c rest).token = some (t.kind, t.text)
  | [], skip, p, h => by
      have last : t = Token.eof p := by
        cases skip <;> simpa [scanFrom] using h
      exact absurd (congrArg Token.kind last) other
  | c :: rest, skip + 1, p, h => by
      rw [scanFrom] at h
      obtain ⟨before, d, after, rfl, placed, cut⟩ := cut_of_mem_scanFrom other h
      exact ⟨c :: before, d, after, rfl, placed, cut⟩
  | c :: rest, 0, p, h => by
      have later : t ∈ scanFrom (Piece.cut c rest).more (p.after c) rest →
          ∃ before d after, c :: rest = before ++ d :: after ∧ t.position = p.afterAll before ∧
            (Piece.cut d after).token = some (t.kind, t.text) := by
        intro mem
        obtain ⟨before, d, after, whole, placed, cut⟩ := cut_of_mem_scanFrom other mem
        exact ⟨c :: before, d, after, by rw [whole, List.cons_append], placed, cut⟩
      simp only [scanFrom, place] at h
      split at h
      · next kind text cut =>
          rcases List.mem_cons.1 h with rfl | mem
          · exact ⟨[], c, rest, rfl, rfl, cut⟩
          · exact later mem
      · exact later h

/-- A token that spells one of some operators is of that class. -/
theorem kind_eq_operator_of_mem_scan {source : String} {t : Token} {texts : List String}
    (operators : ∀ s ∈ Glyph.words ++ Glyph.spellings, Glyph.plain s.1 ∈ texts → s.2 = .operator)
    (mem : t ∈ scan source) (spelled : t.spellsAny texts = true) : t.kind = .operator := by
  obtain ⟨isSpelled, plain⟩ := spellsAny_iff.1 spelled
  have ne {k : TokenKind} (silent : k.isSpelled = false) : t.kind ≠ k :=
    TokenKind.ne_of_isSpelled isSpelled silent
  obtain ⟨_, _, _, -, -, cut⟩ := cut_of_mem_scanFrom (ne rfl) mem
  rcases Piece.kind_of_cut cut with other | listed
  · simpa [ne (k := .string) rfl, ne (k := .number) rfl, ne (k := .name) rfl] using other
  · exact operators _ listed plain

/-- The token stands in the characters where it says. -/
def StandsIn (t : Token) (cs : List Char) : Prop :=
  ∃ before after, cs = before ++ after ∧ t.position = Position.start.afterAll before ∧
    Text.Begins t.text after

theorem standsIn_of_mem_scan {source : String} {t : Token} (mem : t ∈ scan source)
    (marks : t.kind ≠ .eof) (other : t.kind ≠ .string) : t.StandsIn source.toList := by
  obtain ⟨before, c, rest, whole, placed, cut⟩ := cut_of_mem_scanFrom marks mem
  exact ⟨before, c :: rest, whole, placed, Piece.begins_of_cut cut other⟩

end Token

end EmojiLang
