import EmojiLang.Proofs.Token.Spelling
import EmojiLang.Token.Lexer
import Mathlib.Tactic.SplitIfs

/-!
# Tokens that a text can have

`Token.Lexical t` says that some text has a token of the class and spelling of `t` somewhere.

**Results.** `Piece.kind_of_cut` says where the class of a token comes from.  Of the tokens that are
operands by themselves only the truth values are spelled by the table, and `Lexical.spells_truth` says
that nothing but `true` and `false` is a truth value.  So no operand can be taken for a keyword, an
operator or a delimiter.
-/

namespace EmojiLang

namespace Glyph

theorem mem_of_foldl_longer {found : String × TokenKind} :
    ∀ {candidates : List (String × TokenKind)} {best : Option (String × TokenKind)},
      candidates.foldl longer best = some found → best = some found ∨ found ∈ candidates
  | [], best, h => Or.inl h
  | next :: candidates, best, h => by
      rw [List.foldl_cons] at h
      rcases mem_of_foldl_longer h with chosen | mem
      · unfold longer at chosen
        split at chosen
        · exact Or.inr (by simp_all)
        · split at chosen
          · exact Or.inr (by simp_all)
          · exact Or.inl chosen
      · exact Or.inr (List.mem_cons_of_mem _ mem)

/-- What is recognized at the head of a text is a spelling of the table. -/
theorem mem_spellings_of_longestMatch {cs : List Char} {found : String × TokenKind}
    (h : longestMatch cs = some found) : found ∈ spellings := by
  rw [longestMatch_eq] at h
  rcases mem_of_foldl_longer h with none | mem
  · cases none
  · exact (List.mem_filter.1 mem).1

theorem mem_words_of_wordKind {word : String} {kind : TokenKind} (h : wordKind word = kind)
    (meaning : kind ≠ .name) : (word, kind) ∈ words := by
  unfold wordKind at h
  split at h
  · next entry found =>
      have same : entry.1 = word := by
        simpa using List.find?_some found
      rw [← same, ← h]
      exact List.mem_of_find?_eq_some found
  · exact absurd h.symm meaning

end Glyph

namespace Piece

/-- The classes of tokens: what the table says of a word or a spelling, or one of four others. -/
theorem kind_of_cut {c : Char} {rest : List Char} {kind : TokenKind} {text : String}
    (h : (cut c rest).token = some (kind, text)) :
    kind ∈ [.string, .number, .name, .operator] ∨ (text, kind) ∈ Glyph.words ++ Glyph.spellings := by
  unfold cut at h
  split_ifs at h
  · simp [blank] at h
  · simp [comment] at h
  · simp only [string, Option.some.injEq, Prod.mk.injEq] at h
    simp [← h.1]
  · simp only [numeral, Option.some.injEq, Prod.mk.injEq] at h
    simp [← h.1]
  · simp only [word, Option.some.injEq, Prod.mk.injEq] at h
    obtain ⟨kindOf, rfl⟩ := h
    by_cases named : kind = .name
    · simp [named]
    · exact Or.inr (List.mem_append_left _ (Glyph.mem_words_of_wordKind kindOf named))
  · unfold sign at h
    split at h
    · next found matched =>
        simp only [Option.some.injEq, Prod.mk.injEq] at h
        obtain ⟨rfl, rfl⟩ := h
        exact Or.inr (List.mem_append_right _ (Glyph.mem_spellings_of_longestMatch matched))
    · simp only [Option.some.injEq, Prod.mk.injEq] at h
      simp [← h.1]

/-- A truth value is cut off a text in one of its spellings only. -/
theorem plain_of_cut_boolean {c : Char} {rest : List Char} {text : String}
    (h : (cut c rest).token = some (.boolean, text)) :
    Glyph.plain text ∈ ["true", "false"] := by
  have listed : ∀ s ∈ Glyph.words ++ Glyph.spellings, s.2 = .boolean →
      Glyph.plain s.1 ∈ ["true", "false"] := by
    decide
  rcases kind_of_cut h with other | mem
  · simp at other
  · exact listed _ mem rfl

end Piece

namespace Token

theorem plain_of_mem_scanFrom {t : Token} (truth : t.kind = .boolean) :
    ∀ {cs : List Char} {skip : Nat} {p : Position}, t ∈ scanFrom skip p cs →
      Glyph.plain t.text ∈ ["true", "false"]
  | [], skip, p, h => by
      have last : t = Token.eof p := by
        cases skip <;> simpa [scanFrom] using h
      rw [last] at truth
      cases truth
  | c :: rest, skip + 1, p, h => by
      rw [scanFrom] at h
      exact plain_of_mem_scanFrom truth h
  | c :: rest, 0, p, h => by
      simp only [scanFrom, place] at h
      split at h
      · next kind text cut =>
          rcases List.mem_cons.1 h with rfl | later
          · obtain rfl : kind = .boolean := truth
            exact Piece.plain_of_cut_boolean cut
          · exact plain_of_mem_scanFrom truth later
      · exact plain_of_mem_scanFrom truth h

/-- Some text has a token of this class and spelling. -/
def Lexical (t : Token) : Prop :=
  ∃ source, ∃ s ∈ scan source, s.kind = t.kind ∧ s.text = t.text

theorem Lexical.spells_truth {t : Token} (h : t.Lexical) (truth : t.kind = .boolean) :
    t.spellsAny ["true", "false"] = true := by
  obtain ⟨source, s, mem, kind, text⟩ := h
  have spelled := plain_of_mem_scanFrom (kind.trans truth) mem
  rw [text] at spelled
  exact spellsAny_iff.2 ⟨by rw [truth]; rfl, spelled⟩

end Token

end EmojiLang
