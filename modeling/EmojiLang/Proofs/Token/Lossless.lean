import EmojiLang.Proofs.Token.Placement
import Mathlib.Data.List.DropRight

/-!
# No character is lost

A program text is the lexemes of its tokens with the gaps between them.  So the tokens, together with the
gaps, say all that the text says, and the place of a token can be counted off the characters in front of
its lexeme.

**Definitions.**
* `Position.behind before`: the place behind some characters, counted.
* `Text.Gap rest gap`: blanks and comments that stand in front of `rest`.
* `Token.Lexeme rest kind text lexeme`: the characters that a token of this class and text is written by.
* `Slice`: a token with its lexeme and the gap in front of that.
* `Slice.Fits` and `Slice.Fitting`: a slice, or a row of slices, agrees with the text around it.

**Results.**
* `Position.afterAll_behind`: the place that is kept character by character is the one that is counted.
* `Glyph.prefix_of_longestMatch`: what is recognized is the longest spelling there is.
* `Piece.gap_of_cut`, `Piece.lexeme_of_cut` and `Piece.longest_of_cut`: what one piece of a text is.
* `Token.scanFrom_sliced`: what is left of a text falls into slices.
* `Token.scan_lossless`: a whole text falls into slices, one for each token, and a last gap.
-/

namespace EmojiLang

namespace Position

/-- The place behind `before`: the line is one more than the number of line feeds, the column one more than
the number of characters behind the last of them. -/
def behind (before : List Char) : Position :=
  ⟨1 + before.count '\n', 1 + (before.rtakeWhile fun c => decide (c ≠ '\n')).length⟩

theorem behind_concat (before : List Char) (c : Char) :
    behind (before ++ [c]) = (behind before).after c := by
  by_cases feed : c = '\n'
  · subst feed
    simp [behind, after, Nat.add_assoc]
  · simp [behind, after, feed, List.count_append, Nat.add_assoc]

/-- The place that is kept while characters are read is the one behind them. -/
theorem afterAll_behind (before cs : List Char) :
    (behind before).afterAll cs = behind (before ++ cs) := by
  induction cs generalizing before with
  | nil => rw [afterAll_nil, List.append_nil]
  | cons c cs ih => rw [afterAll_cons, ← behind_concat, ih, List.append_assoc, List.singleton_append]

end Position

namespace Text

/-- Blanks and comments in front of `rest`.  A comment reaches up to the end of its line, which is a line
feed or the end of the text. -/
inductive Gap (rest : List Char) : List Char → Prop
  | nil : Gap rest []
  | blank {c : Char} {gap : List Char} : isSpace c = true → Gap rest gap → Gap rest (c :: gap)
  | comment {body gap : List Char} : '\n' ∉ body → (∀ c ∈ (gap ++ rest).head?, c = '\n') →
      Gap rest gap → Gap rest (Glyph.comment :: body ++ gap)

theorem Gap.append {rest first second : List Char} (h : Gap (second ++ rest) first) (k : Gap rest second) :
    Gap rest (first ++ second) := by
  induction h with
  | nil => exact k
  | blank space _ ih => exact .blank space ih
  | @comment body gap line ends _ ih =>
      rw [List.append_assoc]
      refine .comment line ?_ ih
      rwa [List.append_assoc]

end Text

section Runs

variable {α : Type} (p : α → Bool) (l : List α)

theorem take_length_takeWhile : l.take (l.takeWhile p).length = l.takeWhile p :=
  (List.prefix_iff_eq_take.1 (List.takeWhile_prefix p)).symm

theorem drop_length_takeWhile : l.drop (l.takeWhile p).length = l.dropWhile p := by
  have parts := List.takeWhile_append_dropWhile (p := p) (l := l)
  calc l.drop (l.takeWhile p).length
      = (l.takeWhile p ++ l.dropWhile p).drop (l.takeWhile p).length := by rw [parts]
    _ = l.dropWhile p := List.drop_left

theorem not_mem_takeWhile_ne [DecidableEq α] (a : α) (l : List α) :
    a ∉ l.takeWhile fun b => decide (b ≠ a) := by
  intro mem
  simpa using List.mem_takeWhile_imp mem

/-- A run ends in front of something that is not of its class. -/
theorem eq_false_of_mem_head?_dropWhile {a : α} (h : a ∈ (l.dropWhile p).head?) : p a = false := by
  have ends := List.head?_dropWhile_not p l
  rwa [Option.mem_def.1 h] at ends

end Runs

namespace Glyph

/-- The better one of two candidates is not shorter than either of them. -/
theorem length_le_longer {best : Option (String × TokenKind)} {next s : String × TokenKind}
    (candidate : best = some s ∨ s = next) :
    ∃ better, longer best next = some better ∧ s.1.length ≤ better.1.length := by
  unfold longer
  rcases candidate with rfl | rfl
  · by_cases shorter : s.1.length < next.1.length
    · exact ⟨next, if_pos shorter, Nat.le_of_lt shorter⟩
    · exact ⟨s, if_neg shorter, Nat.le_refl _⟩
  · cases best with
    | none => exact ⟨s, rfl, Nat.le_refl _⟩
    | some b =>
        by_cases shorter : b.1.length < s.1.length
        · exact ⟨s, if_pos shorter, Nat.le_refl _⟩
        · exact ⟨b, if_neg shorter, Nat.le_of_not_lt shorter⟩

/-- The choice is not shorter than any of the candidates. -/
theorem length_le_foldl_longer {candidates : List (String × TokenKind)}
    {best : Option (String × TokenKind)} {s : String × TokenKind}
    (candidate : best = some s ∨ s ∈ candidates) :
    ∃ found, candidates.foldl longer best = some found ∧ s.1.length ≤ found.1.length := by
  induction candidates generalizing best s with
  | nil =>
      rcases candidate with rfl | mem
      · exact ⟨s, rfl, Nat.le_refl _⟩
      · cases mem
  | cons next candidates ih =>
      rw [List.foldl_cons]
      rw [List.mem_cons, ← or_assoc] at candidate
      rcases candidate with here | later
      · obtain ⟨better, same, le⟩ := length_le_longer here
        obtain ⟨found, last, le'⟩ := ih (Or.inl same)
        exact ⟨found, last, Nat.le_trans le le'⟩
      · exact ih (Or.inr later)

theorem wordKind_ne_string (word : String) : wordKind word ≠ .string := by
  have listed : ∀ w ∈ words, w.2 ≠ .string := by decide
  intro string
  exact listed _ (mem_words_of_wordKind string (by simp)) rfl

theorem kind_ne_string_of_mem_spellings : ∀ s ∈ spellings, s.2 ≠ .string := by
  decide

/-- Where a spelling stands, one is recognized. -/
theorem exists_longestMatch {cs : List Char} {s : String × TokenKind} (mem : s ∈ spellings)
    (stands : s.1.toList <+: cs) :
    ∃ found, longestMatch cs = some found ∧ s.1.length ≤ found.1.length := by
  rw [longestMatch_eq]
  exact length_le_foldl_longer
    (Or.inr (List.mem_filter.2 ⟨mem, List.isPrefixOf_iff_prefix.2 stands⟩))

/-- Of the spellings that stand at one place, the longest one is recognized. -/
theorem prefix_of_longestMatch {cs : List Char} {found s : String × TokenKind}
    (matched : longestMatch cs = some found) (mem : s ∈ spellings) (stands : s.1.toList <+: cs) :
    s.1.toList <+: found.1.toList := by
  obtain ⟨found', matched', le⟩ := exists_longestMatch mem stands
  rw [matched] at matched'
  injection matched' with same
  subst same
  refine List.prefix_of_prefix_length_le stands (Piece.begins_of_longestMatch matched).atHead ?_
  rwa [String.length_toList, String.length_toList]

end Glyph

namespace Token

/-- The characters that a token is written by, in front of `rest`.  The closing quote of a string is missing
only at the end of the text.  Anything else is written by its text, perhaps with a presentation selector
behind it. -/
inductive Lexeme (rest : List Char) : TokenKind → String → List Char → Prop
  | string {text : String} {closing : List Char} : '"' ∉ text.toList →
      closing = ['"'] ∨ closing = [] ∧ rest = [] →
      Lexeme rest .string text ('"' :: text.toList ++ closing)
  | other {kind : TokenKind} {text : String} {selector : List Char} : kind ≠ .string → text.toList ≠ [] →
      selector = [] ∨ selector = [Glyph.presentationSelector] →
      Lexeme rest kind text (text.toList ++ selector)

/-- Characters that are the text of a token, without a selector. -/
theorem Lexeme.of_text {kind : TokenKind} (other : kind ≠ .string) {cs : List Char} (nonempty : cs ≠ [])
    (rest : List Char) : Lexeme rest kind (String.ofList cs) cs := by
  have lexeme : Lexeme rest kind (String.ofList cs) ((String.ofList cs).toList ++ []) :=
    .other other (by rwa [String.toList_ofList]) (Or.inl rfl)
  rwa [String.toList_ofList, List.append_nil] at lexeme

end Token

namespace Piece

variable {c : Char} {rest : List Char} {kind : TokenKind} {text : String}

/-- A piece without a token is a blank or a comment. -/
theorem gap_of_cut (h : (cut c rest).token = none) :
    Text.Gap (rest.drop (cut c rest).more) (c :: rest.take (cut c rest).more) := by
  unfold cut at h ⊢
  split_ifs at h ⊢ with space comments quotes counts spells
  · exact .blank space .nil
  · subst comments
    simp only [comment, take_length_takeWhile, drop_length_takeWhile]
    rw [← List.append_nil (Glyph.comment :: _)]
    refine .comment (not_mem_takeWhile_ne '\n' rest) ?_ .nil
    intro d ahead
    simpa using eq_false_of_mem_head?_dropWhile _ rest ahead
  · simp [string] at h
  · simp [numeral] at h
  · simp [word] at h
  · unfold sign at h
    split at h <;> cases h

/-- A string reaches over its closing quote, or up to the end of the text. -/
theorem lexeme_string (rest : List Char) :
    Token.Lexeme (rest.drop (string rest).more) .string
      (String.ofList (rest.takeWhile fun c => decide (c ≠ '"'))) ('"' :: rest.take (string rest).more) := by
  have parts := List.takeWhile_append_dropWhile (p := fun c => decide (c ≠ '"')) (l := rest)
  have unquoted := not_mem_takeWhile_ne '"' rest
  have ends := @eq_false_of_mem_head?_dropWhile _ (fun c => decide (c ≠ '"')) rest
  simp only [string]
  generalize rest.takeWhile (fun c => decide (c ≠ '"')) = body,
    rest.dropWhile (fun c => decide (c ≠ '"')) = tail at parts unquoted ends ⊢
  subst parts
  have lexeme (closing left : List Char) (closed : closing = ['"'] ∨ closing = [] ∧ left = []) :
      Token.Lexeme left .string (String.ofList body) ('"' :: body ++ closing) := by
    have lexeme : Token.Lexeme left .string (String.ofList body)
        ('"' :: (String.ofList body).toList ++ closing) := .string (by simpa using unquoted) closed
    rwa [String.toList_ofList] at lexeme
  rw [List.take_length_add_append, List.drop_length_add_append]
  cases tail with
  | nil => exact lexeme [] [] (Or.inr ⟨rfl, rfl⟩)
  | cons d more =>
      obtain rfl : d = '"' := by simpa using ends rfl
      exact lexeme ['"'] more (Or.inl rfl)

/-- A spelling of the table is taken with one selector behind it, if there is one. -/
theorem lexeme_sign (h : (sign c rest).token = some (kind, text)) :
    Token.Lexeme (rest.drop (sign c rest).more) kind text (c :: rest.take (sign c rest).more) := by
  unfold sign at h ⊢
  split at h
  · next found kindOf matched =>
      have begins := begins_of_longestMatch matched
      obtain ⟨tail, whole⟩ := begins.atHead
      simp only [Option.some.injEq, Prod.mk.injEq] at h
      obtain ⟨rfl, rfl⟩ := h
      have unstrung :=
        Glyph.kind_ne_string_of_mem_spellings _ (Glyph.mem_spellings_of_longestMatch matched)
      dsimp only
      cases letters : found.toList with
      | nil => exact absurd letters begins.nonempty
      | cons d more =>
          rw [letters, List.cons_append, List.cons.injEq] at whole
          obtain ⟨rfl, rfl⟩ := whole
          have reach : found.length - 1 = more.length := by
            rw [← String.length_toList, letters, List.length_cons, Nat.add_sub_cancel]
          rw [reach, List.drop_left, List.take_length_add_append, List.drop_length_add_append]
          have lexeme (selector left : List Char)
              (one : selector = [] ∨ selector = [Glyph.presentationSelector]) :
              Token.Lexeme left kindOf found (d :: more ++ selector) :=
            letters ▸ .other unstrung begins.nonempty one
          split
          · next ahead =>
              cases tail with
              | nil => cases ahead
              | cons e tail =>
                  obtain rfl : e = Glyph.presentationSelector := by simpa using ahead
                  exact lexeme [Glyph.presentationSelector] tail (Or.inr rfl)
          · exact lexeme [] tail (Or.inl rfl)
  · simp only [Option.some.injEq, Prod.mk.injEq] at h
    obtain ⟨rfl, rfl⟩ := h
    exact .of_text (by simp) (by simp) _

/-- A piece with a token is a lexeme of that token. -/
theorem lexeme_of_cut (h : (cut c rest).token = some (kind, text)) :
    Token.Lexeme (rest.drop (cut c rest).more) kind text (c :: rest.take (cut c rest).more) := by
  unfold cut at h ⊢
  split_ifs at h ⊢ with space comments quotes counts spells
  · simp [blank] at h
  · simp [comment] at h
  · subst quotes
    simp only [string, Option.some.injEq, Prod.mk.injEq] at h
    obtain ⟨rfl, rfl⟩ := h
    exact lexeme_string rest
  · simp only [numeral, Option.some.injEq, Prod.mk.injEq] at h
    obtain ⟨rfl, rfl⟩ := h
    simp only [numeral, take_length_takeWhile, drop_length_takeWhile]
    exact .of_text (by simp) (by simp) _
  · simp only [word, Option.some.injEq, Prod.mk.injEq] at h
    obtain ⟨rfl, rfl⟩ := h
    simp only [word, take_length_takeWhile, drop_length_takeWhile]
    exact .of_text (Glyph.wordKind_ne_string _) (by simp) _
  · exact lexeme_sign h

/-- Neither a blank, a comment, a literal nor a word begins with the character. -/
def beginsSign (c : Char) : Bool :=
  !(Text.isSpace c || c == Glyph.comment || c == '"' || c == '-' || c.isDigit || beginsWord c)

theorem cut_of_beginsSign (other : beginsSign c = true) : cut c rest = sign c rest := by
  simp only [beginsSign, Bool.not_eq_true', Bool.or_eq_false_iff, beq_eq_false_iff_ne] at other
  obtain ⟨⟨⟨⟨⟨space, comments⟩, quotes⟩, minus⟩, digit⟩, word⟩ := other
  simp [cut, beginsNumeral, space, comments, quotes, minus, digit, word]

/-- No spelling of the table begins like a blank, a comment, a literal or a word. -/
theorem beginsSign_of_mem_spellings {s : String × TokenKind} (mem : s ∈ Glyph.spellings)
    {more : List Char} (letters : s.1.toList = c :: more) : beginsSign c = true := by
  have listed : (Glyph.spellings.all fun s => s.1.toList.head?.any beginsSign) = true := by
    decide
  simpa [letters] using List.all_eq_true.1 listed s mem

theorem cut_eq_sign {s : String × TokenKind} (mem : s ∈ Glyph.spellings)
    (stands : s.1.toList <+: c :: rest) : cut c rest = sign c rest := by
  have nonempty : ∀ s ∈ Glyph.spellings, s.1.toList ≠ [] := by decide
  obtain ⟨tail, whole⟩ := stands
  cases letters : s.1.toList with
  | nil => exact absurd letters (nonempty s mem)
  | cons d more =>
      rw [letters, List.cons_append, List.cons.injEq] at whole
      obtain ⟨rfl, -⟩ := whole
      exact cut_of_beginsSign (beginsSign_of_mem_spellings mem letters)

/-- Where spellings of the table stand, the token is the longest of them. -/
theorem longest_of_cut (h : (cut c rest).token = some (kind, text)) {s : String × TokenKind}
    (mem : s ∈ Glyph.spellings) (stands : s.1.toList <+: c :: rest) :
    (text, kind) ∈ Glyph.spellings ∧ s.1.toList <+: text.toList := by
  obtain ⟨found, matched, -⟩ := Glyph.exists_longestMatch mem stands
  rw [cut_eq_sign mem stands, sign, matched] at h
  simp only [Option.some.injEq, Prod.mk.injEq] at h
  obtain ⟨rfl, rfl⟩ := h
  exact ⟨Glyph.mem_spellings_of_longestMatch matched, Glyph.prefix_of_longestMatch matched mem stands⟩

end Piece

/-- A token with its lexeme and the gap in front of that. -/
structure Slice where
  gap : List Char
  token : Token
  lexeme : List Char

namespace Slice

/-- All the characters of a slice. -/
def chars (s : Slice) : List Char := s.gap ++ s.lexeme

/-- The slice agrees with what stands before and behind it in the text. -/
structure Fits (before rest : List Char) (s : Slice) : Prop where
  gap : Text.Gap (s.lexeme ++ rest) s.gap
  lexeme : Token.Lexeme rest s.token.kind s.token.text s.lexeme
  unended : s.token.kind ≠ .eof
  place : s.token.position = Position.behind (before ++ s.gap)
  longest : ∀ spelling ∈ Glyph.spellings, spelling.1.toList <+: s.lexeme ++ rest →
    (s.token.text, s.token.kind) ∈ Glyph.spellings ∧ spelling.1.toList <+: s.token.text.toList

/-- The slices, with a last gap behind them, agree with each other and with what stands before them. -/
def Fitting (before : List Char) : List Slice → (last : List Char) → Prop
  | [], last => Text.Gap [] last
  | s :: slices, last =>
      s.Fits before (slices.flatMap chars ++ last) ∧ Fitting (before ++ s.chars) slices last

/-- Blanks and comments in front of the first slice go into its gap. -/
theorem Fitting.widen {before gap last : List Char} {slices : List Slice}
    (h : Fitting (before ++ gap) slices last) (filled : Text.Gap (slices.flatMap chars ++ last) gap) :
    ∃ slices' last', gap ++ (slices.flatMap chars ++ last) = slices'.flatMap chars ++ last' ∧
      slices'.map token = slices.map token ∧ Fitting before slices' last' := by
  cases slices with
  | nil => exact ⟨[], gap ++ last, rfl, rfl, .append (by simpa using filled) h⟩
  | cons s slices =>
      obtain ⟨fits, others⟩ := h
      refine ⟨{ s with gap := gap ++ s.gap } :: slices, last, by simp [chars], rfl, ?_, ?_⟩
      · refine ⟨.append (by simpa [chars] using filled) fits.gap, fits.lexeme, fits.unended, ?_,
          fits.longest⟩
        rw [fits.place, List.append_assoc]
      · simpa [chars] using others

end Slice

namespace Token

/-- The tokens are those of slices of the characters, and an end mark behind these. -/
def Sliced (before cs : List Char) (ts : List Token) : Prop :=
  ∃ slices last, cs = slices.flatMap Slice.chars ++ last ∧
    ts = slices.map Slice.token ++ [Token.eof (Position.behind (before ++ cs))] ∧
    Slice.Fitting before slices last

/-- To scan is to cut off one piece after the other. -/
theorem scanFrom_cons (p : Position) (c : Char) (rest : List Char) :
    scanFrom 0 p (c :: rest) = place p (Piece.cut c rest)
      (scanFrom 0 (p.afterAll (c :: rest.take (Piece.cut c rest).more))
        (rest.drop (Piece.cut c rest).more)) := by
  rw [scanFrom, scanFrom_skip]
  rfl

/-- What is left of a text falls into slices. -/
theorem scanFrom_sliced (before cs : List Char) :
    Sliced before cs (scanFrom 0 (Position.behind before) cs) := by
  cases cs with
  | nil => exact ⟨[], [], rfl, by rw [List.append_nil]; rfl, .nil⟩
  | cons c rest =>
      have more := scanFrom_sliced (before ++ c :: rest.take (Piece.cut c rest).more)
        (rest.drop (Piece.cut c rest).more)
      have parts : c :: rest = (c :: rest.take (Piece.cut c rest).more) ++
          rest.drop (Piece.cut c rest).more := by simp
      rw [scanFrom_cons, Position.afterAll_behind]
      obtain ⟨slices, last, left, tokens, fitting⟩ := more
      rw [List.append_assoc, ← parts] at tokens
      rw [tokens, place]
      cases denoted : (Piece.cut c rest).token with
      | none =>
          have gap := Piece.gap_of_cut denoted
          rw [left] at gap parts
          obtain ⟨slices', last', whole, same, fitting'⟩ := fitting.widen gap
          exact ⟨slices', last', parts.trans whole, by rw [same], fitting'⟩
      | some denotes =>
          obtain ⟨kind, text⟩ := denotes
          refine ⟨⟨[], ⟨kind, text, Position.behind before⟩,
            c :: rest.take (Piece.cut c rest).more⟩ :: slices, last, ?_, rfl, ?_, fitting⟩
          · rw [List.flatMap_cons, Slice.chars, List.nil_append, List.append_assoc, ← left, ← parts]
          · have lexeme := Piece.lexeme_of_cut denoted
            rw [left] at lexeme parts
            refine ⟨.nil, lexeme, Piece.kind_ne_eof_of_cut denoted, by rw [List.append_nil], ?_⟩
            intro spelling mem stands
            rw [← parts] at stands
            exact Piece.longest_of_cut denoted mem stands
termination_by cs.length
decreasing_by
  simp only [List.length_cons, List.length_drop]
  omega

/-- Every text is a gap, and then a lexeme and a gap for each of its tokens but the end mark; nothing is
left out.  A gap is made of blanks and of comments up to the ends of their lines.  A lexeme is a literal
string in its quotes, or the text of the token with at most one presentation selector; a spelling of the
table is the longest that stands there.  Each token is placed by the line feeds in front of its lexeme, and
by the characters behind the last of them. -/
theorem scan_lossless (source : String) :
    ∃ slices last, source.toList = slices.flatMap Slice.chars ++ last ∧
      scan source = slices.map Slice.token ++ [Token.eof (Position.behind source.toList)] ∧
      Slice.Fitting [] slices last :=
  scanFrom_sliced [] source.toList

end Token

end EmojiLang
