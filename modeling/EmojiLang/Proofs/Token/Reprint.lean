import EmojiLang.Proofs.Eval.Respelling
import EmojiLang.Proofs.Token.Lossless

/-!
# Tokens that are written and read again

The tokens of a program may be written down again, each of them as it was, in plain spelling or by a
glyph, and with any blanks between them.  What is read off the new text are the same tokens, up to their
spelling.

**Definitions.**
* `Text.AtBlank cs`: a blank comes next, or nothing.
* `Piece.Alone kind text w`: the characters `w` by themselves are one lexeme, of a token of this class and
  text.
* `Token.Written t w`: `w` is a way to write the token.

**Method.**  A lexeme that stands alone is cut off the same way in front of a blank (`Piece.cut_append`).
So it is enough that every way to write a token stands alone.  For the text of a token this follows from
how it has been cut off its program; for other spellings it can be looked up in the table, and since one
text denotes only one token, the classes agree.

**Results.**
* `Piece.Alone.unique`: one text denotes one token.
* `Piece.alone_of_cut`: a token stands alone as it is shown.
* `Token.Written.alone`: a token stands alone however it is written.
* `Token.scan_reprint`: reading again what has been written.
-/

namespace EmojiLang

namespace Text

/-- A blank comes next, or nothing. -/
def AtBlank (cs : List Char) : Prop := ∀ c ∈ cs.head?, isSpace c = true

variable {cs more : List Char} (bounded : AtBlank more)
include bounded

/-- A run of a class without blanks ends in front of a blank. -/
theorem takeWhile_append_blank {p : Char → Bool}
    (apart : [' ', '\t', '\n', '\x0b', '\x0c', '\r'].all (fun c => !p c) = true) (cs : List Char) :
    (cs ++ more).takeWhile p = cs.takeWhile p := by
  have empty : more.takeWhile p = [] := by
    cases more with
    | nil => rfl
    | cons c more =>
        refine List.takeWhile_cons_of_neg fun member => ?_
        have space := bounded c rfl
        rw [isSpace_eq_false apart member] at space
        cases space
  rw [List.takeWhile_append, empty, List.append_nil]
  split
  · next all => exact (List.IsPrefix.eq_of_length (List.takeWhile_prefix p) all).symm
  · rfl

/-- A text without blanks does not reach over a blank. -/
theorem prefix_append_blank_iff {w : List Char} (unspaced : ∀ c ∈ w, isSpace c = false) :
    w <+: cs ++ more ↔ w <+: cs := by
  refine ⟨fun stands => ?_, fun stands => stands.trans (List.prefix_append cs more)⟩
  rcases List.prefix_or_prefix_of_prefix stands (List.prefix_append cs more) with inside | ⟨beyond, rfl⟩
  · exact inside
  · have reaches := (List.prefix_append_right_inj cs).1 stands
    cases beyond with
    | nil => simp
    | cons c beyond =>
        have ahead : c ∈ more.head? := by
          obtain ⟨rest, rfl⟩ := reaches
          rfl
        have space := bounded c ahead
        rw [unspaced c (List.mem_append_right cs List.mem_cons_self)] at space
        cases space

end Text

/-- Only strings and the end mark are not shown by their text. -/
theorem Token.shown_of_ne {t : Token} (string : t.kind ≠ .string) (ends : t.kind ≠ .eof) :
    t.shown = t.text := by
  unfold shown
  split
  · contradiction
  · contradiction
  · rfl

/-- No spelling of the table reaches over a blank. -/
theorem Glyph.longestMatch_append {more : List Char} (bounded : Text.AtBlank more) (cs : List Char) :
    longestMatch (cs ++ more) = longestMatch cs := by
  have unspaced : (spellings.all fun s => s.1.toList.all fun c => !Text.isSpace c) = true := by
    decide
  simp only [List.all_eq_true, Bool.not_eq_eq_eq_not, Bool.not_true] at unspaced
  rw [longestMatch_eq, longestMatch_eq]
  congr 1
  refine List.filter_congr fun s mem => ?_
  rw [Bool.eq_iff_iff, List.isPrefixOf_iff_prefix, List.isPrefixOf_iff_prefix]
  exact Text.prefix_append_blank_iff bounded (unspaced s mem)

namespace Piece

variable {c : Char} {rest more : List Char} {kind kind' : TokenKind} {text text' : String}

section Blank

variable (bounded : Text.AtBlank more)
include bounded

theorem beginsNumeral_append (c : Char) (rest : List Char) :
    beginsNumeral c (rest ++ more) = beginsNumeral c rest := by
  cases rest with
  | cons d rest => rfl
  | nil =>
      cases more with
      | nil => rfl
      | cons d more =>
          have space := bounded d rfl
          have digit : d.isDigit = false := by
            rw [Bool.eq_false_iff]
            intro digit
            rw [Text.isSpace_eq_false (by decide) digit] at space
            cases space
          simp [beginsNumeral, digit]

theorem sign_append (c : Char) (rest : List Char) : sign c (rest ++ more) = sign c rest := by
  have same := Glyph.longestMatch_append bounded (c :: rest)
  rw [List.cons_append] at same
  rw [sign, sign, same]
  cases matched : Glyph.longestMatch (c :: rest) with
  | none => rfl
  | some found =>
      have within := (begins_of_longestMatch matched).atHead.length_le
      rw [String.length_toList, List.length_cons] at within
      -- a selector is no blank, so that none comes from behind
      have selector : (rest.drop (found.1.length - 1) ++ more).head? = some Glyph.presentationSelector ↔
          (rest.drop (found.1.length - 1)).head? = some Glyph.presentationSelector := by
        cases rest.drop (found.1.length - 1) with
        | cons d left => rfl
        | nil =>
            rw [List.nil_append]
            refine ⟨fun ahead => ?_, fun ahead => by cases ahead⟩
            cases bounded _ ahead
      simp only [List.drop_append_of_le_length (show found.1.length - 1 ≤ rest.length by omega), selector]

omit bounded in
/-- A string in its quotes, whatever stands behind it. -/
theorem string_closed {body : List Char} (unquoted : '"' ∉ body) (behind : List Char) :
    string (body ++ '"' :: behind) = ⟨some (.string, String.ofList body), body.length + 1⟩ := by
  have inside : ∀ d ∈ body, decide (d ≠ '"') = true := by
    intro d mem
    simpa using ne_of_mem_of_not_mem mem unquoted
  have run : (body ++ '"' :: behind).takeWhile (fun c => decide (c ≠ '"')) = body := by
    rw [List.takeWhile_append_of_pos inside, List.takeWhile_cons_of_neg (by simp), List.append_nil]
  have closing : (body ++ '"' :: behind).dropWhile (fun c => decide (c ≠ '"')) = '"' :: behind := by
    rw [List.dropWhile_append_of_pos inside, List.dropWhile_cons_of_neg (by simp)]
  simp only [string, run, closing, List.take_succ_cons, List.take_zero, List.length_singleton]

/-- What stands at the head of a text is cut off the same way in front of a blank, unless it is a comment
or a string that is not closed. -/
theorem cut_append (uncommented : c ≠ Glyph.comment) (closed : c = '"' → '"' ∈ rest) :
    cut c (rest ++ more) = cut c rest := by
  have strings : c = '"' → string (rest ++ more) = string rest := by
    intro quotes
    obtain ⟨body, left, rfl, unquoted⟩ := List.eq_append_cons_of_mem (closed quotes)
    rw [List.append_assoc, List.cons_append, string_closed unquoted, string_closed unquoted]
  simp only [cut, uncommented, if_false, beginsNumeral_append bounded, sign_append bounded, numeral, word,
    Text.takeWhile_append_blank bounded (p := isNumeral) (by decide),
    Text.takeWhile_append_blank bounded (p := isWord) (by decide)]
  split_ifs with space quotes
  · rfl
  · exact strings quotes
  all_goals rfl

end Blank

/-- The characters are one lexeme by themselves: that of a token of this class and text.  Neither a comment
nor a string that is not closed is one, since these would reach over a blank. -/
def Alone (kind : TokenKind) (text : String) : List Char → Prop
  | [] => False
  | c :: rest => c ≠ Glyph.comment ∧ (c = '"' → '"' ∈ rest) ∧ cut c rest = ⟨some (kind, text), rest.length⟩

instance (kind : TokenKind) (text : String) : (w : List Char) → Decidable (Alone kind text w)
  | [] => inferInstanceAs (Decidable False)
  | _ :: _ => inferInstanceAs (Decidable (_ ∧ _ ∧ _))

/-- One text denotes one token. -/
theorem Alone.unique {w : List Char} (h : Alone kind text w) (h' : Alone kind' text' w) :
    kind = kind' ∧ text = text' := by
  cases w with
  | nil => exact h.elim
  | cons c rest =>
      have same := h.2.2.symm.trans h'.2.2
      simp only [mk.injEq, Option.some.injEq, Prod.mk.injEq, and_true] at same
      exact same

/-- The spellings of the table stand alone. -/
theorem alone_spelling : ∀ s ∈ Glyph.spellings, Alone s.2 s.1 s.1.toList := by
  decide +kernel

/-- So do the plain spellings of glyphs, and they have the same class. -/
theorem alone_plain : ∀ e ∈ Glyph.table, Alone e.kind e.plain e.plain.toList := by
  decide +kernel

/-- A string stands alone in its quotes. -/
theorem alone_string {body : List Char} (unquoted : '"' ∉ body) :
    Alone .string (String.ofList body) ('"' :: (body ++ ['"'])) := by
  refine ⟨by decide, fun _ => by simp, ?_⟩
  simp [cut, Text.isSpace, Glyph.comment, string_closed unquoted]

/-- What has been taken for a numeral begins like one. -/
theorem beginsNumeral_takeWhile (counts : beginsNumeral c rest = true) :
    beginsNumeral c (rest.takeWhile isNumeral) = true := by
  cases rest with
  | nil => exact counts
  | cons d rest =>
      by_cases digit : d.isDigit = true
      · have numeral : isNumeral d = true := by simp [isNumeral, digit]
        rw [List.takeWhile_cons_of_pos numeral]
        exact counts
      · have hfirst : c.isDigit = true := by simpa [beginsNumeral, digit] using counts
        simp [beginsNumeral, hfirst]

theorem isDigit_eq_false (counts : ¬ beginsNumeral c rest = true) : c.isDigit = false := by
  rw [beginsNumeral, Bool.or_eq_true, not_or] at counts
  exact Bool.eq_false_iff.2 counts.1

section Unquoted

variable (space : ¬ Text.isSpace c = true) (uncommented : c ≠ Glyph.comment) (unquoted : c ≠ '"')
include space uncommented unquoted

/-- A numeral stands alone. -/
theorem alone_numeral (counts : beginsNumeral c rest = true) :
    Alone .number (String.ofList (c :: rest.takeWhile isNumeral)) (c :: rest.takeWhile isNumeral) := by
  refine ⟨uncommented, fun same => absurd same unquoted, ?_⟩
  simp [cut, space, uncommented, unquoted, beginsNumeral_takeWhile counts, numeral, List.takeWhile_idem]

/-- A word stands alone. -/
theorem alone_word (counts : ¬ beginsNumeral c rest = true) (spells : beginsWord c = true) :
    Alone (Glyph.wordKind (String.ofList (c :: rest.takeWhile isWord)))
      (String.ofList (c :: rest.takeWhile isWord)) (c :: rest.takeWhile isWord) := by
  have minus : c ≠ '-' := by
    rintro rfl
    cases spells
  refine ⟨uncommented, fun same => absurd same unquoted, ?_⟩
  simp [cut, space, uncommented, unquoted, beginsNumeral, isDigit_eq_false counts, minus, spells, word,
    List.takeWhile_idem]

/-- A character that begins nothing else stands alone. -/
theorem alone_single (counts : ¬ beginsNumeral c rest = true) (spells : ¬ beginsWord c = true)
    (unmatched : Glyph.longestMatch (c :: rest) = none) : Alone .operator (String.ofList [c]) [c] := by
  have silent : Glyph.longestMatch [c] = none := by
    refine Option.eq_none_iff_forall_ne_some.2 fun found matched => ?_
    have stands : found.1.toList <+: c :: rest :=
      (begins_of_longestMatch matched).atHead.trans (List.prefix_append [c] rest)
    obtain ⟨_, longer, -⟩ :=
      Glyph.exists_longestMatch (Glyph.mem_spellings_of_longestMatch matched) stands
    rw [unmatched] at longer
    cases longer
  refine ⟨uncommented, fun same => absurd same unquoted, ?_⟩
  simp [cut, space, uncommented, unquoted, beginsNumeral, isDigit_eq_false counts, spells, sign, silent]

end Unquoted

/-- A token stands alone as it is shown. -/
theorem alone_of_cut (h : (cut c rest).token = some (kind, text)) (p : Position) :
    Alone kind text (Token.shown ⟨kind, text, p⟩).toList := by
  have unended := kind_ne_eof_of_cut h
  unfold cut at h
  split_ifs at h with space comments quotes counts spells
  · simp [blank] at h
  · simp [comment] at h
  · simp only [string, Option.some.injEq, Prod.mk.injEq] at h
    obtain ⟨rfl, rfl⟩ := h
    simpa [Token.shown] using alone_string (not_mem_takeWhile_ne '"' rest)
  · simp only [numeral, Option.some.injEq, Prod.mk.injEq] at h
    obtain ⟨rfl, rfl⟩ := h
    simpa [Token.shown] using alone_numeral space comments quotes counts
  · simp only [word, Option.some.injEq, Prod.mk.injEq] at h
    obtain ⟨rfl, rfl⟩ := h
    rw [Token.shown_of_ne (Glyph.wordKind_ne_string _) unended, String.toList_ofList]
    exact alone_word space comments quotes counts spells
  · unfold sign at h
    split at h
    · next found kindOf matched =>
        have listed := Glyph.mem_spellings_of_longestMatch matched
        simp only [Option.some.injEq, Prod.mk.injEq] at h
        obtain ⟨rfl, rfl⟩ := h
        rw [Token.shown_of_ne (Glyph.kind_ne_string_of_mem_spellings _ listed) unended]
        exact alone_spelling _ listed
    · next unmatched =>
        simp only [Option.some.injEq, Prod.mk.injEq] at h
        obtain ⟨rfl, rfl⟩ := h
        simpa [Token.shown] using alone_single space comments quotes counts spells unmatched

end Piece

namespace Token

/-- The ways to write a token: as it is shown, or, if it is spelled by the table, plainly or by a glyph. -/
inductive Written (t : Token) : String → Prop
  | shown : Written t t.shown
  | plain : t.kind.isSpelled = true → Written t (Glyph.plain t.text)
  | glyph {g : String} : t.kind.isSpelled = true → Glyph.glyphFor (Glyph.plain t.text) = some g →
      Written t g

theorem shown_of_isSpelled {t : Token} (spelled : t.kind.isSpelled = true) : t.shown = t.text :=
  shown_of_ne (TokenKind.ne_of_isSpelled spelled rfl) (TokenKind.ne_of_isSpelled spelled rfl)

open Piece (Alone)

section Writing

variable {t : Token} (itself : Alone t.kind t.text t.shown.toList)
include itself

/-- The plain spelling of a token stands alone, and has the class of the token. -/
theorem alone_plain_text (spelled : t.kind.isSpelled = true) :
    Alone t.kind (Glyph.plain t.text) (Glyph.plain t.text).toList := by
  rw [shown_of_isSpelled spelled] at itself
  cases found : Glyph.table.find? fun e => e.glyph == t.text with
  | none => simpa only [Glyph.plain, found] using itself
  | some e =>
      have mem := List.mem_of_find?_eq_some found
      have same : e.glyph = t.text := by simpa using List.find?_some found
      have listed : (e.glyph, e.kind) ∈ Glyph.spellings :=
        List.mem_append_left _ (List.mem_map.2 ⟨e, mem, rfl⟩)
      have ofTable := Piece.alone_spelling _ listed
      rw [same] at ofTable
      simp only [Glyph.plain, found, (itself.unique ofTable).1]
      exact Piece.alone_plain e mem

/-- However a token is written, an equivalent one stands there alone. -/
theorem Written.alone {w : String} (h : Written t w) :
    ∃ text, Alone t.kind text w.toList ∧
      (t.text = text ∨ t.kind.isSpelled = true ∧ Glyph.plain t.text = Glyph.plain text) := by
  cases h with
  | shown => exact ⟨t.text, itself, Or.inl rfl⟩
  | plain spelled =>
      refine ⟨_, alone_plain_text itself spelled, Or.inr ⟨spelled, ?_⟩⟩
      simpa [Token.plain, spelled] using (equivalentInPlace_plain t).1.plain_eq
  | glyph spelled glyphed =>
      refine ⟨w, ?_, Or.inr ⟨spelled, (Glyph.plain_glyphFor glyphed).symm⟩⟩
      simp only [Glyph.glyphFor, Option.map_eq_some_iff] at glyphed
      obtain ⟨e, found, rfl⟩ := glyphed
      have mem := List.mem_of_find?_eq_some found
      have same : e.plain = Glyph.plain t.text := by simpa using List.find?_some found
      have listed : (e.glyph, e.kind) ∈ Glyph.spellings :=
        List.mem_append_left _ (List.mem_map.2 ⟨e, mem, rfl⟩)
      have ofTable := Piece.alone_plain e mem
      rw [same] at ofTable
      rw [((alone_plain_text itself spelled).unique ofTable).1]
      exact Piece.alone_spelling _ listed

end Writing

/-- A lexeme that stands alone is read off a text in front of a blank. -/
theorem scanFrom_alone {kind : TokenKind} {text : String} {w more : List Char} (alone : Alone kind text w)
    (bounded : Text.AtBlank more) (p : Position) :
    scanFrom 0 p (w ++ more) = ⟨kind, text, p⟩ :: scanFrom 0 (p.afterAll w) more := by
  cases w with
  | nil => exact alone.elim
  | cons c rest =>
      obtain ⟨uncommented, closed, cut⟩ := alone
      rw [List.cons_append, scanFrom_cons, Piece.cut_append bounded uncommented closed, cut, place,
        List.take_left, List.drop_left]

theorem scanFrom_blanks {blanks : List Char} (spaces : ∀ c ∈ blanks, Text.isSpace c = true) (p : Position)
    (cs : List Char) : scanFrom 0 p (blanks ++ cs) = scanFrom 0 (p.afterAll blanks) cs := by
  induction blanks generalizing p with
  | nil => rfl
  | cons c blanks ih =>
      have space := spaces c List.mem_cons_self
      rw [List.cons_append, scanFrom_cons]
      simp only [Piece.cut, space, if_true, Piece.blank, place, List.take_zero, List.drop_zero]
      exact ih (fun d mem => spaces d (List.mem_cons_of_mem c mem)) _

/-- Tokens that are written one after the other, each with blanks behind it, are read again. -/
theorem scanFrom_parts {ts : List Token} {parts : List (String × List Char)}
    (written : List.Forall₂ (fun t part => Written t part.1) ts parts)
    (alone : ∀ t ∈ ts, Alone t.kind t.text t.shown.toList)
    (spaces : ∀ part ∈ parts, ∀ c ∈ part.2, Text.isSpace c = true)
    (apart : ∀ part ∈ parts.dropLast, part.2 ≠ []) (p : Position) :
    ∃ us q, scanFrom 0 p (parts.flatMap fun part => part.1.toList ++ part.2) = us ++ [Token.eof q] ∧
      List.Forall₂ Equivalent ts us := by
  induction written generalizing p with
  | nil => exact ⟨[], p, rfl, .nil⟩
  | @cons t part ts parts head tail ih =>
      obtain ⟨single, others⟩ := List.forall_mem_cons.1 alone
      obtain ⟨blanks, more⟩ := List.forall_mem_cons.1 spaces
      have between : ∀ part ∈ parts.dropLast, part.2 ≠ [] := by
        cases parts with
        | nil => simp
        | cons next parts => exact fun part mem => apart part (List.mem_cons_of_mem _ mem)
      obtain ⟨text, here, same⟩ := head.alone single
      obtain ⟨us, q, scanned, equivalent⟩ := ih others more between
        ((p.afterAll part.1.toList).afterAll part.2)
      refine ⟨⟨t.kind, text, p⟩ :: us, q, ?_, .cons ⟨rfl, same⟩ equivalent⟩
      have bounded : Text.AtBlank (part.2 ++ parts.flatMap fun part => part.1.toList ++ part.2) := by
        cases behind : part.2 with
        | cons c blank =>
            rintro d ⟨⟩
            exact blanks c (behind ▸ List.mem_cons_self)
        | nil =>
            -- only the last token has no blank behind it
            cases parts with
            | nil => simp [Text.AtBlank]
            | cons next parts => exact absurd behind (apart part List.mem_cons_self)
      rw [List.flatMap_cons, List.append_assoc, scanFrom_alone here bounded, scanFrom_blanks blanks,
        scanned]
      rfl

/-- The tokens of a program may be written down again, each as it is shown or, if the table spells it, in
plain spelling or by a glyph, with blanks between any two of them and perhaps at the ends.  What is read off
the new text is an equivalent token for each of them, and the end mark. -/
theorem scan_reprint {source : String} {ts : List Token} {p : Position}
    (scanned : scan source = ts ++ [Token.eof p]) {parts : List (String × List Char)}
    (written : List.Forall₂ (fun t part => Written t part.1) ts parts) (lead : List Char)
    (spaces : ∀ c ∈ lead ++ parts.flatMap Prod.snd, Text.isSpace c = true)
    (apart : ∀ part ∈ parts.dropLast, part.2 ≠ []) :
    ∃ us q, scan (String.ofList (lead ++ parts.flatMap fun part => part.1.toList ++ part.2)) =
        us ++ [Token.eof q] ∧ List.Forall₂ Equivalent ts us := by
  obtain ⟨ts', scanned', marks⟩ := scanFrom_eq_append source.toList 0 Position.start
  obtain rfl : ts = ts' := List.append_inj_left' (scanned.symm.trans scanned') rfl
  have alone : ∀ t ∈ ts, Alone t.kind t.text t.shown.toList := by
    intro t mem
    have here : t ∈ scan source := scanned ▸ List.mem_append_left _ mem
    obtain ⟨_, c, rest, -, -, cut⟩ := cut_of_mem_scanFrom (marks t mem) here
    exact Piece.alone_of_cut cut t.position
  rw [scan, String.toList_ofList,
    scanFrom_blanks fun c mem => spaces c (List.mem_append_left _ mem)]
  refine scanFrom_parts written alone (fun part mem c held => spaces c ?_) apart _
  exact List.mem_append_right _ (List.mem_flatMap.2 ⟨part, mem, held⟩)

/-- An output statement with a comment, a selector and a character that means nothing. -/
def remarkedOutput : String := "🖨️(-1➕\"💩 x\"?👈💩 done"

/-- The statement in other spellings, one token to a line or so. -/
def remarkedOutputParts : List (String × List Char) :=
  [("print", ['\n']), ("👉", [' ', '\t']), ("-1", ['\n']), ("+", [' ']), ("\"💩 x\"", ['\r', '\n']),
    ("?", [' ']), (")", [])]

/-- The tokens of `remarkedOutput`. -/
def remarkedOutputTokens : List Token :=
  [⟨.keyword, "🖨", ⟨1, 1⟩⟩, ⟨.delimiter, "(", ⟨1, 3⟩⟩, ⟨.number, "-1", ⟨1, 4⟩⟩,
    ⟨.operator, "➕", ⟨1, 6⟩⟩, ⟨.string, "💩 x", ⟨1, 7⟩⟩, ⟨.operator, "?", ⟨1, 12⟩⟩,
    ⟨.delimiter, "👈", ⟨1, 13⟩⟩]

/-- Seven tokens are read again off the statement in other spellings. -/
theorem scan_reprint_remarkedOutput :
    ∃ us q, scan "print\n👉 \t-1\n+ \"💩 x\"\r\n? )" = us ++ [Token.eof q] ∧
      List.Forall₂ Equivalent remarkedOutputTokens us := by
  have scanned : scan remarkedOutput = remarkedOutputTokens ++ [Token.eof ⟨1, 20⟩] := by
    decide +kernel
  have written : List.Forall₂ (fun t part => Written t part.1) remarkedOutputTokens remarkedOutputParts :=
    .cons (.plain rfl) (.cons (.glyph rfl rfl) (.cons .shown (.cons (.plain rfl) (.cons .shown
      (.cons .shown (.cons (.plain rfl) .nil))))))
  exact scan_reprint scanned written [] (List.all_eq_true.1 rfl) (by decide)

end Token

end EmojiLang
