import EmojiLang.Proofs.Token.Lossless

/-!
# Presentation selectors

Editors append a selector to a glyph to ask for its coloured form.  One selector directly behind the
spelling of a token is taken with it and makes no difference.  Inside a spelling of two glyphs it does:
there it ends the token of the first one.

**Definitions.**
* `Token.content`: the class and text of a token, without its place.
* `Token.contents cs`: the contents of the tokens of a text, wherever the text stands.
* `Token.Reaches before d`: pieces of a text end with `before`, whatever stands behind the next character
  `d`.

**Results.**
* `Piece.cut_congr`: a piece depends on its own characters and the next one only.
* `Token.reaches_of_mem_scanFrom`: a piece begins where a token stands.
* `Token.contents_selector`: a selector ends the token of the glyph in front of it.
* `Token.scan_selector`: a selector within a glyph of the table leaves the contents as they are exactly
  if it stands at the end of the glyph.
-/

namespace EmojiLang

namespace Position

theorem behind_append_ne (before : List Char) {more : List Char} (nonempty : more ≠ []) :
    behind (before ++ more) ≠ behind before := by
  intro same
  simp only [behind, mk.injEq, List.count_append] at same
  obtain ⟨lines, columns⟩ := same
  have line : more.count '\n' = 0 := by omega
  -- on one line the column counts every character
  have all : ∀ c ∈ more, decide (c ≠ '\n') = true := by
    intro c mem
    simpa using fun feed : c = '\n' => List.count_eq_zero.1 line (feed ▸ mem)
  have longer : (before ++ more).rtakeWhile (fun c => decide (c ≠ '\n')) =
      before.rtakeWhile (fun c => decide (c ≠ '\n')) ++ more := by
    rw [List.rtakeWhile, List.reverse_append, List.takeWhile_append_of_pos (by simpa using all),
      List.reverse_append, List.reverse_reverse, List.rtakeWhile]
  rw [longer, List.length_append] at columns
  have := List.length_pos_of_ne_nil nonempty
  omega

/-- Two places in one text differ if the characters in front of them do. -/
theorem behind_inj {before before' cs : List Char} (stands : before <+: cs) (stands' : before' <+: cs)
    (same : behind before = behind before') : before = before' := by
  rcases List.prefix_or_prefix_of_prefix stands stands' with ⟨more, rfl⟩ | ⟨more, rfl⟩
  · by_contra apart
    exact behind_append_ne before (by rintro rfl; simp at apart) same.symm
  · by_contra apart
    exact behind_append_ne before' (by rintro rfl; simp at apart) same

end Position

namespace Glyph

/-- No spelling is longer than two characters, so what is recognized depends on two characters only. -/
theorem longestMatch_congr {cs ds : List Char} (same : cs.take 2 = ds.take 2) :
    longestMatch cs = longestMatch ds := by
  have short : ∀ s ∈ spellings, s.1.toList.length ≤ 2 := by decide
  have stands {s : String × TokenKind} (mem : s ∈ spellings) (cs : List Char) :
      s.1.toList.isPrefixOf cs = s.1.toList.isPrefixOf (cs.take 2) := by
    rw [Bool.eq_iff_iff, List.isPrefixOf_iff_prefix, List.isPrefixOf_iff_prefix, List.prefix_take_iff]
    exact (and_iff_left (short s mem)).symm
  rw [longestMatch_eq, longestMatch_eq]
  congr 1
  refine List.filter_congr fun s mem => ?_
  rw [stands mem cs, stands mem ds, same]

end Glyph

section Runs

variable {α : Type} {p : α → Bool} {d : α}

/-- A run that ends in front of some element does not depend on what stands behind that. -/
theorem takeWhile_append_congr {r s : List α} (ends : ((r ++ d :: s).takeWhile p).length ≤ r.length)
    (s' : List α) : (r ++ d :: s').takeWhile p = (r ++ d :: s).takeWhile p := by
  induction r with
  | nil =>
      simp only [List.nil_append, List.takeWhile_cons] at ends ⊢
      cases hd : p d with
      | false => rfl
      | true => simp [hd] at ends
  | cons a r ih =>
      simp only [List.cons_append, List.takeWhile_cons] at ends ⊢
      cases ha : p a with
      | false => rfl
      | true =>
          simp only [ha, if_true, List.length_cons, Nat.add_le_add_iff_right] at ends
          simp only [if_true, ih ends]

theorem head?_drop_append_congr {n : Nat} {r : List α} (le : n ≤ r.length) (s s' : List α) :
    ((r ++ d :: s').drop n).head? = ((r ++ d :: s).drop n).head? := by
  rw [List.drop_append_of_le_length le, List.drop_append_of_le_length le]
  cases r.drop n <;> rfl

end Runs

namespace Piece

variable {c d : Char} {r s : List Char}

/-- A string whose closing quote has been read does not depend on what follows. -/
theorem string_congr (ends : (string (r ++ d :: s)).more ≤ r.length) (s' : List Char) :
    string (r ++ d :: s') = string (r ++ d :: s) := by
  simp only [string, List.take_one, ← drop_length_takeWhile] at ends ⊢
  have body := Nat.le_trans (Nat.le_add_right _ _) ends
  rw [takeWhile_append_congr body, head?_drop_append_congr body]

/-- A spelling is recognized by at most two characters, and a selector is looked for directly behind it. -/
theorem sign_congr (ends : (sign c (r ++ d :: s)).more ≤ r.length) (s' : List Char) :
    sign c (r ++ d :: s') = sign c (r ++ d :: s) := by
  have same : Glyph.longestMatch (c :: (r ++ d :: s')) = Glyph.longestMatch (c :: (r ++ d :: s)) := by
    refine Glyph.longestMatch_congr ?_
    cases r <;> rfl
  unfold sign at ends ⊢
  rw [same]
  split at ends
  · next text kind matched =>
      have reach : text.length - 1 ≤ r.length := Nat.le_trans (Nat.le_add_right _ _) ends
      dsimp only
      rw [head?_drop_append_congr reach s s']
  · rfl

/-- A piece is decided by its own characters and the one behind it. -/
theorem cut_congr (ends : (cut c (r ++ d :: s)).more ≤ r.length) (s' : List Char) :
    cut c (r ++ d :: s') = cut c (r ++ d :: s) := by
  have counts : beginsNumeral c (r ++ d :: s') = beginsNumeral c (r ++ d :: s) := by
    cases r <;> rfl
  simp only [cut, counts] at ends ⊢
  split_ifs at ends ⊢ with space comments quotes numerals spells
  · rfl
  · simp only [comment] at ends ⊢
    rw [takeWhile_append_congr ends]
  · exact string_congr ends s'
  · simp only [numeral] at ends ⊢
    rw [takeWhile_append_congr ends]
  · simp only [word] at ends ⊢
    rw [takeWhile_append_congr ends]
  · exact sign_congr ends s'

end Piece

namespace Token

/-- The class and the text of a token. -/
def content (t : Token) : TokenKind × String := (t.kind, t.text)

/-- The contents of the tokens of some characters, the end mark included. -/
def contents (cs : List Char) : List (TokenKind × String) :=
  (scanFrom 0 Position.start cs).map content

/-- What the tokens say does not depend on where the text stands. -/
theorem map_content_scanFrom (skip : Nat) (p q : Position) (cs : List Char) :
    (scanFrom skip p cs).map content = (scanFrom skip q cs).map content := by
  induction cs generalizing skip p q with
  | nil => cases skip <;> rfl
  | cons c rest ih =>
      cases skip with
      | succ skip => exact ih skip _ _
      | zero =>
          simp only [scanFrom, place]
          split
          · rw [List.map_cons, List.map_cons, ih _ (p.after c) (q.after c)]
            rfl
          · exact ih _ _ _

theorem contents_cons (c : Char) (rest : List Char) :
    contents (c :: rest) =
      (Piece.cut c rest).token.toList ++ contents (rest.drop (Piece.cut c rest).more) := by
  simp only [contents, scanFrom_cons, place]
  rw [map_content_scanFrom 0 Position.start
    (Position.start.afterAll (c :: rest.take (Piece.cut c rest).more))]
  cases (Piece.cut c rest).token with
  | none => rfl
  | some denotes => rfl

/-- Pieces of a text end with `before`, and none of them depends on what stands behind the next
character. -/
def Reaches (before : List Char) (d : Char) : Prop :=
  ∃ first, ∀ rest, contents (before ++ d :: rest) = first ++ contents (d :: rest)

/-- One piece more in front. -/
theorem Reaches.piece {c d : Char} {piece before rest : List Char} (h : Reaches before d)
    (whole : (Piece.cut c (piece ++ before ++ d :: rest)).more = piece.length) :
    Reaches (c :: piece ++ before) d := by
  obtain ⟨first, reaches⟩ := h
  refine ⟨(Piece.cut c (piece ++ before ++ d :: rest)).token.toList ++ first, fun rest' => ?_⟩
  have cut : Piece.cut c (piece ++ before ++ d :: rest') = Piece.cut c (piece ++ before ++ d :: rest) := by
    refine Piece.cut_congr ?_ rest'
    rw [whole, List.length_append]
    exact Nat.le_add_right _ _
  have dropped : (piece ++ before ++ d :: rest').drop piece.length = before ++ d :: rest' := by
    rw [List.append_assoc, List.drop_left]
  rw [List.cons_append, List.cons_append, contents_cons, cut, whole, dropped, reaches]
  exact (List.append_assoc _ _ _).symm

/-- A token that has been read is one of the pieces of the text, and begins where it says. -/
theorem reaches_of_mem_scanFrom {t : Token} (other : t.kind ≠ .eof) :
    ∀ {cs : List Char} {p : Position}, t ∈ scanFrom 0 p cs →
      ∃ before d rest, cs = before ++ d :: rest ∧ t.position = p.afterAll before ∧
        (Piece.cut d rest).token = some t.content ∧ Reaches before d
  | [], p, mem => by
      have last : t = Token.eof p := by simpa [scanFrom] using mem
      exact absurd (congrArg Token.kind last) other
  | c :: cs, p, mem => by
      rw [scanFrom_cons, place] at mem
      have later (mem : t ∈ scanFrom 0 (p.afterAll (c :: cs.take (Piece.cut c cs).more))
          (cs.drop (Piece.cut c cs).more)) :
          ∃ before d rest, c :: cs = before ++ d :: rest ∧ t.position = p.afterAll before ∧
            (Piece.cut d rest).token = some t.content ∧ Reaches before d := by
        obtain ⟨before, d, rest, left, placed, denotes, reaches⟩ := reaches_of_mem_scanFrom other mem
        have whole : cs = cs.take (Piece.cut c cs).more ++ before ++ d :: rest := by
          rw [List.append_assoc, ← left, List.take_append_drop]
        -- something is left behind the piece, so it is not cut short by the end of the text
        have length : (Piece.cut c (cs.take (Piece.cut c cs).more ++ before ++ d :: rest)).more =
            (cs.take (Piece.cut c cs).more).length := by
          have more := congrArg List.length left
          simp only [List.length_drop, List.length_append, List.length_cons] at more
          rw [← whole, List.length_take]
          omega
        refine ⟨c :: cs.take (Piece.cut c cs).more ++ before, d, rest, ?_, ?_, denotes, ?_⟩
        · rw [List.cons_append, List.cons_append, ← whole]
        · rw [placed, Position.afterAll, Position.afterAll, Position.afterAll, List.foldl_append]
        · exact reaches.piece length
      split at mem
      · next kind text denotes =>
          rcases List.mem_cons.1 mem with rfl | mem
          · exact ⟨[], c, cs, rfl, rfl, denotes, [], fun rest => rfl⟩
          · exact later mem
      · exact later mem
termination_by cs => cs.length
decreasing_by
  simp only [List.length_cons, List.length_drop]
  omega

/-- Where a token is placed, a piece of the text begins, which denotes the token. -/
theorem reaches_of_mem_scan {t : Token} (other : t.kind ≠ .eof) {before rest : List Char} {d : Char}
    (mem : t ∈ scan (String.ofList (before ++ d :: rest))) (placed : t.position = Position.behind before) :
    (Piece.cut d rest).token = some t.content ∧ Reaches before d := by
  obtain ⟨before', d', rest', whole, begins, denotes, reaches⟩ := reaches_of_mem_scanFrom other mem
  rw [String.toList_ofList] at whole
  have stands : before <+: before ++ d :: rest := List.prefix_append _ _
  have stands' : before' <+: before ++ d :: rest := whole ▸ List.prefix_append _ _
  obtain rfl : before = before' := by
    refine Position.behind_inj stands stands' ?_
    rw [← placed, begins]
    exact Position.afterAll_behind [] before'
  obtain ⟨rfl, rfl⟩ := List.cons.inj (List.append_cancel_left whole)
  exact ⟨denotes, reaches⟩

end Token

section Selectors

open Glyph (presentationSelector)

variable {e : Glyph.Entry} (listed : e ∈ Glyph.table)
include listed

namespace Glyph

theorem mem_spellings_of_mem_table : (e.glyph, e.kind) ∈ spellings :=
  List.mem_append_left _ (List.mem_map.2 ⟨e, listed, rfl⟩)

theorem kind_ne_eof : e.kind ≠ .eof := by
  have all : ∀ e ∈ table, e.kind ≠ .eof := by decide
  exact all e listed

/-- A glyph is in the table once only. -/
theorem eq_of_glyph_eq {e' : Glyph.Entry} (listed' : e' ∈ table) (same : e'.glyph = e.glyph) : e' = e := by
  have all : ∀ e ∈ table, ∀ e' ∈ table, e'.glyph = e.glyph → e' = e := by decide +kernel
  exact all e listed e' listed' same

/-- A glyph is recognized in front of a selector, also if it begins a longer one. -/
theorem longestMatch_before_selector (after : List Char) :
    longestMatch (e.glyph.toList ++ presentationSelector :: after) = some (e.glyph, e.kind) := by
  have all : ∀ e ∈ table, e.glyph.toList ≠ [] ∧
      longestMatch (e.glyph.toList ++ [presentationSelector]) = some (e.glyph, e.kind) := by
    decide +kernel
  obtain ⟨nonempty, matched⟩ := all e listed
  rw [← matched]
  refine longestMatch_congr ?_
  cases letters : e.glyph.toList with
  | nil => exact absurd letters nonempty
  | cons d more => cases more <;> rfl

end Glyph

/-- What stands in front of a place within a glyph is a glyph, too. -/
theorem Glyph.exists_of_append {x y : List Char} (spelled : e.glyph.toList = x ++ y) (begun : x ≠ []) :
    ∃ e' ∈ table, e'.glyph.toList = x := by
  have all : ∀ e ∈ table, e.glyph.toList.length ≤ 2 ∧
      ∃ e' ∈ table, e'.glyph.toList = e.glyph.toList.take 1 := by
    decide +kernel
  obtain ⟨short, e', listed', single⟩ := all e listed
  obtain ⟨d, x, rfl⟩ := List.exists_cons_of_ne_nil begun
  cases y with
  | nil => exact ⟨e, listed, by rw [spelled, List.append_nil]⟩
  | cons c y =>
      -- with two characters at most, only the first one can stand in front
      have one : x = [] := by
        rw [spelled, List.length_append, List.length_cons, List.length_cons] at short
        exact List.length_eq_zero_iff.1 (by omega)
      subst one
      exact ⟨e', listed', by rw [single, spelled]; rfl⟩

namespace Token

/-- Where a glyph is recognized, it is read with one selector behind it. -/
theorem contents_glyph {after : List Char}
    (matched : Glyph.longestMatch (e.glyph.toList ++ after) = some (e.glyph, e.kind)) :
    contents (e.glyph.toList ++ after) = (e.kind, e.glyph) ::
      contents (after.drop (if after.head? = some presentationSelector then 1 else 0)) := by
  have mem := Glyph.mem_spellings_of_mem_table listed
  have reach : e.glyph.length = e.glyph.toList.length := String.length_toList.symm
  cases letters : e.glyph.toList with
  | nil => exact absurd letters (Piece.begins_of_longestMatch matched).nonempty
  | cons d more =>
      rw [letters] at matched reach
      have cut : Piece.cut d (more ++ after) = Piece.sign d (more ++ after) :=
        Piece.cut_of_beginsSign (Piece.beginsSign_of_mem_spellings mem letters)
      rw [List.cons_append] at matched ⊢
      rw [contents_cons, cut]
      simp only [Piece.sign, matched, reach, List.length_cons, Nat.add_sub_cancel, List.drop_left,
        Option.toList_some, List.drop_length_add_append, List.singleton_append]

/-- A glyph that has been cut off has been recognized. -/
theorem longestMatch_of_cut {d : Char} {rest : List Char} (stands : e.glyph.toList <+: d :: rest)
    (denotes : (Piece.cut d rest).token = some (e.kind, e.glyph)) :
    Glyph.longestMatch (d :: rest) = some (e.glyph, e.kind) := by
  have mem := Glyph.mem_spellings_of_mem_table listed
  obtain ⟨found, matched, -⟩ := Glyph.exists_longestMatch mem stands
  rw [Piece.cut_eq_sign mem stands, Piece.sign, matched] at denotes
  simp only [Option.some.injEq, Prod.mk.injEq] at denotes
  rw [matched, ← denotes.1, ← denotes.2]

/-- Where a glyph has been read as a token, it is recognized, and what is read before it stays the same
whatever is put behind its first characters. -/
theorem glyph_of_mem_scan {before x y after : List Char} (spelled : e.glyph.toList = x ++ y)
    (begun : x ≠ [])
    (read : ⟨e.kind, e.glyph, Position.behind before⟩ ∈
      scan (String.ofList (before ++ (x ++ (y ++ after))))) :
    Glyph.longestMatch (e.glyph.toList ++ after) = some (e.glyph, e.kind) ∧
      ∃ front, ∀ rest, (scan (String.ofList (before ++ (x ++ rest)))).map content =
        front ++ contents (x ++ rest) := by
  obtain ⟨d, x, rfl⟩ := List.exists_cons_of_ne_nil begun
  obtain ⟨denotes, front, reaches⟩ := reaches_of_mem_scan (Glyph.kind_ne_eof listed) read rfl
  have present : d :: x ++ (y ++ after) = e.glyph.toList ++ after := by
    rw [spelled, List.append_assoc]
  have stands : e.glyph.toList <+: d :: x ++ (y ++ after) := present ▸ List.prefix_append _ _
  refine ⟨present ▸ longestMatch_of_cut listed stands denotes, front, fun rest => ?_⟩
  rw [scan, String.toList_ofList]
  exact reaches (x ++ rest)

/-- A selector ends the token in front of it, and what stands behind it is read on its own. -/
theorem contents_selector (rest : List Char) :
    contents (e.glyph.toList ++ presentationSelector :: rest) = (e.kind, e.glyph) :: contents rest := by
  rw [contents_glyph listed (Glyph.longestMatch_before_selector listed rest), List.head?_cons, if_pos rfl]
  rfl

end Token

end Selectors

namespace Token

open Glyph (presentationSelector)

/-- Let a glyph of the table have been read as a token, and put a selector behind one of its characters,
where there was none.  The tokens keep their classes and texts exactly if that was the last character of
the glyph.  In any case what stands in front of the selector is a glyph, whose token ends there: the tokens
before it are as they were, and what stands behind the selector is read on its own. -/
theorem scan_selector (before x y after : List Char) {e : Glyph.Entry} (listed : e ∈ Glyph.table)
    (spelled : e.glyph.toList = x ++ y) (begun : x ≠ [])
    (read : ⟨e.kind, e.glyph, Position.behind before⟩ ∈
      scan (String.ofList (before ++ (x ++ (y ++ after)))))
    (bare : (y ++ after).head? ≠ some presentationSelector) :
    ((scan (String.ofList (before ++ (x ++ presentationSelector :: (y ++ after))))).map content =
        (scan (String.ofList (before ++ (x ++ (y ++ after))))).map content ↔
      y = []) ∧
      ∃ front, front <+: (scan (String.ofList (before ++ (x ++ (y ++ after))))).map content ∧
        ∃ e' ∈ Glyph.table, e'.glyph.toList = x ∧
          (scan (String.ofList (before ++ (x ++ presentationSelector :: (y ++ after))))).map content =
            front ++ (e'.kind, e'.glyph) :: (scan (String.ofList (y ++ after))).map content := by
  obtain ⟨e', listed', single⟩ := Glyph.exists_of_append listed spelled begun
  obtain ⟨matched, front, scanned⟩ := glyph_of_mem_scan listed spelled begun read
  have parted : contents (x ++ presentationSelector :: (y ++ after)) =
      (e'.kind, e'.glyph) :: contents (y ++ after) :=
    single ▸ contents_selector listed' (y ++ after)
  constructor
  · have whole : contents (x ++ (y ++ after)) = (e.kind, e.glyph) ::
        contents (after.drop (if after.head? = some presentationSelector then 1 else 0)) := by
      rw [← List.append_assoc, ← spelled, contents_glyph listed matched]
    rw [scanned, scanned, List.append_cancel_left_eq, parted, whole]
    constructor
    · intro same
      injection same with same _
      injection same with _ same
      rw [same, spelled] at single
      simpa using single
    · rintro rfl
      rw [List.append_nil] at spelled
      obtain rfl := Glyph.eq_of_glyph_eq listed listed' (String.toList_injective (single.trans spelled.symm))
      rw [List.nil_append] at bare ⊢
      rw [if_neg bare]
      rfl
  · refine ⟨front, scanned (y ++ after) ▸ List.prefix_append _ _, e', listed', single, ?_⟩
    rw [scanned, parted]
    simp only [contents, scan, String.toList_ofList]

/-- Behind `😁😌`, which begins with a glyph of its own, a selector makes no difference.  Inside of it the
selector ends the token of `😁`. -/
theorem scan_selector_atLeast :
    (⟨.operator, "😁😌", ⟨1, 3⟩⟩ : Token) ∈ scan "a 😁😌3" ∧
      (scan "a 😁😌\ufe0f3").map content = (scan "a 😁😌3").map content ∧
      ∃ front, ∃ e' ∈ Glyph.table, e'.glyph.toList = ['😁'] ∧
        (scan "a 😁\ufe0f😌3").map content =
          front ++ (e'.kind, e'.glyph) :: (scan "😌3").map content := by
  have read : (⟨.operator, "😁😌", ⟨1, 3⟩⟩ : Token) ∈ scan "a 😁😌3" := by decide +kernel
  have listed : ⟨"😁😌", ">=", .operator⟩ ∈ Glyph.table := by decide
  have behind := scan_selector ['a', ' '] ['😁', '😌'] [] ['3'] listed rfl (by decide) read (by decide)
  obtain ⟨-, front, -, parted⟩ :=
    scan_selector ['a', ' '] ['😁'] ['😌'] ['3'] listed rfl (by decide) read (by decide)
  exact ⟨read, behind.1.2 rfl, front, parted⟩

/-- Inside `😁😌` a selector makes two tokens of one. -/
theorem selector_inside_atLeast :
    ¬ ∀ (e : Glyph.Entry) (before x y after : List Char), e ∈ Glyph.table → e.glyph.toList = x ++ y → x ≠ [] →
      ⟨e.kind, e.glyph, Position.behind before⟩ ∈ scan (String.ofList (before ++ (x ++ (y ++ after)))) →
      (y ++ after).head? ≠ some presentationSelector →
      (scan (String.ofList (before ++ (x ++ presentationSelector :: (y ++ after))))).map content =
        (scan (String.ofList (before ++ (x ++ (y ++ after))))).map content := by
  intro insignificant
  have same := insignificant ⟨"😁😌", ">=", .operator⟩ [] ['😁'] ['😌'] [] (by decide) rfl (by decide)
    (by decide +kernel) (by decide)
  have one : (scan "😁😌").map content = [(.operator, "😁😌"), (.eof, "")] := by decide +kernel
  have two : (scan "😁\ufe0f😌").map content = [(.operator, "😁"), (.operator, "😌"), (.eof, "")] := by
    decide +kernel
  have clash := two.symm.trans (same.trans one)
  simp at clash

end Token

end EmojiLang
