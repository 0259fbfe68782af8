import EmojiLang.Eval
import EmojiLang.Proofs.Number.Numeral
import EmojiLang.Proofs.Token.Spelling
import EmojiLang.Token.Lexer

/-!
# Values and their texts

Equality of the language compares texts, so it is as good as the texts are faithful.  The text of an integer
is a number wherever it stands in a program and is read as this integer again, and a value that is no floating
point number is as true as its text.

**Results.**
* `Piece.cut_numeral`: what begins like a numeral is cut off as one.
* `head?_scanFrom_toString`: the decimal digits of an integer are the first token of a text that goes on otherwise.
* `Value.toBool_eq_text` and `Value.toInt64_eq_text`: a value and its text are coerced alike.
* `text_faithful`: integers survive being written, and equal values are coerced alike.
-/

namespace EmojiLang

namespace Piece

variable {c : Char} {rest : List Char}

/-- What begins like a numeral is cut off as one. -/
theorem cut_numeral (counts : beginsNumeral c rest = true) : cut c rest = numeral c rest := by
  have kinds : c.isDigit = true ∨ c = '-' := by
    rw [beginsNumeral, Bool.or_eq_true, Bool.and_eq_true, beq_iff_eq] at counts
    exact counts.imp_right And.left
  have unblank : ¬ Text.isSpace c = true := by
    rcases kinds with digit | rfl
    · rw [Numeral.isSpace_eq_false_of_isDigit digit]
      exact Bool.false_ne_true
    · decide
  have apart {d : Char} (other : ¬ (d.isDigit = true ∨ d = '-')) : c ≠ d := fun same => other (same ▸ kinds)
  have uncommented : c ≠ Glyph.comment := apart (by decide)
  have unquoted : c ≠ '"' := apart (by decide)
  rw [cut, if_neg unblank, if_neg uncommented, if_neg unquoted, if_pos counts]

end Piece

section Scanning

variable {rest : List Char} (ends : ∀ c ∈ rest.head?, Piece.isNumeral c = false) (p : Position)
include ends

/-- A numeral is the first token of a text that does not go on like one. -/
theorem head?_scanFrom_numeral {c : Char} {body : List Char}
    (counts : Piece.beginsNumeral c (body ++ rest) = true) (inside : ∀ d ∈ body, Piece.isNumeral d = true) :
    (Token.scanFrom 0 p (c :: (body ++ rest))).head? = some ⟨.number, String.ofList (c :: body), p⟩ := by
  have stops : rest.takeWhile Piece.isNumeral = [] := by
    cases rest with
    | nil => rfl
    | cons d rest =>
        refine List.takeWhile_cons_of_neg ?_
        rw [ends d rfl]
        exact Bool.false_ne_true
  simp only [Token.scanFrom, Piece.cut_numeral counts, Token.place, Piece.numeral, List.head?_cons,
    List.takeWhile_append_of_pos inside, stops, List.append_nil]

/-- The digits of an integer, behind its sign if it is negative, are the first token of a text that does not go
on like a numeral. -/
theorem head?_scanFrom_toString (n : Int) :
    (Token.scanFrom 0 p ((toString n).toList ++ rest)).head? = some ⟨.number, toString n, p⟩ := by
  have whole := Numeral.whole_toString n
  have numerals : ∀ c ∈ Nat.toDigits 10 n.natAbs, Piece.isNumeral c = true := by
    intro c mem
    rw [Piece.isNumeral, whole.digits c mem, Bool.true_or]
  obtain ⟨d, ds, first⟩ := List.exists_cons_of_ne_nil whole.some
  have digit : d.isDigit = true := whole.digits d (first ▸ List.mem_cons_self)
  have parts : (toString n).toList = (if n < 0 then some '-' else none).toList ++ Nat.toDigits 10 n.natAbs :=
    whole.parts.trans (by rw [List.append_nil])
  by_cases negative : n < 0
  · have minus : (toString n).toList = '-' :: Nat.toDigits 10 n.natAbs := by
      rw [parts, if_pos negative]
      rfl
    have counts : Piece.beginsNumeral '-' (Nat.toDigits 10 n.natAbs ++ rest) = true := by
      simp [Piece.beginsNumeral, first, digit]
    rw [minus, List.cons_append, head?_scanFrom_numeral ends p counts numerals, ← minus,
      String.ofList_toList]
  · have plain : (toString n).toList = d :: ds := by
      rw [parts, if_neg negative, first]
      rfl
    have counts : Piece.beginsNumeral d (ds ++ rest) = true := by
      simp [Piece.beginsNumeral, digit]
    have inside : ∀ c ∈ ds, Piece.isNumeral c = true := fun c mem =>
      numerals c (first ▸ List.mem_cons_of_mem d mem)
    rw [plain, List.cons_append, head?_scanFrom_numeral ends p counts inside, ← plain,
      String.ofList_toList]

end Scanning

/-- The text of an integer has no point. -/
theorem point_not_mem_toString (n : Int) : '.' ∉ (toString n).toList := by
  have whole := Numeral.whole_toString n
  rw [whole.parts, List.append_nil, List.mem_append, not_or]
  refine ⟨fun mem => ?_, fun mem => ?_⟩
  · rcases whole.signs '.' (Option.mem_toList.1 mem) with same | same <;> cases same
  · cases whole.digits '.' mem

/-- Where equality holds, the texts are equal. -/
theorem Eval.text_eq_of_equal {sign : Token} {a b : Value} {m after : Machine}
    (spelled : sign.spells "==" = true) (holds : applyBinary sign a b m = .done (.bool true) after) :
    a.text = b.text := by
  have plain : Glyph.plain sign.text = "==" := (Token.spells_iff.1 spelled).2
  have named : BinaryOp.ofText sign.text = some .equal := by
    rw [BinaryOp.ofText, plain]
    rfl
  simp only [applyBinary, named, BinaryOp.apply, Exec.pure_apply] at holds
  injection holds with truth _
  injection truth with same
  exact eq_of_beq same

namespace Value

/-- A value that is no floating point number is as true as its text. -/
theorem toBool_eq_text {a : Value} (notFloat : a.typeName ≠ "float") : a.toBool = (string a.text).toBool := by
  cases a with
  | unit => rfl
  | int n =>
      have read := Numeral.int64?_toString n
      have nonempty : toString n.toInt ≠ "" := by
        intro same
        rw [same] at read
        cases read
      have other : toString n.toInt ≠ "false" := by
        intro same
        rw [same] at read
        cases read
      have zero : toString n.toInt = "0" ↔ n = 0 := by
        constructor
        · intro same
          rw [same] at read
          exact (Option.some.inj read).symm
        · rintro rfl
          rfl
      simp only [toBool, text]
      generalize toString n.toInt = s at nonempty other zero
      rw [Bool.eq_iff_iff]
      simp [nonempty, other, zero]
  | float x => exact absurd rfl notFloat
  | bool b => cases b <;> rfl
  | string s => rfl

/-- A value that is nothing, an integer or a text is the same integer as its text. -/
theorem toInt64_eq_text {a : Value} (whole : a.typeName ∈ ["unit", "int", "string"]) :
    a.toInt64 = (string a.text).toInt64 := by
  cases a with
  | unit => rfl
  | int n =>
      simp only [toInt64, text, Numeral.int64?_toString, Option.getD_some]
  | float x => simp [typeName] at whole
  | bool b => simp [typeName] at whole
  | string s => rfl

end Value

/-- The text of an integer, in front of anything that does not go on like a numeral, is the first token and is
read as this integer, as a literal and as a text.  And if two values are equal by their texts, then they are
equally true, unless there is a floating point number among them, and they are the same integer, unless there is
a truth value among them as well. -/
theorem text_faithful :
    (∀ (n : Int64) (rest : String), (∀ c ∈ rest.toList.head?, c.isDigit = false ∧ c ≠ '.') →
      (Token.scan ((Value.int n).text ++ rest)).head? =
          some ⟨.number, (Value.int n).text, Position.start⟩ ∧
        Value.ofNumeral (Value.int n).text = .int n ∧ (Value.string (Value.int n).text).toInt64 = n) ∧
      ∀ (sign : Token) (a b : Value) (m after : Machine), sign.spells "==" = true →
        Eval.applyBinary sign a b m = .done (.bool true) after →
          (a.typeName ≠ "float" → b.typeName ≠ "float" → a.toBool = b.toBool) ∧
            (a.typeName ∈ ["unit", "int", "string"] → b.typeName ∈ ["unit", "int", "string"] →
              a.toInt64 = b.toInt64) := by
  constructor
  · intro n rest ends
    have other : ∀ c ∈ rest.toList.head?, Piece.isNumeral c = false := by
      intro c mem
      simp [Piece.isNumeral, ends c mem]
    refine ⟨?_, ?_, (Value.toInt64_eq_text (by simp [Value.typeName])).symm⟩
    · rw [Token.scan, String.toList_append]
      exact head?_scanFrom_toString other Position.start n.toInt
    · exact Value.ofNumeral_int64? (point_not_mem_toString n.toInt) (Numeral.int64?_toString n)
  · intro sign a b m after spelled holds
    have same : a.text = b.text := Eval.text_eq_of_equal spelled holds
    refine ⟨fun exact exact' => ?_, fun whole whole' => ?_⟩
    · rw [Value.toBool_eq_text exact, Value.toBool_eq_text exact', same]
    · rw [Value.toInt64_eq_text whole, Value.toInt64_eq_text whole', same]

/-- The least integer, whose size no integer of 64 bits has, in front of a word; and nothing, which is equal to the
text of zero. -/
theorem text_faithful_least :
    (Value.int Int64.minValue).text = "-9223372036854775808" ∧
      (Token.scan ("-9223372036854775808" ++ "mod")).head? =
        some ⟨.number, "-9223372036854775808", Position.start⟩ ∧
      Value.ofNumeral "-9223372036854775808" = .int Int64.minValue ∧
      (Value.string "-9223372036854775808").toInt64 = Int64.minValue ∧
      Eval.applyBinary ⟨.operator, "😌😌", ⟨1, 3⟩⟩ .unit (.string "0") {} = .done (.bool true) {} ∧
      Value.unit.toBool = (Value.string "0").toBool ∧ Value.unit.toInt64 = (Value.string "0").toInt64 := by
  have digits : (Value.int Int64.minValue).text = "-9223372036854775808" := by
    rfl
  have word : ∀ c ∈ "mod".toList.head?, c.isDigit = false ∧ c ≠ '.' := by
    rintro c ⟨⟩
    decide
  obtain ⟨integers, equals⟩ := text_faithful
  obtain ⟨first, literal, read⟩ := integers Int64.minValue "mod" word
  rw [digits] at first literal read
  have holds : Eval.applyBinary ⟨.operator, "😌😌", ⟨1, 3⟩⟩ .unit (.string "0") {} = .done (.bool true) {} := by
    rfl
  obtain ⟨truth, number⟩ := equals _ _ _ _ _ (by decide) holds
  exact ⟨digits, first, literal, read, holds, truth (by decide) (by decide), number (by decide) (by decide)⟩

end EmojiLang
