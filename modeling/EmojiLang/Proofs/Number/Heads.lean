import EmojiLang.Proofs.Number.Bytes
import EmojiLang.Value

/-!
# Numerals at the heads of texts

A text counts as a number by the numeral that it begins with, behind blanks.  Here this numeral is
characterized as the longest part in its language, and the integer that is read off a text as the value of
the digits there.

**Definitions.**
* `Numeral.written decimal text`: the numeral that a text begins with, as it is written.
* `Numeral.value p`: the integer that digits denote, with a sign or without one.
* `Numeral.Holds text v`: the longest whole numeral there has the value `v`, an integer of 64 bits.

**Results.**
* `Numeral.toInt_eq_value`: the parts of a numeral that was read have the value of its text.
* `Numeral.int64?_iff`: the integer that is read off a text is the one that the text holds.
* `Numeral.written_longest`: the numeral is the longest one, among the characters and among the bytes, and the
  integer is its value.
-/

namespace EmojiLang
namespace Numeral

/-- A text without the blanks that it begins with. -/
def behindBlanks (text : String) : String := String.ofList (text.toList.dropWhile Text.isSpace)

/-- The numeral that a text begins with, behind blanks, as it is written. -/
def written (decimal : Bool) (text : String) : Option (List Char) :=
  (if decimal then ofDecimal (behindBlanks text).toList else ofWhole (behindBlanks text).toList).map Numeral.text

/-- The integer that digits denote, with a sign or without one. -/
def value : List Char → Int
  | '-' :: digits => -(Nat.ofDigitChars 10 digits 0 : Int)
  | '+' :: digits => Nat.ofDigitChars 10 digits 0
  | digits => Nat.ofDigitChars 10 digits 0

/-- The longest whole numeral that the text begins with has the value `v`, which is an integer of 64 bits. -/
def Holds (text : String) (v : Int) : Prop :=
  (∃ p, Longest Form.whole (behindBlanks text).toList p ∧ value p = v) ∧ -2 ^ 63 ≤ v ∧ v ≤ 2 ^ 63 - 1

section Written

variable (decimal : Bool) (text : String)

theorem written_whole : written false text = (ofWhole (behindBlanks text).toList).map Numeral.text := by
  rw [written, if_neg Bool.false_ne_true]

theorem written_decimal : written true text = (ofDecimal (behindBlanks text).toList).map Numeral.text := by
  rw [written, if_pos rfl]

theorem finds_written : Finds (Form.of decimal) (behindBlanks text).toList (written decimal text) := by
  cases decimal with
  | false =>
      rw [written_whole, Form.of_false]
      exact finds_ofWhole _
  | true =>
      rw [written_decimal, Form.of_true]
      exact finds_ofDecimal _

/-- The bytes are cut where the numeral ends. -/
theorem cut_encode : cut (Text.encode (behindBlanks text)) decimal = (written decimal text).map List.length := by
  cases decimal with
  | false =>
      rw [written_whole, Option.map_map]
      exact cut_whole (stands_encode _)
  | true =>
      rw [written_decimal, Option.map_map]
      exact cut_decimal (stands_encode _)

/-- What is cut off are the bytes of the numeral. -/
theorem take_cut_encode :
    ((cut (Text.encode (behindBlanks text)) decimal).map fun stop => (Text.encode (behindBlanks text)).take stop) =
      (written decimal text).map fun p => Text.encode (String.ofList p) := by
  have found := finds_written decimal text
  rw [cut_encode, Option.map_map]
  cases read : written decimal text with
  | none => rfl
  | some p =>
      rw [read] at found
      obtain ⟨rest, parts⟩ := found.begins
      have length := length_flatMap_encodeChar (Form.ascii_of decimal p found.mem)
      rw [Option.map_some, Option.map_some, Function.comp_apply, Text.encode, Text.encode, ← parts,
        String.toList_ofList, List.flatMap_append, List.take_left' length]

end Written

section Values

variable {cs digits : List Char} {s : Option Char} {text : String} {v : Int}

/-- The value of a sign with digits. -/
theorem value_append (signed : ∀ c ∈ s, c = '+' ∨ c = '-') (nonempty : digits ≠ [])
    (all : ∀ c ∈ digits, c.isDigit = true) :
    value (s.toList ++ digits) = withSign s (digitsValue digits) := by
  cases s with
  | some c => rcases signed c rfl with rfl | rfl <;> rfl
  | none =>
      obtain ⟨d, ds, rfl⟩ := List.exists_cons_of_ne_nil nonempty
      have unsigned := isDigit_unsigned (all d List.mem_cons_self)
      rw [not_or] at unsigned
      simp only [Option.toList_none, List.nil_append]
      unfold value
      split
      · next same => exact absurd (List.cons.inj same).1 unsigned.2
      · next same => exact absurd (List.cons.inj same).1 unsigned.1
      · rfl

/-- The parts of a numeral that was read have the value of its text. -/
theorem toInt_eq_value {n : Numeral} (h : ofWhole cs = some n) : n.toInt = value n.text := by
  rcases signs : takeSign cs with ⟨s, after⟩
  rcases read : takeDigits after with ⟨ds, rest⟩
  simp only [ofWhole, signs, read] at h
  split at h
  · cases h
  · next nonempty =>
      obtain rfl := Option.some.inj h
      rw [text_whole, value_append (takeSign_spec signs).1 (by simpa using nonempty) (takeDigits_spec read).1, toInt,
        mantissa, Option.getD_none, List.append_nil]

/-- The longest whole numeral is the one that is read, so its value is the integer. -/
theorem longest_value_iff {n : Numeral} (read : ofWhole cs = some n) :
    (∃ p, Longest Form.whole cs p ∧ value p = v) ↔ n.toInt = v := by
  have found : Longest Form.whole cs n.text := by
    have found := finds_ofWhole cs
    rwa [read] at found
  rw [toInt_eq_value read]
  constructor
  · rintro ⟨p, longest, rfl⟩
    rw [Longest.unique longest found]
  · exact fun same => ⟨n.text, found, same⟩

/-- The integer that is read off a text is the one that the text holds. -/
theorem int64?_iff : (int64? text).map Int64.toInt = some v ↔ Holds text v := by
  rw [Holds, behindBlanks, String.toList_ofList, int64?]
  cases read : ofWhole (text.toList.dropWhile Text.isSpace) with
  | none =>
      have found := finds_ofWhole (text.toList.dropWhile Text.isSpace)
      rw [read] at found
      refine iff_of_false (Option.some_ne_none v).symm ?_
      rintro ⟨⟨p, longest, _⟩, _⟩
      exact found p longest.mem longest.begins
  | some n =>
      rw [longest_value_iff read]
      dsimp only
      split
      · next fits =>
          obtain ⟨low, high⟩ := fitsInt64_iff.1 fits
          rw [Option.map_some, Option.some.injEq, Int64.toInt_ofInt_of_le low high]
          constructor
          · rintro rfl
            exact ⟨rfl, low, Int.le_sub_one_of_lt high⟩
          · exact And.left
      · next beyond =>
          refine iff_of_false (Option.some_ne_none v).symm ?_
          rintro ⟨rfl, low, high⟩
          exact beyond (fitsInt64_iff.2 ⟨low, Int.lt_of_le_sub_one high⟩)

theorem toInt64_string_iff :
    (Value.string text).toInt64.toInt = v ↔ Holds text v ∨ (∀ w, ¬ Holds text w) ∧ v = 0 := by
  simp only [← int64?_iff, Value.toInt64]
  cases int64? text with
  | none => simp [eq_comm]
  | some n => simp

end Values

/-- What a text counts as is written at its head, behind blanks.  It is the longest part there that has the
form of a numeral, and nothing exactly if no part has it; cut out of the bytes of the text, it is the same, and
it ends where a character ends.  And the integer of a text is the value of its whole numeral if that is an
integer of 64 bits; there is none otherwise, and the text counts as zero. -/
theorem written_longest (text : String) :
    (∀ decimal,
      (∀ p, written decimal text = some p ↔ Longest (Form.of decimal) (behindBlanks text).toList p) ∧
      (written decimal text = none ↔ ∀ p ∈ Form.of decimal, ¬ p <+: (behindBlanks text).toList) ∧
      ((cut (Text.encode (behindBlanks text)) decimal).map fun stop =>
          (Text.encode (behindBlanks text)).take stop) =
        (written decimal text).map (fun p => Text.encode (String.ofList p)) ∧
      ∀ stop ∈ cut (Text.encode (behindBlanks text)) decimal,
        (String.Pos.Raw.mk stop).IsValid (behindBlanks text)) ∧
    (∀ v : Int, (int64? text).map Int64.toInt = some v ↔ Holds text v) ∧
    ∀ v : Int, (Value.string text).toInt64.toInt = v ↔ Holds text v ∨ (∀ w, ¬ Holds text w) ∧ v = 0 := by
  refine ⟨fun decimal => ?_, fun v => int64?_iff, fun v => toInt64_string_iff⟩
  have found := finds_written decimal text
  refine ⟨fun p => found.eq_some_iff, found.eq_none_iff, take_cut_encode decimal text, ?_⟩
  intro stop ends
  rw [cut_encode, Option.mem_def, Option.map_eq_some_iff] at ends
  obtain ⟨p, read, rfl⟩ := ends
  have longest := found.eq_some_iff.1 read
  rw [← String.ofList_toList (s := behindBlanks text)]
  exact isValid_length longest.mem longest.begins

/-- The least integer behind a blank, with a point that belongs to a decimal numeral, and with a mark, a sign
and a letter outside ASCII that make no exponent. -/
def leastWeight : String := "\x0b-9223372036854775808.e+é"

/-- The decimal numeral ends behind its point, 21 bytes from the blank, and the integer in front of the point is
in range. -/
theorem written_longest_leastWeight :
    Longest Form.decimal (behindBlanks leastWeight).toList "-9223372036854775808.".toList ∧
      (String.Pos.Raw.mk 21).IsValid (behindBlanks leastWeight) ∧
      Longest Form.whole (behindBlanks leastWeight).toList "-9223372036854775808".toList ∧
      Holds leastWeight (-2 ^ 63) ∧ (Value.string leastWeight).toInt64 = Int64.minValue := by
  obtain ⟨heads, integers, counts⟩ := written_longest leastWeight
  obtain ⟨decimal, _, _, boundary⟩ := heads true
  have holds : Holds leastWeight (-2 ^ 63) := (integers _).1 (by decide +kernel)
  refine ⟨(decimal _).1 (by decide +kernel), boundary 21 (by decide +kernel),
    ((heads false).1 _).1 (by decide +kernel), holds, ?_⟩
  exact Int64.toInt_inj.1 ((counts _).2 (Or.inl holds))

end Numeral
end EmojiLang
