import Mathlib.Data.List.DropRight
import EmojiLang.Text.Blank
import EmojiLang.Text.Utf8

/-!
# Texts in files

A text is stored as the bytes of its characters, and read back by cutting the bytes into characters.
A text that is to be compared is stored with a line feed behind it and read back without the white space
at its ends.

**Method.** A character is a first byte and the bytes that follow it.  `utf8Units_of_following` says when
such a group is read as one character, whatever is stored behind it; the four sizes of a character are
its instances.

**Results.** `decode?_encode` says that a stored text is read back as it was.  `trim_trim` says that a
text without white space at its ends is left alone, and `trim_append_lineFeed` that a line feed behind
it makes no difference.
-/

namespace EmojiLang
namespace Text

section Characters

theorem utf8UnitsFrom_skip (bytes rest : List UInt8) :
    utf8UnitsFrom bytes.length (bytes ++ rest) = utf8Units rest := by
  induction bytes with
  | nil => rfl
  | cons b bytes ih => exact ih

/-- A byte behind the first one carries six bits, and belongs to the character if it lies within its
bounds. -/
theorem following_trailing {low high n : Nat}
    (fit : low ≤ n % 64 + 0x80 ∧ n % 64 + 0x80 ≤ high) (count bits : Nat) (rest : List UInt8) :
    following (count + 1) low high bits (UInt8.ofNat (n % 64 + 0x80) :: rest) =
      ((following count 0x80 0xbf (bits * 64 + n % 64) rest).1 + 1,
        (following count 0x80 0xbf (bits * 64 + n % 64) rest).2) := by
  have byte : (UInt8.ofNat (n % 64 + 0x80)).toNat = n % 64 + 0x80 :=
    UInt8.toNat_ofNat_of_lt' (by simp only [UInt8.size]; omega)
  simp only [following, byte, fit, and_self, if_true, Nat.add_sub_cancel]

/-- A first byte with all the bytes that it announces is one character. -/
theorem utf8Units_of_following {b : UInt8} {lead : LeadByte} {point : Nat}
    (bytes rest : List UInt8) (large : 0x80 ≤ b.toNat) (shape : leadByte b.toNat = some lead)
    (reads : following lead.following lead.low lead.high lead.bits (bytes ++ rest) =
      (bytes.length, some point)) :
    utf8Units (b :: (bytes ++ rest)) = some (Char.ofNat point) :: utf8Units rest := by
  simp only [utf8Units, utf8UnitsFrom, Nat.not_lt.2 large, if_false, shape, reads, Option.map_some]
  rw [utf8UnitsFrom_skip]
  rfl

/-- The first of two bytes. -/
theorem leadByte_of_two {v : Nat} (low : 0x80 ≤ v) (high : v ≤ 0x7ff) :
    leadByte (v / 64 + 0xc0) = some ⟨1, 0x80, 0xbf, v / 64⟩ := by
  have bounds : 2 ≤ v / 64 ∧ v / 64 < 32 := by omega
  rw [leadByte, if_neg (by omega), if_pos (by omega), Nat.add_sub_cancel]

/-- The first of three bytes bounds the second one so that no shorter form and no surrogate is read. -/
theorem leadByte_of_three {v : Nat} (low : 0x800 ≤ v) (high : v ≤ 0xffff)
    (valid : v < 0xd800 ∨ 0xdfff < v) :
    ∃ least most, leadByte (v / 4096 + 0xe0) = some ⟨2, least, most, v / 4096⟩ ∧
      least ≤ v / 64 % 64 + 0x80 ∧ v / 64 % 64 + 0x80 ≤ most := by
  have small : v / 4096 < 16 := by omega
  by_cases first : v / 4096 = 0
  · refine ⟨0xa0, 0xbf, by rw [first]; rfl, ?_⟩
    omega
  · by_cases surrogates : v / 4096 = 13
    · refine ⟨0x80, 0x9f, by rw [surrogates]; rfl, ?_⟩
      omega
    · refine ⟨0x80, 0xbf, ?_, by omega⟩
      rw [leadByte, if_neg (by omega), if_neg (by omega), if_neg (by omega), if_neg (by omega),
        if_pos (by omega), Nat.add_sub_cancel]

/-- The first of four bytes bounds the second one so that no shorter form is read and nothing beyond
the last code point. -/
theorem leadByte_of_four {v : Nat} (low : 0x10000 ≤ v) (high : v < 0x110000) :
    ∃ least most, leadByte (v / 262144 + 0xf0) = some ⟨3, least, most, v / 262144⟩ ∧
      least ≤ v / 4096 % 64 + 0x80 ∧ v / 4096 % 64 + 0x80 ≤ most := by
  have small : v / 262144 < 5 := by omega
  by_cases first : v / 262144 = 0
  · refine ⟨0x90, 0xbf, by rw [first]; rfl, ?_⟩
    omega
  · by_cases last : v / 262144 = 4
    · refine ⟨0x80, 0x8f, by rw [last]; rfl, ?_⟩
      omega
    · refine ⟨0x80, 0xbf, ?_, by omega⟩
      rw [leadByte, if_neg (by omega), if_neg (by omega), if_neg (by omega), if_neg (by omega),
        if_neg (by omega), if_neg (by omega), if_pos (by omega), Nat.add_sub_cancel]

theorem utf8Units_of_two {v : Nat} (low : 0x80 ≤ v) (high : v ≤ 0x7ff) (rest : List UInt8) :
    utf8Units (UInt8.ofNat (v / 64 % 0x20 + 0xc0) :: UInt8.ofNat (v % 64 + 0x80) :: rest) =
      some (Char.ofNat v) :: utf8Units rest := by
  have first : (UInt8.ofNat (v / 64 % 0x20 + 0xc0)).toNat = v / 64 + 0xc0 := by
    rw [UInt8.toNat_ofNat_of_lt' (by simp only [UInt8.size]; omega)]
    omega
  refine utf8Units_of_following [_] rest (by omega)
    (by rw [first, leadByte_of_two low high]) ?_
  rw [List.singleton_append, following_trailing (by constructor <;> dsimp only <;> omega), following]
  simp only [List.length_singleton, Prod.mk.injEq, true_and, Option.some.injEq]
  omega

theorem utf8Units_of_three {v : Nat} (low : 0x800 ≤ v) (high : v ≤ 0xffff)
    (valid : v < 0xd800 ∨ 0xdfff < v) (rest : List UInt8) :
    utf8Units (UInt8.ofNat (v / 4096 % 0x10 + 0xe0) :: UInt8.ofNat (v / 64 % 64 + 0x80) ::
        UInt8.ofNat (v % 64 + 0x80) :: rest) =
      some (Char.ofNat v) :: utf8Units rest := by
  have first : (UInt8.ofNat (v / 4096 % 0x10 + 0xe0)).toNat = v / 4096 + 0xe0 := by
    rw [UInt8.toNat_ofNat_of_lt' (by simp only [UInt8.size]; omega)]
    omega
  obtain ⟨least, most, shape, fit⟩ := leadByte_of_three low high valid
  refine utf8Units_of_following [_, _] rest (by omega) (by rw [first, shape]) ?_
  rw [List.cons_append, following_trailing fit, List.singleton_append,
    following_trailing (by omega), following]
  simp only [List.length_cons, List.length_nil, Prod.mk.injEq, true_and, Option.some.injEq]
  omega

theorem utf8Units_of_four {v : Nat} (low : 0x10000 ≤ v) (high : v < 0x110000) (rest : List UInt8) :
    utf8Units (UInt8.ofNat (v / 262144 % 8 + 0xf0) :: UInt8.ofNat (v / 4096 % 64 + 0x80) ::
        UInt8.ofNat (v / 64 % 64 + 0x80) :: UInt8.ofNat (v % 64 + 0x80) :: rest) =
      some (Char.ofNat v) :: utf8Units rest := by
  have first : (UInt8.ofNat (v / 262144 % 8 + 0xf0)).toNat = v / 262144 + 0xf0 := by
    rw [UInt8.toNat_ofNat_of_lt' (by simp only [UInt8.size]; omega)]
    omega
  obtain ⟨least, most, shape, fit⟩ := leadByte_of_four low high
  refine utf8Units_of_following [_, _, _] rest (by omega) (by rw [first, shape]) ?_
  rw [List.cons_append, following_trailing fit, List.cons_append, following_trailing (by omega),
    List.singleton_append, following_trailing (by omega), following]
  simp only [List.length_cons, List.length_nil, Prod.mk.injEq, true_and, Option.some.injEq]
  omega

/-- The bytes of a character are read as that character. -/
theorem utf8Units_encodeChar (c : Char) (rest : List UInt8) :
    utf8Units (String.utf8EncodeChar c ++ rest) = some c :: utf8Units rest := by
  have valid : c.toNat < 0xd800 ∨ 0xdfff < c.toNat ∧ c.toNat < 0x110000 := c.valid
  have back : c = Char.ofNat c.toNat := (Char.ofNat_toNat c).symm
  rw [String.utf8EncodeChar, show c.val.toNat = c.toNat from rfl]
  split
  · next one =>
      have small : (UInt8.ofNat c.toNat).toNat = c.toNat :=
        UInt8.toNat_ofNat_of_lt' (by simp only [UInt8.size]; omega)
      rw [List.singleton_append, utf8Units_ascii _ _ (by omega), small, ← back]
  · next one =>
      split
      · next two =>
          exact (utf8Units_of_two (by omega) two rest).trans (by rw [← back])
      · next two =>
          split
          · next three =>
              exact (utf8Units_of_three (by omega) three (by omega) rest).trans (by rw [← back])
          · next three =>
              exact (utf8Units_of_four (by omega) (by omega) rest).trans (by rw [← back])

theorem utf8Units_encode (characters : List Char) :
    utf8Units (characters.flatMap String.utf8EncodeChar) = characters.map some := by
  induction characters with
  | nil => rfl
  | cons c characters ih =>
      rw [List.flatMap_cons, utf8Units_encodeChar, ih, List.map_cons]

/-- A stored text is read back as it was. -/
theorem decode?_encode (text : String) : decode? (encode text) = some text := by
  simp only [decode?, encode, utf8Units_encode, List.all_map, Function.comp_def, Option.isSome_some,
    List.all_eq_true, implies_true, if_true, List.filterMap_map, id, List.filterMap_some,
    String.ofList_toList]

end Characters

section Ends

variable {p : Char → Bool}

/-- What is cut off at the end leaves the front as it is. -/
theorem dropWhile_rdropWhile {l : List Char} (front : l.dropWhile p = l) :
    (l.rdropWhile p).dropWhile p = l.rdropWhile p := by
  obtain ⟨cut, parted⟩ := List.rdropWhile_prefix p (l := l)
  cases kept : l.rdropWhile p with
  | nil => rfl
  | cons c rest =>
      rw [← parted, kept, List.cons_append, List.dropWhile_cons] at front
      rw [List.dropWhile_cons]
      split at front
      · next blank =>
          have shorter := congrArg List.length front
          have := (List.dropWhile_suffix p (l := rest ++ cut)).length_le
          simp only [List.length_cons] at shorter
          omega
      · next visible => rw [if_neg visible]

/-- A list that loses nothing at either end begins with nothing that would be cut off. -/
theorem dropWhile_eq_self_of_both {l : List Char} (both : (l.dropWhile p).rdropWhile p = l) :
    l.dropWhile p = l := by
  have back := (List.rdropWhile_prefix p (l := l.dropWhile p)).length_le
  rw [both] at back
  exact (List.dropWhile_suffix p).eq_of_length_le back

theorem trim_eq (text : String) :
    trim text = String.ofList ((text.toList.dropWhile isWhiteSpace).rdropWhile isWhiteSpace) := rfl

/-- No white space is left at the ends. -/
theorem trim_trim (text : String) : trim (trim text) = trim text := by
  rw [trim_eq (trim text), trim_eq text, String.toList_ofList,
    dropWhile_rdropWhile (List.dropWhile_idempotent ..), List.rdropWhile_idempotent]

/-- A line feed behind a text without white space at its ends is trimmed off. -/
theorem trim_append_lineFeed {text : String} (trimmed : trim text = text) :
    trim (text ++ "\n") = text := by
  have both : (text.toList.dropWhile isWhiteSpace).rdropWhile isWhiteSpace = text.toList := by
    rw [← String.toList_ofList (l := List.rdropWhile _ _), ← trim_eq, trimmed]
  have front := dropWhile_eq_self_of_both both
  have blank : isWhiteSpace '\n' = true := by decide
  rw [trim_eq, String.toList_append, show "\n".toList = ['\n'] from rfl, List.dropWhile_append, front]
  split
  · next empty =>
      rw [List.isEmpty_iff] at empty
      rw [← String.ofList_toList (s := text), empty]
      rfl
  · rw [List.rdropWhile_concat_pos _ _ _ blank, ← front, both, String.ofList_toList]

end Ends

end Text
end EmojiLang
