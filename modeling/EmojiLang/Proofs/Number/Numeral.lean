import EmojiLang.Number.Numeral
import Mathlib.Algebra.Group.Int.Defs

/-!
# The integers that texts denote

A text denotes an integer if, behind blanks, it begins with the decimal digits of it, with a sign or without.
What the digits say is left to the library, and nothing is said about how a text is read.

**Definitions.**
* `Numeral.Whole`: a row of characters, cut into a sign, digits and the rest.
* `Numeral.Denotes`: the integer that a text denotes.

**Results.**
* `Numeral.int64?_of_denotes`: an integer in range that a text denotes is what is read off the text.
* `Numeral.denotes_toString`: the text of an integer denotes it.
-/

namespace EmojiLang
namespace Numeral

/-- The characters are a sign or none, digits, and a rest that does not go on with a digit. -/
structure Whole (cs : List Char) (sign : Option Char) (digits rest : List Char) : Prop where
  parts : cs = sign.toList ++ (digits ++ rest)
  signs : ∀ c ∈ sign, c = '+' ∨ c = '-'
  some : digits ≠ []
  digits : ∀ c ∈ digits, c.isDigit = true
  ends : ∀ c ∈ rest.head?, c.isDigit = false

/-- Behind its blanks the text begins with the decimal digits of `n`. -/
def Denotes (text : String) (n : Int) : Prop :=
  ∃ sign digits rest, Whole (text.toList.dropWhile Text.isSpace) sign digits rest ∧
    n = if sign = some '-' then -(Nat.ofDigitChars 10 digits 0 : Int) else Nat.ofDigitChars 10 digits 0

theorem fitsInt64_iff {n : Int} : fitsInt64 n = true ↔ -2 ^ 63 ≤ n ∧ n < 2 ^ 63 := by
  have least : Int64.minValue.toInt = -2 ^ 63 := by decide
  have greatest : Int64.maxValue.toInt = 2 ^ 63 - 1 := by decide
  rw [fitsInt64, Bool.and_eq_true, decide_eq_true_eq, decide_eq_true_eq, least, greatest]
  omega

section Reading

variable {cs digits rest : List Char} {sign : Option Char}

theorem takeDigits_append (all : ∀ c ∈ digits, c.isDigit = true)
    (ends : ∀ c ∈ rest.head?, c.isDigit = false) : takeDigits (digits ++ rest) = (digits, rest) := by
  have stops : rest.takeWhile Char.isDigit = [] ∧ rest.dropWhile Char.isDigit = rest := by
    cases rest with
    | nil => exact ⟨rfl, rfl⟩
    | cons d rest =>
        have other : ¬ d.isDigit = true := by
          rw [ends d rfl]
          exact Bool.false_ne_true
        exact ⟨List.takeWhile_cons_of_neg other, List.dropWhile_cons_of_neg other⟩
  rw [takeDigits, List.takeWhile_append_of_pos all, List.dropWhile_append_of_pos all, stops.1, stops.2,
    List.append_nil]

theorem isDigit_unsigned {c : Char} (digit : c.isDigit = true) : ¬ (c = '+' ∨ c = '-') := by
  rintro (rfl | rfl) <;> cases digit

theorem Whole.takeSign (h : Whole cs sign digits rest) : takeSign cs = (sign, digits ++ rest) := by
  rw [h.parts]
  cases sign with
  | some c => rw [Option.toList_some, List.cons_append, Numeral.takeSign, if_pos (h.signs c rfl)]; rfl
  | none =>
      obtain ⟨d, more, same⟩ := List.exists_cons_of_ne_nil h.some
      have digit : d.isDigit = true := h.digits d (same ▸ List.mem_cons_self)
      rw [same, Option.toList_none, List.nil_append, List.cons_append, Numeral.takeSign,
        if_neg (isDigit_unsigned digit)]

theorem isSpace_eq_false_of_isDigit {c : Char} (digit : c.isDigit = true) : Text.isSpace c = false := by
  rw [Bool.eq_false_iff]
  intro space
  simp only [Text.isSpace, Bool.or_eq_true, decide_eq_true_eq] at space
  rcases space with ((((rfl | rfl) | rfl) | rfl) | rfl) | rfl <;> cases digit

/-- No blank stands in front of the sign and the digits. -/
theorem Whole.dropWhile_isSpace (h : Whole cs sign digits rest) : cs.dropWhile Text.isSpace = cs := by
  rw [h.parts]
  cases sign with
  | some c =>
      have unblank : ¬ Text.isSpace c = true := by
        rcases h.signs c rfl with rfl | rfl <;> decide
      exact List.dropWhile_cons_of_neg unblank
  | none =>
      obtain ⟨d, more, same⟩ := List.exists_cons_of_ne_nil h.some
      have digit : d.isDigit = true := h.digits d (same ▸ List.mem_cons_self)
      have unblank : ¬ Text.isSpace d = true := by
        rw [isSpace_eq_false_of_isDigit digit]
        exact Bool.false_ne_true
      rw [same]
      exact List.dropWhile_cons_of_neg unblank

/-- The numeral at the head is the sign with the digits. -/
theorem Whole.ofWhole_eq (h : Whole cs sign digits rest) :
    ofWhole cs = Option.some ⟨sign, digits, none, none⟩ := by
  simp [ofWhole, h.takeSign, takeDigits_append h.digits h.ends, h.some]

/-- An integer in range that the text denotes is what is read. -/
theorem int64?_of_denotes {text : String} {n : Int} (h : Denotes text n) (fits : -2 ^ 63 ≤ n ∧ n < 2 ^ 63) :
    int64? text = Option.some (Int64.ofInt n) := by
  obtain ⟨sign, digits, rest, whole, value⟩ := h
  have read : toInt ⟨sign, digits, none, none⟩ = n := by
    simp only [toInt, withSign, mantissa, Option.getD_none, List.append_nil]
    exact value.symm
  simp only [int64?, whole.ofWhole_eq, read, fitsInt64_iff.2 fits, if_true]

end Reading

section Writing

/-- The sign and the digits of an integer. -/
theorem whole_toString (n : Int) :
    Whole (toString n).toList (if n < 0 then some '-' else none) (Nat.toDigits 10 n.natAbs) [] where
  parts := by
    cases n with
    | ofNat k =>
        have text : toString (Int.ofNat k) = k.repr := rfl
        have positive : ¬ Int.ofNat k < 0 := Int.not_lt.2 (Int.natCast_nonneg k)
        rw [text, if_neg positive, Nat.toList_repr]
        simp
    | negSucc k =>
        have text : toString (Int.negSucc k) = "-" ++ (k + 1).repr := rfl
        rw [text, if_pos (Int.negSucc_lt_zero k), String.toList_append, Nat.toList_repr]
        simp
  signs := by
    intro c mem
    split at mem
    · obtain rfl : '-' = c := by simpa using mem
      exact Or.inr rfl
    · cases mem
  some := Nat.toDigits_ne_nil
  digits _ mem := Nat.isDigit_of_mem_toDigits (by decide) (by decide) mem
  ends := by
    rintro c ⟨⟩

/-- The text of an integer denotes it. -/
theorem denotes_toString (n : Int) : Denotes (toString n) n := by
  have whole := whole_toString n
  refine ⟨_, _, _, whole.dropWhile_isSpace.symm ▸ whole, ?_⟩
  rw [Nat.ofDigitChars_ten_toDigits]
  by_cases negative : n < 0
  · rw [if_pos negative, if_pos rfl]
    omega
  · rw [if_neg negative, if_neg (by simp)]
    omega

/-- The text of an integer of 64 bits is read as this integer. -/
theorem int64?_toString (n : Int64) : int64? (toString n.toInt) = some n := by
  have fits : -2 ^ 63 ≤ n.toInt ∧ n.toInt < 2 ^ 63 := ⟨n.le_toInt, n.toInt_lt⟩
  rw [int64?_of_denotes (denotes_toString n.toInt) fits, Int64.ofInt_toInt]

end Writing

end Numeral
end EmojiLang
