import EmojiLang.Proofs.Number.Forms
import EmojiLang.Text.Utf8

/-!
# Numerals among bytes

A text is stored as the bytes of its characters, and a numeral can be cut off there without decoding them.
The scan looks at single bytes, from one place to the next, and counts the digits that it has passed.  All
that it looks for is ASCII, and a byte of any other character is no ASCII character.

**Definitions.**
* `Numeral.cut bytes decimal`: how many bytes the numeral has that stands at the head of the bytes.
* `Stands bytes i cs`: from the place `i` on, the bytes are those of the characters `cs`.

**Results.**
* `Stands.sign`, `Stands.digits`, `Stands.mantissa` and `Stands.exponent`: each step passes the bytes of what
  is read among the characters.
* `Numeral.cut_whole` and `Numeral.cut_decimal`: the scan ends where the numeral ends.
* `Numeral.Form.ascii_of` and `Numeral.isValid_length`: a numeral is written in ASCII, so a character ends where
  it ends.
-/

namespace EmojiLang
namespace Numeral

section Scanning

variable (bytes : List UInt8)

/-- The byte of a digit. -/
def isDigitByte (b : UInt8) : Bool := decide ('0'.toUInt8 ≤ b) && decide (b ≤ '9'.toUInt8)

/-- Behind a sign, if there is one at `start`. -/
def signEnd (start : Nat) : Nat :=
  if bytes[start]? = some '+'.toUInt8 ∨ bytes[start]? = some '-'.toUInt8 then start + 1 else start

/-- Behind the digits from `start` on. -/
def digitsEnd (start : Nat) : Nat := start + ((bytes.drop start).takeWhile isDigitByte).length

/-- How many digits there are from `start` on, with one point among them if it is allowed, and where they
end. -/
def mantissaEnd (decimal : Bool) (start : Nat) : Nat × Nat :=
  let whole := digitsEnd bytes start
  if decimal = true ∧ bytes[whole]? = some '.'.toUInt8 then
    let behind := digitsEnd bytes (whole + 1)
    let count := (whole - start) + (behind - (whole + 1))
    (count, if 0 < count then behind else whole)
  else
    (whole - start, whole)

/-- Behind the exponent, if there is one at `start`. -/
def exponentEnd (start : Nat) : Nat :=
  if bytes[start]? = some 'e'.toUInt8 ∨ bytes[start]? = some 'E'.toUInt8 then
    let first := signEnd bytes (start + 1)
    let behind := digitsEnd bytes first
    if first < behind then behind else start
  else
    start

/-- Where the numeral at the head of the bytes ends. -/
def cut (decimal : Bool) : Option Nat :=
  let (count, stop) := mantissaEnd bytes decimal (signEnd bytes 0)
  if count = 0 then none else some (if decimal then exponentEnd bytes stop else stop)

end Scanning

section Offsets

variable {bytes : List UInt8} {i : Nat} {c : Char} {cs rest ds : List Char}

theorem toNat_toUInt8 (ascii : c.toNat < 0x80) : c.toUInt8.toNat = c.toNat := by
  rw [Char.toUInt8, UInt32.toNat_toUInt8]
  exact Nat.mod_eq_of_lt (Nat.lt_trans ascii (by decide))

theorem encodeChar_ascii (ascii : c.toNat < 0x80) : String.utf8EncodeChar c = [c.toUInt8] := by
  refine String.utf8EncodeChar_eq_singleton (Char.utf8Size_eq_one_iff.2 ?_)
  exact UInt32.le_iff_toNat_le.2 (Nat.le_of_lt_succ ascii)

/-- The first byte of another character is no character by itself. -/
theorem encodeChar_other (other : ¬ c.toNat < 0x80) :
    ∃ b more, String.utf8EncodeChar c = b :: more ∧ 0x80 ≤ b.toNat := by
  have large : ¬ c.val.toNat ≤ 127 := fun small => other (Nat.lt_succ_of_le small)
  have first (n : Nat) (high : 192 ≤ n) (fits : n < 256) : 0x80 ≤ (UInt8.ofNat n).toNat := by
    rw [UInt8.toNat_ofNat']
    omega
  rw [String.utf8EncodeChar, if_neg large]
  split_ifs <;> exact ⟨_, _, rfl, first _ (by omega) (by omega)⟩

/-- The bytes from `i` on are those of the characters. -/
def Stands (bytes : List UInt8) (i : Nat) (cs : List Char) : Prop :=
  bytes.drop i = cs.flatMap String.utf8EncodeChar

theorem stands_encode (text : String) : Stands (Text.encode text) 0 text.toList := rfl

/-- A character of ASCII stands at an offset exactly if its byte does. -/
theorem Stands.getElem? {a : Char} (h : Stands bytes i cs) (ascii : a.toNat < 0x80) :
    bytes[i]? = some a.toUInt8 ↔ cs.head? = some a := by
  rw [← List.head?_drop, h]
  cases cs with
  | nil => exact iff_of_false nofun nofun
  | cons c rest =>
      rw [List.flatMap_cons, List.head?_cons, Option.some.injEq]
      by_cases small : c.toNat < 0x80
      · rw [encodeChar_ascii small, List.singleton_append, List.head?_cons, Option.some.injEq]
        constructor
        · intro same
          apply Char.toNat_inj.1
          rw [← toNat_toUInt8 small, same, toNat_toUInt8 ascii]
        · rintro rfl
          rfl
      · obtain ⟨b, more, bytes, large⟩ := encodeChar_other small
        rw [bytes, List.cons_append, List.head?_cons, Option.some.injEq]
        refine iff_of_false ?_ ?_
        · rintro rfl
          rw [toNat_toUInt8 ascii] at large
          omega
        · rintro rfl
          exact small ascii

theorem Stands.tail (h : Stands bytes i (c :: rest)) (ascii : c.toNat < 0x80) : Stands bytes (i + 1) rest := by
  have behind := congrArg (List.drop 1) h
  rw [List.drop_drop, List.flatMap_cons, encodeChar_ascii ascii] at behind
  exact behind

theorem Stands.drop (h : Stands bytes i (ds ++ rest)) (ascii : ∀ c ∈ ds, c.toNat < 0x80) :
    Stands bytes (i + ds.length) rest := by
  induction ds generalizing i with
  | nil => exact h
  | cons c ds ih =>
      have tail : Stands bytes (i + 1) (ds ++ rest) := h.tail (ascii c List.mem_cons_self)
      have stands := ih tail fun d mem => ascii d (List.mem_cons_of_mem c mem)
      rwa [List.length_cons, Nat.add_comm ds.length, ← Nat.add_assoc]

theorem isDigitByte_iff {b : UInt8} : isDigitByte b = true ↔ '0'.toNat ≤ b.toNat ∧ b.toNat ≤ '9'.toNat := by
  rw [isDigitByte, Bool.and_eq_true, decide_eq_true_eq, decide_eq_true_eq, UInt8.le_iff_toNat_le,
    UInt8.le_iff_toNat_le]
  rfl

theorem ascii_of_isDigit (digit : c.isDigit = true) : c.toNat < 0x80 :=
  (Char.isDigit_iff_toNat.1 digit).2.trans_lt (by decide)

theorem isDigitByte_toUInt8 (ascii : c.toNat < 0x80) : isDigitByte c.toUInt8 = c.isDigit := by
  rw [Bool.eq_iff_iff, isDigitByte_iff, Char.isDigit_iff_toNat, toNat_toUInt8 ascii]

theorem isDigitByte_eq_false {b : UInt8} (large : 0x80 ≤ b.toNat) : isDigitByte b = false := by
  rw [Bool.eq_false_iff]
  intro digit
  exact absurd ((isDigitByte_iff.1 digit).2.trans_lt (by decide)) (Nat.not_lt.2 large)

theorem length_takeWhile_isDigitByte (cs : List Char) :
    ((cs.flatMap String.utf8EncodeChar).takeWhile isDigitByte).length = (cs.takeWhile Char.isDigit).length := by
  induction cs with
  | nil => rfl
  | cons c cs ih =>
      rw [List.flatMap_cons]
      by_cases small : c.toNat < 0x80
      · rw [encodeChar_ascii small, List.singleton_append, List.takeWhile_cons, List.takeWhile_cons,
          isDigitByte_toUInt8 small]
        split
        · exact congrArg (· + 1) ih
        · rfl
      · obtain ⟨b, more, bytes, large⟩ := encodeChar_other small
        have other : ¬ c.isDigit = true := fun digit => small (ascii_of_isDigit digit)
        rw [bytes, List.cons_append, List.takeWhile_cons, isDigitByte_eq_false large, if_neg Bool.false_ne_true,
          List.takeWhile_cons_of_neg other]
        rfl

theorem Stands.sign {s : Option Char} (h : Stands bytes i cs) (read : takeSign cs = (s, rest)) :
    signEnd bytes i = i + s.toList.length ∧ Stands bytes (i + s.toList.length) rest := by
  have spelled : (bytes[i]? = some '+'.toUInt8 ∨ bytes[i]? = some '-'.toUInt8) ↔
      cs.head? = some '+' ∨ cs.head? = some '-' :=
    or_congr (h.getElem? (by decide)) (h.getElem? (by decide))
  rcases takeSign_cases read with ⟨c, signed, rfl, rfl⟩ | ⟨bare, rfl, rfl⟩
  · have ascii : c.toNat < 0x80 := by
      rcases signed with rfl | rfl <;> decide
    exact ⟨if_pos (spelled.2 (signed.imp (congrArg some) (congrArg some))), h.tail ascii⟩
  · refine ⟨if_neg fun signed => ?_, h⟩
    rcases spelled.1 signed with first | first
    · exact bare _ first (Or.inl rfl)
    · exact bare _ first (Or.inr rfl)

theorem Stands.digits (h : Stands bytes i cs) (read : takeDigits cs = (ds, rest)) :
    digitsEnd bytes i = i + ds.length ∧ Stands bytes (i + ds.length) rest := by
  obtain ⟨all, parts⟩ := takeDigits_spec read
  obtain ⟨rfl, rfl⟩ := Prod.mk.inj read
  refine ⟨by rw [digitsEnd, h, length_takeWhile_isDigitByte], ?_⟩
  rw [← parts] at h
  exact h.drop fun c mem => ascii_of_isDigit (all c mem)

/-- Where no point is allowed, the digits of a whole numeral are counted. -/
theorem Stands.whole (h : Stands bytes i cs) (read : takeDigits cs = (ds, rest)) :
    mantissaEnd bytes false i = (ds.length, i + ds.length) := by
  obtain ⟨stop, _⟩ := h.digits read
  simp [mantissaEnd, stop]

/-- The digits behind a point are counted with those in front of it. -/
theorem Stands.pointed {behind f : List Char} (h : Stands bytes i cs) (read : takeDigits cs = (ds, '.' :: behind))
    (fractions : takeDigits behind = (f, rest)) :
    mantissaEnd bytes true i =
        (ds.length + f.length, if 0 < ds.length + f.length then i + ds.length + 1 + f.length else i + ds.length) ∧
      Stands bytes (i + ds.length + 1 + f.length) rest := by
  obtain ⟨stop, stands⟩ := h.digits read
  obtain ⟨stop', stands'⟩ := (stands.tail (by decide)).digits fractions
  have point : bytes[i + ds.length]? = some '.'.toUInt8 := (stands.getElem? (by decide)).2 rfl
  refine ⟨?_, stands'⟩
  simp only [mantissaEnd, stop, point, stop', and_self, if_true, Nat.add_sub_cancel_left]

/-- The digits are counted, and they end where the fraction ends. -/
theorem Stands.mantissa {after : List Char} {fraction : Option (List Char)} (h : Stands bytes i cs)
    (read : takeDigits cs = (ds, after)) (fractions : takeFraction (!ds.isEmpty) after = (fraction, rest)) :
    mantissaEnd bytes true i =
        (ds.length + (fraction.getD []).length, i + (ds ++ fractionText fraction).length) ∧
      Stands bytes (i + (ds ++ fractionText fraction).length) rest := by
  rcases takeFraction_cases fractions with ⟨behind, f, digits, counts, rfl, rfl⟩ | ⟨no, rfl, rfl⟩
  · have positive : 0 < ds.length + f.length := by
      rcases counts with counts | counts
      · exact Nat.add_pos_left (List.length_pos_iff.2 (by simpa using counts)) _
      · exact Nat.add_pos_right _ (List.length_pos_iff.2 counts)
    have length : i + (ds ++ fractionText (Option.some f)).length = i + ds.length + 1 + f.length := by
      simp only [fractionText, Option.map_some, Option.getD_some, List.length_append, List.length_cons]
      omega
    have pointed := h.pointed read digits
    rw [if_pos positive] at pointed
    rwa [length]
  · obtain ⟨stop, stands⟩ := h.digits read
    rw [fractionText, Option.map_none, Option.getD_none, List.append_nil]
    refine ⟨?_, stands⟩
    by_cases point : ∃ behind, after = '.' :: behind
    · -- A point without digits counts for nothing.
      obtain ⟨behind, rfl⟩ := point
      obtain ⟨noWhole, noFraction⟩ := no behind rfl
      obtain rfl : ds = [] := by simpa using noWhole
      have pointed := (h.pointed read (Prod.mk.eta (p := takeDigits behind)).symm).1
      rwa [noFraction] at pointed
    · have other : ¬ bytes[i + ds.length]? = Option.some '.'.toUInt8 := fun same =>
        point (List.head?_eq_some_iff.1 ((stands.getElem? (by decide)).1 same))
      simp [mantissaEnd, stop, other]

/-- A mark counts if digits follow. -/
theorem Stands.exponent (h : Stands bytes i cs) :
    exponentEnd bytes i = i + (((takeExponent cs).map exponentText).getD []).length := by
  have spelled : (bytes[i]? = some 'e'.toUInt8 ∨ bytes[i]? = some 'E'.toUInt8) ↔
      cs.head? = some 'e' ∨ cs.head? = some 'E' :=
    or_congr (h.getElem? (by decide)) (h.getElem? (by decide))
  cases cs with
  | nil => exact if_neg fun marked => (spelled.1 marked).elim nofun nofun
  | cons c behind =>
      rw [List.head?_cons, Option.some.injEq, Option.some.injEq] at spelled
      rw [exponentEnd, takeExponent]
      by_cases marked : c = 'e' ∨ c = 'E'
      · have ascii : c.toNat < 0x80 := by
          rcases marked with rfl | rfl <;> decide
        rcases signs : takeSign behind with ⟨s, after⟩
        rcases read : takeDigits after with ⟨ds, rest⟩
        obtain ⟨first, stands⟩ := (h.tail ascii).sign signs
        obtain ⟨stop, _⟩ := stands.digits read
        simp only [if_pos marked, if_pos (spelled.2 marked), read, first, stop]
        cases ds with
        | nil => simp
        | cons d ds =>
            simp [exponentText]
            omega
      · rw [if_neg marked, if_neg (mt spelled.1 marked)]
        rfl

/-- The bytes are cut where the numeral ends. -/
theorem cut_whole (h : Stands bytes 0 cs) : cut bytes false = (ofWhole cs).map fun n => n.text.length := by
  rcases signs : takeSign cs with ⟨s, after⟩
  rcases read : takeDigits after with ⟨ds, rest⟩
  obtain ⟨first, stands⟩ := h.sign signs
  simp only [cut, first, stands.whole read, ofWhole, signs, read]
  cases ds with
  | nil => rfl
  | cons d ds => simp [text_whole]

/-- No digit is counted if there is neither a whole part nor a fraction. -/
theorem count_eq_zero_iff {after : List Char} {fraction : Option (List Char)}
    (fractions : takeFraction (!ds.isEmpty) after = (fraction, rest)) :
    ds.length + (fraction.getD []).length = 0 ↔ (ds.isEmpty && fraction.isNone) = true := by
  rcases takeFraction_cases fractions with ⟨_, f, _, counts, rfl, _⟩ | ⟨_, rfl, _⟩
  · refine iff_of_false ?_ (by simp)
    rintro zero
    obtain ⟨noWhole, noFraction⟩ := Nat.add_eq_zero_iff.1 zero
    rw [List.length_eq_zero_iff] at noWhole noFraction
    rcases counts with counts | counts
    · rw [noWhole] at counts
      cases counts
    · exact counts noFraction
  · simp

theorem cut_decimal (h : Stands bytes 0 cs) : cut bytes true = (ofDecimal cs).map fun n => n.text.length := by
  rcases signs : takeSign cs with ⟨s, after⟩
  rcases read : takeDigits after with ⟨ds, afterWhole⟩
  rcases fractions : takeFraction (!ds.isEmpty) afterWhole with ⟨fraction, rest⟩
  obtain ⟨first, stands⟩ := h.sign signs
  obtain ⟨stop, stands⟩ := stands.mantissa read fractions
  simp only [cut, first, stop, stands.exponent, ofDecimal, signs, read, fractions, count_eq_zero_iff fractions]
  split
  · rfl
  · simp only [Option.map_some, text_eq, List.length_append, Nat.zero_add, if_true]

end Offsets

namespace Form

open scoped Computability

/-- The members of a language have characters of ASCII only. -/
def Ascii (l : Language Char) : Prop := ∀ cs ∈ l, ∀ c ∈ cs, c.toNat < 0x80

variable {l m : Language Char}

theorem ascii_oneOf {p : Char → Prop} (small : ∀ c, p c → c.toNat < 0x80) : Ascii (oneOf p) := by
  rintro _ ⟨c, ok, rfl⟩
  exact List.forall_mem_singleton.2 (small c ok)

theorem Ascii.mul (hl : Ascii l) (hm : Ascii m) : Ascii (l * m) := by
  rintro _ ⟨p, memP, q, memQ, rfl⟩
  exact List.forall_mem_append.2 ⟨hl p memP, hm q memQ⟩

theorem Ascii.add (hl : Ascii l) (hm : Ascii m) : Ascii (l + m) := fun cs mem =>
  mem.elim (hl cs) (hm cs)

theorem Ascii.optional (hl : Ascii l) : Ascii (1 + l) := by
  rintro cs (rfl | mem)
  · exact List.forall_mem_nil _
  · exact hl cs mem

/-- Every numeral is written in ASCII. -/
theorem ascii_of (isDecimal : Bool) : Ascii (of isDecimal) := by
  have signs : Ascii (1 + sign) := (ascii_oneOf (by rintro _ (rfl | rfl) <;> decide)).optional
  have points : Ascii point := ascii_oneOf (by rintro _ rfl; decide)
  have marks : Ascii mark := ascii_oneOf (by rintro _ (rfl | rfl) <;> decide)
  have row : Ascii digit∗ := fun cs mem c inside => ascii_of_isDigit (mem_oneOf_kstar.1 mem c inside)
  have digits : Ascii digits := (ascii_oneOf fun _ => ascii_of_isDigit).mul row
  have whole : Ascii whole := signs.mul digits
  have mantissa : Ascii mantissa := digits.add (((digits.mul points).mul row).add (points.mul digits))
  cases isDecimal with
  | false => exact whole
  | true => exact (signs.mul mantissa).mul (marks.mul whole).optional

end Form

section Boundaries

variable {cs p : List Char} {decimal : Bool}

theorem length_flatMap_encodeChar (small : ∀ c ∈ p, c.toNat < 0x80) :
    (p.flatMap String.utf8EncodeChar).length = p.length := by
  induction p with
  | nil => rfl
  | cons c p ih =>
      obtain ⟨first, later⟩ := List.forall_mem_cons.1 small
      rw [List.flatMap_cons, encodeChar_ascii first, List.singleton_append, List.length_cons, ih later,
        List.length_cons]

/-- Where a numeral ends, a character ends. -/
theorem isValid_length (mem : p ∈ Form.of decimal) (begins : p <+: cs) :
    (String.Pos.Raw.mk p.length).IsValid (String.ofList cs) := by
  obtain ⟨rest, rfl⟩ := begins
  rw [String.Pos.Raw.isValid_iff_exists_append]
  refine ⟨String.ofList p, String.ofList rest, String.ofList_append, ?_⟩
  rw [String.rawEndPos, String.utf8ByteSize, String.toByteArray_ofList, List.utf8Encode, List.size_toByteArray,
    length_flatMap_encodeChar (Form.ascii_of decimal p mem)]

end Boundaries

end Numeral
end EmojiLang
