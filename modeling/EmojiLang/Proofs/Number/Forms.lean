import EmojiLang.Proofs.Number.Numeral
import Mathlib.Computability.Language
import Mathlib.Data.List.TakeWhile

/-!
# The forms of numerals

Which texts are numerals is said by two languages, a whole one and a decimal one, made of single characters
by choice, by sequence and by repetition.  What is read at the head of a text is the longest part there that
is in the language.  Two of its initial parts may both be numerals, as with `1` and `1.5` in front of `1.5e`,
so a reader must not stop early; and it must give back what it cannot use, as with the `e`.

**Definitions.**
* `Longest l cs p`: of the initial parts of `cs` that are in the language, `p` is the longest.
* `Finds l cs found`: what is found is the longest such part, if there is one.
* `Numeral.Form.whole` and `Numeral.Form.decimal`: the two languages, and `Numeral.Form.of` is one of them.

**Method.** The parts of a numeral are split off one after the other, so the longest parts have to make up the
longest numeral.  `Finds.add_none` and `Longest.mul_optional` say when they do: the next character settles
which part may follow.

**Results.** `Numeral.finds_ofWhole` and `Numeral.finds_ofDecimal` say that the readers find the longest
numeral.
-/

namespace EmojiLang

open scoped Computability

section Longest

variable {α : Type*} {l m : Language α} {cs p q rest : List α} {found : Option (List α)}

/-- Of the initial parts of `cs` that are in the language, `p` is the longest. -/
structure Longest (l : Language α) (cs p : List α) : Prop where
  mem : p ∈ l
  begins : p <+: cs
  most : ∀ q ∈ l, q <+: cs → q.length ≤ p.length

/-- The longest initial part of `cs` that is in the language, and nothing if no initial part is. -/
def Finds (l : Language α) (cs : List α) : Option (List α) → Prop
  | some p => Longest l cs p
  | none => ∀ q ∈ l, ¬ q <+: cs

theorem Longest.unique (hp : Longest l cs p) (hq : Longest l cs q) : p = q := by
  have within : p <+: q :=
    List.prefix_of_prefix_length_le hp.begins hq.begins (hq.most p hp.mem hp.begins)
  exact within.eq_of_length_le (hp.most q hq.mem hq.begins)

theorem Finds.eq_some_iff (h : Finds l cs found) : found = some p ↔ Longest l cs p := by
  constructor
  · rintro rfl
    exact h
  · intro longest
    cases found with
    | some q => exact congrArg some (Longest.unique h longest)
    | none => exact absurd longest.begins (h p longest.mem)

theorem Finds.eq_none_iff (h : Finds l cs found) : found = none ↔ ∀ q ∈ l, ¬ q <+: cs := by
  constructor
  · rintro rfl
    exact h
  · intro no
    cases found with
    | some p => exact absurd h.begins (no p h.mem)
    | none => rfl

/-- A language of which no initial part is a member may be joined. -/
theorem Finds.add_none (h : Finds l cs found) (no : Finds m cs none) : Finds (l + m) cs found := by
  cases found with
  | some p =>
      refine ⟨Or.inl h.mem, h.begins, ?_⟩
      rintro q (mem | mem) begins
      · exact h.most q mem begins
      · exact absurd begins (no q mem)
  | none =>
      rintro q (mem | mem) begins
      · exact h q mem begins
      · exact no q mem begins

theorem Finds.none_add (no : Finds l cs none) (h : Finds m cs found) : Finds (l + m) cs found := by
  rw [add_comm]
  exact h.add_none no

theorem Finds.none_mul (h : Finds l cs none) : Finds (l * m) cs none := by
  rintro _ ⟨p, mem, q, _, rfl⟩ begins
  exact h p mem ((List.prefix_append p q).trans begins)

/-- What may follow is looked for behind the longest part, if it begins with something that this part
does not have. -/
theorem Longest.mul_optional (hp : Longest l (p ++ rest) p) (h : Finds m rest found)
    (marked : ∀ q ∈ m, ∃ c ∈ q.head?, c ∉ p) :
    Longest (l * (1 + m)) (p ++ rest) (p ++ found.getD []) := by
  have more : found.getD [] ∈ 1 + m ∧ found.getD [] <+: rest := by
    cases found with
    | some q => exact ⟨Or.inr h.mem, h.begins⟩
    | none => exact ⟨Or.inl rfl, List.nil_prefix⟩
  refine ⟨Language.append_mem_mul hp.mem more.1, (List.prefix_append_right_inj p).2 more.2, ?_⟩
  rintro _ ⟨p', mem', q, optional, rfl⟩ begins
  have begins' : p' <+: p ++ rest := (List.prefix_append p' q).trans begins
  have within : p'.length ≤ p.length := hp.most p' mem' begins'
  show (p' ++ q).length ≤ _
  rw [List.length_append, List.length_append]
  rcases optional with rfl | mem
  · exact Nat.add_le_add within (Nat.zero_le _)
  · obtain ⟨c, first, other⟩ := marked q mem
    obtain ⟨tail, rfl⟩ := List.head?_eq_some_iff.1 first
    obtain ⟨cut, rfl⟩ : p' <+: p := List.prefix_of_prefix_length_le begins' hp.begins within
    have behind : c :: tail <+: cut ++ rest := by
      rwa [List.append_assoc, List.prefix_append_right_inj] at begins
    cases cut with
    | nil =>
        cases found with
        | some q => exact Nat.add_le_add within (h.most _ mem behind)
        | none => exact absurd behind (h _ mem)
    | cons d cut =>
        -- A part that ends within `p` would be followed by a member of `p`.
        obtain ⟨rfl, _⟩ := List.cons_prefix_cons.1 behind
        exact absurd (List.mem_append_right p' List.mem_cons_self) other

end Longest

namespace Numeral

namespace Form

/-- A single character of a class. -/
def oneOf (p : Char → Prop) : Language Char := {cs | ∃ c, p c ∧ [c] = cs}

/-- A plus or a minus. -/
def sign : Language Char := oneOf fun c => c = '+' ∨ c = '-'

def digit : Language Char := oneOf fun c => c.isDigit = true

/-- One digit or more. -/
def digits : Language Char := digit * digit∗

def point : Language Char := oneOf fun c => c = '.'

/-- What an exponent begins with. -/
def mark : Language Char := oneOf fun c => c = 'e' ∨ c = 'E'

/-- Digits with a point behind, among or before them. -/
def pointed : Language Char := digits * point * digit∗ + point * digits

/-- Digits with or without a point. -/
def mantissa : Language Char := digits + pointed

/-- A mark with digits, which may have a sign. -/
def exponent : Language Char := mark * ((1 + sign) * digits)

/-- The whole numerals. -/
def whole : Language Char := (1 + sign) * digits

/-- The decimal numerals. -/
def decimal : Language Char := (1 + sign) * mantissa * (1 + exponent)

/-- The whole numerals or the decimal ones. -/
def of (isDecimal : Bool) : Language Char := if isDecimal then decimal else whole

theorem of_false : of false = whole := rfl

theorem of_true : of true = decimal := rfl

variable {p : Char → Prop} {l : Language Char} {cs rest : List Char} {c : Char} {found : Option (List Char)}

theorem oneOf_mul : cs ∈ oneOf p * l ↔ ∃ c, p c ∧ ∃ q ∈ l, c :: q = cs := by
  constructor
  · rintro ⟨_, ⟨c, ok, rfl⟩, q, mem, rfl⟩
    exact ⟨c, ok, q, mem, rfl⟩
  · rintro ⟨c, ok, q, mem, rfl⟩
    exact ⟨[c], ⟨c, ok, rfl⟩, q, mem, rfl⟩

theorem finds_oneOf_mul (ok : p c) (h : Finds l rest found) :
    Finds (oneOf p * l) (c :: rest) (found.map (c :: ·)) := by
  have inside : ∀ x ∈ oneOf p * l, x <+: c :: rest → ∃ q ∈ l, q <+: rest ∧ c :: q = x := by
    intro x xMem begins
    obtain ⟨d, _, q, mem, rfl⟩ := oneOf_mul.1 xMem
    obtain ⟨rfl, within⟩ := List.cons_prefix_cons.1 begins
    exact ⟨q, mem, within, rfl⟩
  cases found with
  | some p =>
      refine ⟨oneOf_mul.2 ⟨c, ok, p, h.mem, rfl⟩, List.cons_prefix_cons.2 ⟨rfl, h.begins⟩, ?_⟩
      intro x xMem begins
      obtain ⟨q, mem, within, rfl⟩ := inside x xMem begins
      exact Nat.succ_le_succ (h.most q mem within)
  | none =>
      intro x xMem begins
      obtain ⟨q, mem, within, rfl⟩ := inside x xMem begins
      exact h q mem within

theorem finds_oneOf_mul_none (other : ∀ c ∈ cs.head?, ¬ p c) : Finds (oneOf p * l) cs none := by
  intro x mem begins
  obtain ⟨c, ok, q, _, rfl⟩ := oneOf_mul.1 mem
  obtain ⟨t, rfl⟩ := begins
  exact other c rfl ok

theorem mem_oneOf_kstar : cs ∈ (oneOf p)∗ ↔ ∀ c ∈ cs, p c := by
  rw [Language.mem_kstar]
  constructor
  · rintro ⟨parts, rfl, single⟩ c mem
    obtain ⟨part, partMem, mem⟩ := List.mem_flatten.1 mem
    obtain ⟨d, ok, rfl⟩ := single part partMem
    rw [List.mem_singleton.1 mem]
    exact ok
  · intro all
    refine ⟨cs.map fun c => [c], by rw [← List.flatMap_def, List.flatMap_singleton'], ?_⟩
    intro part partMem
    obtain ⟨c, mem, rfl⟩ := List.mem_map.1 partMem
    exact ⟨c, all c mem, rfl⟩

theorem mem_digits : cs ∈ digits ↔ cs ≠ [] ∧ ∀ c ∈ cs, c.isDigit = true := by
  rw [digits, digit, oneOf_mul]
  constructor
  · rintro ⟨c, isDigit, q, mem, rfl⟩
    exact ⟨List.cons_ne_nil c q, List.forall_mem_cons.2 ⟨isDigit, mem_oneOf_kstar.1 mem⟩⟩
  · rintro ⟨nonempty, all⟩
    obtain ⟨c, q, rfl⟩ := List.exists_cons_of_ne_nil nonempty
    obtain ⟨isDigit, all⟩ := List.forall_mem_cons.1 all
    exact ⟨c, isDigit, q, mem_oneOf_kstar.2 all, rfl⟩

/-- Around a point there are two rows of digits, and one of them is not empty. -/
theorem mem_pointed : cs ∈ pointed ↔ ∃ whole fraction,
    (∀ c ∈ whole, c.isDigit = true) ∧ (∀ c ∈ fraction, c.isDigit = true) ∧
      (whole ≠ [] ∨ fraction ≠ []) ∧ whole ++ '.' :: fraction = cs := by
  simp only [pointed, Language.mem_add, mul_assoc, Language.mem_mul (l := digits), point, digit, oneOf_mul,
    mem_digits, mem_oneOf_kstar]
  constructor
  · rintro (⟨whole, ⟨nonempty, all⟩, _, ⟨_, rfl, fraction, all', rfl⟩, rfl⟩ |
      ⟨_, rfl, fraction, ⟨nonempty, all'⟩, rfl⟩)
    · exact ⟨whole, fraction, all, all', Or.inl nonempty, rfl⟩
    · exact ⟨[], fraction, nofun, all', Or.inr nonempty, rfl⟩
  · rintro ⟨whole, fraction, all, all', either, rfl⟩
    by_cases empty : whole = []
    · subst empty
      exact Or.inr ⟨_, rfl, fraction, ⟨either.resolve_left (not_not_intro rfl), all'⟩, rfl⟩
    · exact Or.inl ⟨whole, ⟨empty, all⟩, _, ⟨_, rfl, fraction, all', rfl⟩, rfl⟩

/-- A mantissa is not empty, and it has digits and points only. -/
theorem plain_of_mem_mantissa (mem : cs ∈ mantissa) : cs ≠ [] ∧ ∀ c ∈ cs, c.isDigit = true ∨ c = '.' := by
  rcases mem with bare | pointed
  · obtain ⟨nonempty, all⟩ := mem_digits.1 bare
    exact ⟨nonempty, fun c mem => Or.inl (all c mem)⟩
  · obtain ⟨whole, fraction, all, all', _, rfl⟩ := mem_pointed.1 pointed
    refine ⟨List.append_ne_nil_of_right_ne_nil whole (List.cons_ne_nil _ _), ?_⟩
    intro c mem
    rcases List.mem_append.1 mem with mem | mem
    · exact Or.inl (all c mem)
    · exact (List.mem_cons.1 mem).symm.imp_left (all' c)

theorem mantissa_unsigned (mem : cs ∈ mantissa) : ∃ c ∈ cs.head?, ¬ (c = '+' ∨ c = '-') := by
  obtain ⟨nonempty, plain⟩ := plain_of_mem_mantissa mem
  obtain ⟨c, tail, rfl⟩ := List.exists_cons_of_ne_nil nonempty
  refine ⟨c, rfl, ?_⟩
  rcases plain c List.mem_cons_self with digit | rfl
  · exact isDigit_unsigned digit
  · decide

/-- An exponent begins with a character that nothing in front of it has. -/
theorem exponent_apart {q : List Char} (mem : cs ∈ (1 + sign) * mantissa) (follows : q ∈ exponent) :
    ∃ c ∈ q.head?, c ∉ cs := by
  obtain ⟨c, marked, q, _, rfl⟩ := oneOf_mul.1 follows
  refine ⟨c, rfl, ?_⟩
  obtain ⟨u, optional, v, mem, rfl⟩ := mem
  intro inside
  rcases List.mem_append.1 inside with inside | inside
  · rcases optional with rfl | ⟨d, signed, rfl⟩
    · exact List.not_mem_nil inside
    · rw [List.mem_singleton.1 inside] at marked
      rcases signed with rfl | rfl <;> revert marked <;> decide
  · rcases (plain_of_mem_mantissa mem).2 c inside with digit | rfl
    · rcases marked with rfl | rfl <;> cases digit
    · revert marked
      decide

end Form

section Splitting

variable {cs rest ds q : List Char} {s : Option Char} {fraction : Option (List Char)} {hasWhole : Bool}

/-- A sign is split off if the characters begin with one. -/
theorem takeSign_cases (read : takeSign cs = (s, rest)) :
    (∃ c, (c = '+' ∨ c = '-') ∧ s = some c ∧ cs = c :: rest) ∨
      (∀ c ∈ cs.head?, ¬ (c = '+' ∨ c = '-')) ∧ s = none ∧ cs = rest := by
  cases cs with
  | nil =>
      obtain ⟨rfl, rfl⟩ := Prod.mk.inj read
      exact Or.inr ⟨nofun, rfl, rfl⟩
  | cons c cs =>
      rw [takeSign] at read
      split at read <;> obtain ⟨rfl, rfl⟩ := Prod.mk.inj read
      · next signed => exact Or.inl ⟨c, signed, rfl, rfl⟩
      · next unsigned => exact Or.inr ⟨by rintro _ ⟨⟩; exact unsigned, rfl, rfl⟩

theorem takeSign_spec (read : takeSign cs = (s, rest)) :
    (∀ c ∈ s, c = '+' ∨ c = '-') ∧ s.toList ++ rest = cs := by
  rcases takeSign_cases read with ⟨c, signed, rfl, rfl⟩ | ⟨_, rfl, rfl⟩
  · exact ⟨by rintro _ ⟨⟩; exact signed, rfl⟩
  · exact ⟨nofun, rfl⟩

theorem takeDigits_spec (read : takeDigits cs = (ds, rest)) :
    (∀ c ∈ ds, c.isDigit = true) ∧ ds ++ rest = cs := by
  obtain ⟨rfl, rfl⟩ := Prod.mk.inj read
  exact ⟨fun c mem => List.mem_takeWhile_imp mem, List.takeWhile_append_dropWhile⟩

/-- No more digits stand there than are split off. -/
theorem takeDigits_most (read : takeDigits cs = (ds, rest)) (all : ∀ c ∈ q, c.isDigit = true)
    (begins : q <+: cs) : q.length ≤ ds.length := by
  obtain ⟨rfl, rfl⟩ := Prod.mk.inj read
  obtain ⟨t, rfl⟩ := begins
  rw [List.takeWhile_append_of_pos all, List.length_append]
  exact Nat.le_add_right ..

/-- In front of a point there is no other row of digits than the one that is split off. -/
theorem takeDigits_pointed {after w f : List Char} (read : takeDigits cs = (ds, after))
    (all : ∀ c ∈ w, c.isDigit = true) (begins : w ++ '.' :: f <+: cs) :
    w = ds ∧ ∃ t, after = '.' :: (f ++ t) := by
  obtain ⟨t, rfl⟩ := begins
  have ends : ∀ c ∈ ('.' :: (f ++ t)).head?, c.isDigit = false := by
    rintro _ ⟨⟩
    decide
  rw [List.append_assoc, List.cons_append, takeDigits_append all ends] at read
  obtain ⟨rfl, rfl⟩ := Prod.mk.inj read
  exact ⟨rfl, t, rfl⟩

/-- A point is split off if there is a digit on one of its sides. -/
theorem takeFraction_cases (read : takeFraction hasWhole cs = (fraction, rest)) :
    (∃ behind ds, takeDigits behind = (ds, rest) ∧ (hasWhole = true ∨ ds ≠ []) ∧ fraction = some ds ∧
        cs = '.' :: behind) ∨
      (∀ behind, cs = '.' :: behind → hasWhole = false ∧ (takeDigits behind).1 = []) ∧
        fraction = none ∧ cs = rest := by
  unfold takeFraction at read
  split at read
  · next behind =>
      rcases digits : takeDigits behind with ⟨ds, after⟩
      rw [digits] at read
      dsimp only at read
      split at read <;> obtain ⟨rfl, rfl⟩ := Prod.mk.inj read
      · next counts => exact Or.inl ⟨behind, ds, digits, by simpa using counts, rfl, rfl⟩
      · next counts =>
          refine Or.inr ⟨?_, rfl, rfl⟩
          rintro _ ⟨⟩
          rw [digits]
          simpa using counts
  · next unpointed =>
      obtain ⟨rfl, rfl⟩ := Prod.mk.inj read
      exact Or.inr ⟨fun behind same => absurd same (unpointed behind), rfl, rfl⟩

/-- What stands for a fraction, with its point. -/
def fractionText (fraction : Option (List Char)) : List Char := (fraction.map ('.' :: ·)).getD []

theorem takeFraction_append (read : takeFraction hasWhole cs = (fraction, rest)) :
    fractionText fraction ++ rest = cs := by
  rcases takeFraction_cases read with ⟨behind, ds, digits, _, rfl, rfl⟩ | ⟨_, rfl, rfl⟩
  · exact congrArg ('.' :: ·) (takeDigits_spec digits).2
  · rfl

theorem text_eq (s : Option Char) (whole : List Char) (fraction : Option (List Char)) (e : Option Exponent) :
    text ⟨s, whole, fraction, e⟩ =
      s.toList ++ (whole ++ fractionText fraction) ++ (e.map exponentText).getD [] := by
  cases fraction <;> cases e <;> simp [text, fractionText]

theorem text_whole (s : Option Char) (whole : List Char) : text ⟨s, whole, none, none⟩ = s.toList ++ whole := by
  simp [text]

end Splitting

section Reading

variable {cs after rest whole : List Char} {s : Option Char} {fraction found : Option (List Char)}

/-- A language is found behind an optional sign if its members do not begin with one. -/
theorem finds_signed {l : Language Char} (read : takeSign cs = (s, after)) (h : Finds l after found)
    (unsigned : ∀ q ∈ l, ∃ c ∈ q.head?, ¬ (c = '+' ∨ c = '-')) :
    Finds ((1 + Form.sign) * l) cs (found.map (s.toList ++ ·)) := by
  rw [add_mul, one_mul]
  rcases takeSign_cases read with ⟨c, signed, rfl, rfl⟩ | ⟨bare, rfl, rfl⟩
  · have no : Finds l (c :: after) none := by
      rintro q mem ⟨t, same⟩
      obtain ⟨d, first, other⟩ := unsigned q mem
      obtain ⟨tail, rfl⟩ := List.head?_eq_some_iff.1 first
      obtain ⟨rfl, _⟩ := List.cons.inj same
      exact other signed
    exact no.none_add (Form.finds_oneOf_mul signed h)
  · have same : found.map ((none : Option Char).toList ++ ·) = found := Option.map_id'
    rw [same]
    exact h.add_none (Form.finds_oneOf_mul_none bare)

theorem finds_digits {ds : List Char} (read : takeDigits cs = (ds, rest)) :
    Finds Form.digits cs (if ds.isEmpty then none else some ds) := by
  obtain ⟨all, parts⟩ := takeDigits_spec read
  have most : ∀ q ∈ Form.digits, q <+: cs → q.length ≤ ds.length := fun q mem begins =>
    takeDigits_most read (Form.mem_digits.1 mem).2 begins
  cases ds with
  | nil =>
      intro q mem begins
      have empty : q = [] := List.eq_nil_of_length_eq_zero (Nat.le_zero.1 (most q mem begins))
      exact (Form.mem_digits.1 mem).1 empty
  | cons c ds => exact ⟨Form.mem_digits.2 ⟨List.cons_ne_nil c ds, all⟩, ⟨rest, parts⟩, most⟩

/-- A whole numeral is read as far as it goes. -/
theorem finds_ofWhole (cs : List Char) : Finds Form.whole cs ((ofWhole cs).map text) := by
  rcases signs : takeSign cs with ⟨s, after⟩
  rcases read : takeDigits after with ⟨whole, rest⟩
  have found := finds_signed signs (finds_digits read) fun q mem => Form.mantissa_unsigned (Or.inl mem)
  have same :
      (ofWhole cs).map text = (if whole.isEmpty then none else some whole).map (s.toList ++ ·) := by
    simp only [ofWhole, signs, read]
    split
    · rfl
    · exact congrArg some (text_whole s whole)
  rw [same]
  exact found

/-- Nothing with a point stands there if no digit stands on either side of the point. -/
theorem finds_pointed_none (read : takeDigits cs = (whole, after))
    (bare : ∀ behind, after = '.' :: behind → whole = [] ∧ (takeDigits behind).1 = []) :
    Finds Form.pointed cs none := by
  intro q mem begins
  obtain ⟨w, f, wDigits, fDigits, either, rfl⟩ := Form.mem_pointed.1 mem
  obtain ⟨rfl, t, same⟩ := takeDigits_pointed read wDigits begins
  obtain ⟨noWhole, noFraction⟩ := bare _ same
  have short := takeDigits_most (Prod.mk.eta (p := takeDigits (f ++ t))).symm fDigits (List.prefix_append f t)
  rw [noFraction] at short
  rcases either with some | some
  · exact some noWhole
  · exact some (List.eq_nil_of_length_eq_zero (Nat.le_zero.1 short))

/-- With a point that is read, no digits reach further than those behind it. -/
theorem mantissa_length_le {behind ds q : List Char} (read : takeDigits cs = (whole, '.' :: behind))
    (behindRead : takeDigits behind = (ds, rest)) (mem : q ∈ Form.mantissa) (begins : q <+: cs) :
    q.length ≤ (whole ++ '.' :: ds).length := by
  rw [List.length_append, List.length_cons]
  rcases mem with digits | mem
  · have := takeDigits_most read (Form.mem_digits.1 digits).2 begins
    omega
  · obtain ⟨w, f, wDigits, fDigits, _, rfl⟩ := Form.mem_pointed.1 mem
    obtain ⟨rfl, t, same⟩ := takeDigits_pointed read wDigits begins
    have := takeDigits_most behindRead fDigits ⟨t, (List.cons.inj same).2.symm⟩
    rw [List.length_append, List.length_cons]
    omega

/-- Digits and a fraction are read as far as they go. -/
theorem finds_mantissa (read : takeDigits cs = (whole, after))
    (fractions : takeFraction (!whole.isEmpty) after = (fraction, rest)) :
    Finds Form.mantissa cs
      (if whole.isEmpty && fraction.isNone then none else some (whole ++ fractionText fraction)) := by
  obtain ⟨all, parts⟩ := takeDigits_spec read
  rcases takeFraction_cases fractions with ⟨behind, ds, behindRead, either, rfl, rfl⟩ | ⟨bare, rfl, rfl⟩
  · obtain ⟨all', parts'⟩ := takeDigits_spec behindRead
    rw [Option.isNone_some, Bool.and_false]
    refine ⟨Or.inr (Form.mem_pointed.2 ⟨whole, ds, all, all', by simpa using either, rfl⟩), ⟨rest, ?_⟩, ?_⟩
    · rw [← parts, ← parts']
      exact List.append_assoc ..
    · exact fun q mem begins => mantissa_length_le read behindRead mem begins
  · have unpointed : Finds Form.pointed cs none :=
      finds_pointed_none read fun behind same => by simpa using bare behind same
    have found := (finds_digits read).add_none unpointed
    rw [Option.isNone_none, Bool.and_true, fractionText, Option.map_none, Option.getD_none, List.append_nil]
    exact found

/-- An exponent is read as far as it goes. -/
theorem finds_takeExponent (cs : List Char) :
    Finds Form.exponent cs ((takeExponent cs).map exponentText) := by
  cases cs with
  | nil => exact Form.finds_oneOf_mul_none nofun
  | cons c rest =>
      by_cases marked : c = 'e' ∨ c = 'E'
      · have same : (takeExponent (c :: rest)).map exponentText = ((ofWhole rest).map text).map (c :: ·) := by
          simp only [takeExponent, if_pos marked, ofWhole]
          split
          · rfl
          · rw [Option.map_some, Option.map_some, Option.map_some, text_whole]
            rfl
        rw [same]
        exact Form.finds_oneOf_mul marked (finds_ofWhole rest)
      · rw [takeExponent, if_neg marked]
        exact Form.finds_oneOf_mul_none (by rintro _ ⟨⟩; exact marked)

/-- A decimal numeral is read as far as it goes. -/
theorem finds_ofDecimal (cs : List Char) : Finds Form.decimal cs ((ofDecimal cs).map text) := by
  rcases signs : takeSign cs with ⟨s, after⟩
  rcases read : takeDigits after with ⟨whole, afterWhole⟩
  rcases fractions : takeFraction (!whole.isEmpty) afterWhole with ⟨fraction, rest⟩
  have found := finds_signed signs (finds_mantissa read fractions) fun q mem => Form.mantissa_unsigned mem
  have parts : s.toList ++ (whole ++ fractionText fraction) ++ rest = cs := by
    rw [← (takeSign_spec signs).2, ← (takeDigits_spec read).2, ← takeFraction_append fractions]
    simp only [List.append_assoc]
  have same : (ofDecimal cs).map text =
      if whole.isEmpty && fraction.isNone then none
      else some (s.toList ++ (whole ++ fractionText fraction) ++
        ((takeExponent rest).map exponentText).getD []) := by
    simp only [ofDecimal, signs, read, fractions]
    split
    · rfl
    · rw [Option.map_some, text_eq]
  rw [same, Form.decimal]
  by_cases empty : (whole.isEmpty && fraction.isNone) = true
  · rw [if_pos empty] at found ⊢
    exact found.none_mul
  · rw [if_neg empty] at found ⊢
    rw [← parts] at found ⊢
    exact Longest.mul_optional found (finds_takeExponent rest) fun q mem => Form.exponent_apart found.mem mem

end Reading

end Numeral
end EmojiLang
