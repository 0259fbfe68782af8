/-!
# Powers and rounded quotients

`twoTo` and `tenTo` are the powers by which digits are shifted.  `roundDiv n d` is the natural number
nearest to `n / d`; a quotient in the middle between two numbers goes to the even one.

**Results.** `roundDiv_bounds` says that the result is off by at most half a unit, and
`roundDiv_mul` that an exact quotient is kept.
-/

namespace EmojiLang
namespace Number

/-- The power of two with exponent `n`. -/
def twoTo (n : Nat) : Nat := Nat.pow 2 n

/-- The power of ten with exponent `n`. -/
def tenTo (n : Nat) : Nat := Nat.pow 10 n

/-- The number nearest to `n / d`, the even one of two that are equally near. -/
def roundDiv (n d : Nat) : Nat :=
  let quotient := n / d
  let twice := 2 * (n % d)
  if twice < d then quotient
  else if d < twice then quotient + 1
  else quotient + quotient % 2

/-- The rounded quotient is at most half a unit away from the exact one. -/
theorem roundDiv_bounds {d : Nat} (positive : 0 < d) (n : Nat) :
    2 * n ≤ 2 * (d * roundDiv n d) + d ∧ 2 * (d * roundDiv n d) ≤ 2 * n + d := by
  have split := Nat.div_add_mod n d
  have small := Nat.mod_lt n positive
  have step : d * (n / d + 1) = d * (n / d) + d := Nat.mul_add_one d (n / d)
  simp only [roundDiv]
  by_cases below : 2 * (n % d) < d
  · simp only [below, if_true]
    omega
  · by_cases above : d < 2 * (n % d)
    · simp only [below, above, if_true, if_false]
      omega
    · simp only [below, above, if_false]
      rcases Nat.mod_two_eq_zero_or_one (n / d) with parity | parity <;>
        simp only [parity, Nat.add_zero] <;> omega

/-- An exact quotient is not changed. -/
theorem roundDiv_mul {d : Nat} (positive : 0 < d) (n : Nat) :
    roundDiv (n * d) d = n := by
  simp [roundDiv, Nat.mul_div_cancel n positive, positive]

end Number
end EmojiLang
