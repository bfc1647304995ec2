/-!
# Rounding quotients

* `roundHalfEven`: the whole number nearest to a quotient, of two equally near the even one.
* `roundHalfEven_near`: it is at most half a unit away.
* `roundHalfEven_even`: at half a unit it is even.
-/

namespace SolText.Number

/-- The whole number nearest to `num / den`; halfway between two it is the even one. -/
def roundHalfEven (num den : Nat) : Nat :=
  let quotient := num / den
  let twice := 2 * (num % den)
  if twice < den then quotient
  else if den < twice then quotient + 1
  else quotient + quotient % 2

theorem roundHalfEven_near (num den : Nat) (h : 0 < den) :
    2 * (roundHalfEven num den * den) ≤ 2 * num + den ∧
      2 * num ≤ 2 * (roundHalfEven num den * den) + den := by
  have hsum : den * (num / den) + num % den = num := Nat.div_add_mod num den
  have hlt : num % den < den := Nat.mod_lt num h
  have hq : num / den * den = den * (num / den) := Nat.mul_comm ..
  have hq1 : (num / den + 1) * den = den * (num / den) + den := by
    rw [Nat.add_mul, Nat.one_mul, hq]
  simp only [roundHalfEven]
  split
  · omega
  · split
    · omega
    · rcases Nat.mod_two_eq_zero_or_one (num / den) with hp | hp
      · rw [hp, Nat.add_zero]
        omega
      · rw [hp]
        omega

theorem roundHalfEven_even (num den : Nat) (h : 2 * (num % den) = den) :
    roundHalfEven num den % 2 = 0 := by
  simp only [roundHalfEven, h, Nat.lt_irrefl, if_false]
  omega

end SolText.Number
