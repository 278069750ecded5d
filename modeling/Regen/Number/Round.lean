/-! # Rounding of quotients

    A quotient of natural numbers is rounded to the nearest natural number; a tie goes to the
    even neighbour. -/

namespace Regen.Number

/-- `num / den` rounded to the nearest natural number, a tie to the even neighbour. -/
def roundHalfEven (num den : Nat) : Nat :=
  let q := num / den
  let r := num % den
  if den < 2 * r || (2 * r == den && q % 2 == 1) then q + 1 else q

/-- The rounded quotient is the lower or the upper neighbour. -/
theorem roundHalfEven_eq (num den : Nat) :
    roundHalfEven num den = num / den ∨ roundHalfEven num den = num / den + 1 := by
  simp only [roundHalfEven]
  split <;> simp

/-- The rounded quotient is at most half a unit away. -/
theorem roundHalfEven_close {num den : Nat} (h : 0 < den) :
    2 * num ≤ (2 * roundHalfEven num den + 1) * den ∧
      2 * roundHalfEven num den * den ≤ 2 * num + den := by
  have hdiv := Nat.div_add_mod num den
  have hmod := Nat.mod_lt num h
  have hq : 2 * (num / den) * den = 2 * (den * (num / den)) := by
    rw [Nat.mul_assoc, Nat.mul_comm (num / den)]
  simp only [roundHalfEven]
  split
  · rename_i hup
    have hr : den ≤ 2 * (num % den) := by
      simp only [Bool.or_eq_true, decide_eq_true_eq, Bool.and_eq_true, beq_iff_eq] at hup
      omega
    constructor
    · have : (2 * (num / den + 1) + 1) * den = 2 * (num / den) * den + 3 * den := by
        rw [← Nat.add_mul]; congr 1
      omega
    · have : 2 * (num / den + 1) * den = 2 * (num / den) * den + 2 * den := by
        rw [← Nat.add_mul]; congr 1
      omega
  · rename_i hdown
    have hr : 2 * (num % den) ≤ den := by
      simp only [Bool.or_eq_true, decide_eq_true_eq, Bool.and_eq_true, beq_iff_eq] at hdown
      omega
    constructor
    · have : (2 * (num / den) + 1) * den = 2 * (num / den) * den + den := by
        rw [Nat.add_mul, Nat.one_mul]
      omega
    · omega

/-- A quotient without remainder is kept. -/
theorem roundHalfEven_mul {n den : Nat} (h : 0 < den) : roundHalfEven (n * den) den = n := by
  have h0 : ¬ den = 0 := by omega
  simp [roundHalfEven, Nat.mul_div_cancel n h, h0, Ne.symm]

/-- The number of decimal digits of a natural number; zero has one. -/
def digitCount (n : Nat) : Nat :=
  (Nat.toDigits 10 n).length

end Regen.Number
