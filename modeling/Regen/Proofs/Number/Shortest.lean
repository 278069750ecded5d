import Mathlib.Algebra.Order.Field.Power
import Mathlib.Data.List.TakeWhile
import Mathlib.Tactic.FieldSimp
import Mathlib.Tactic.Positivity
import Regen.Number.Decimal
import Regen.Proofs.Number.Digits
import Regen.Proofs.Number.Quotient
import Regen.Proofs.Value.Data

/-! # Shortest digits

    A quotient in the rounding interval of a number is rounded to that number, on whichever scale
    the rounding takes place: below a power of two the scale is one step finer.  Seventeen digits
    always reach into the interval, so the search for the fewest that do so ends, and whatever it
    finds is rounded to the number again. -/

namespace Regen.Number

/-! ## Numbers nearest to a quotient -/

/-- **A number is nearest to a quotient** at most half a unit away; of two that are as near it is
    the even one. -/
theorem roundHalfEven_of_near {num den m : Nat} (hden : 0 < den)
    (hlow : (m : ℚ) - 1 / 2 ≤ num / den) (hhigh : (num / den : ℚ) ≤ m + 1 / 2)
    (heven : m % 2 = 0 ∨ ((m : ℚ) - 1 / 2 < num / den ∧ (num / den : ℚ) < m + 1 / 2)) :
    roundHalfEven num den = m := by
  have hden' : (0 : ℚ) < den := by exact_mod_cast hden
  have hlow' : 2 * m * den ≤ 2 * num + den := by
    rw [le_div_iff₀ hden'] at hlow
    have : (2 * m * den : ℚ) ≤ 2 * num + den := by linarith
    exact_mod_cast this
  have hhigh' : 2 * num ≤ (2 * m + 1) * den := by
    rw [div_le_iff₀ hden'] at hhigh
    have : (2 * num : ℚ) ≤ (2 * m + 1) * den := by linarith
    exact_mod_cast this
  have heven' : m % 2 = 0 ∨ 2 * m * den < 2 * num + den ∧ 2 * num < (2 * m + 1) * den := by
    refine heven.imp id fun ⟨hl, hh⟩ => ⟨?_, ?_⟩
    · rw [lt_div_iff₀ hden'] at hl
      have : (2 * m * den : ℚ) < 2 * num + den := by linarith
      exact_mod_cast this
    · rw [div_lt_iff₀ hden'] at hh
      have : (2 * num : ℚ) < (2 * m + 1) * den := by linarith
      exact_mod_cast this
  obtain ⟨hbelow, habove⟩ := @roundHalfEven_close num den hden
  have hle : roundHalfEven num den ≤ m + 1 := by
    by_contra hmore
    have := Nat.mul_le_mul_right den (by omega : m + 2 ≤ roundHalfEven num den)
    nlinarith
  have hge : m ≤ roundHalfEven num den + 1 := by
    by_contra hless
    have := Nat.mul_le_mul_right den (by omega : roundHalfEven num den + 2 ≤ m)
    nlinarith
  by_contra hne
  -- A neighbour is as near only if the quotient is half way, and then the even one is taken.
  rcases (by omega : roundHalfEven num den = m + 1 ∨ m = roundHalfEven num den + 1) with h | h
  · rw [h] at habove
    have hhalf : 2 * num = (2 * m + 1) * den := by nlinarith
    have := roundHalfEven_half hden hhalf
    rcases heven' with heven' | ⟨-, hstrict⟩ <;> omega
  · have hhalf : 2 * num = (2 * roundHalfEven num den + 1) * den := by
      rw [h] at hlow'
      nlinarith
    have := roundHalfEven_half hden hhalf
    rcases heven' with heven' | ⟨hstrict, -⟩
    · omega
    · rw [h] at hstrict
      nlinarith

/-! ## Scales -/

theorem scaleRatio_rat (num den : Nat) (e : Int) :
    ((Binary64.scaleRatio num den e).1 / (Binary64.scaleRatio num den e).2 : ℚ) =
      num / den / 2 ^ e := by
  rw [Binary64.scaleRatio_eq]
  have hpower : (2 : ℚ) ^ e = 2 ^ e.toNat / 2 ^ (-e).toNat := by
    rw [← zpow_natCast, ← zpow_natCast, ← zpow_sub₀ two_ne_zero]
    congr 1
    omega
  push_cast
  rw [hpower]
  field_simp

theorem scaleRatio_pos {den : Nat} (hden : 0 < den) {num : Nat} (e : Int) :
    0 < (Binary64.scaleRatio num den e).2 := by
  rw [Binary64.scaleRatio_eq]
  exact Nat.mul_pos hden (Nat.two_pow_pos _)

theorem magnitude_rat (m : Nat) (e : Int) :
    ((Binary64.magnitude m e).1 / (Binary64.magnitude m e).2 : ℚ) = m * 2 ^ e := by
  unfold Binary64.magnitude
  split
  · next h =>
    obtain ⟨n, rfl⟩ := Int.eq_ofNat_of_zero_le h
    simp
  · next h =>
    obtain ⟨n, hn⟩ := Int.eq_ofNat_of_zero_le (by omega : 0 ≤ -e)
    obtain rfl : e = -(n : Int) := by omega
    simp [div_eq_mul_inv]

theorem binaryExponent_rat {num den : Nat} (hnum : 0 < num) (hden : 0 < den) :
    (2 : ℚ) ^ Binary64.binaryExponent num den ≤ num / den ∧
      (num / den : ℚ) < 2 ^ (Binary64.binaryExponent num den + 1) := by
  generalize he : Binary64.binaryExponent num den = e
  have hden' : (0 : ℚ) < den := by exact_mod_cast hden
  obtain ⟨hlow, hhigh⟩ := Binary64.binaryExponent_spec (p := e.toNat) (q := (-e).toNat) hnum hden
    (by omega)
  have hpower : ∀ k : Nat, (2 : ℚ) ^ (e + k) = 2 ^ (e.toNat + k) / 2 ^ (-e).toNat := by
    intro k
    rw [← zpow_natCast, ← zpow_natCast, ← zpow_sub₀ two_ne_zero]
    congr 1
    omega
  have hpos : (0 : ℚ) < 2 ^ (-e).toNat := by positivity
  constructor
  · have hcast : (den * 2 ^ e.toNat : ℚ) ≤ num * 2 ^ (-e).toNat := by exact_mod_cast hlow
    have := hpower 0
    rw [Nat.cast_zero, add_zero, add_zero] at this
    rw [this, div_le_div_iff₀ hpos hden']
    linarith
  · have hcast : (num * 2 ^ (-e).toNat : ℚ) < den * 2 ^ (e.toNat + 1) := by exact_mod_cast hhigh
    have := hpower 1
    rw [Nat.cast_one] at this
    rw [this, div_lt_div_iff₀ hden' hpos]
    linarith

/-! ## Rounding intervals -/

/-- Does a quotient lie in the interval? -/
def RoundingInterval.Contains (i : RoundingInterval) (x : ℚ) : Prop :=
  ((i.low / i.den : ℚ) ≤ x ∧ x ≤ i.high / i.den) ∧
    (i.closed = true ∨ (i.low / i.den : ℚ) < x ∧ x < i.high / i.den)

theorem RoundingInterval.holds_iff {i : RoundingInterval} {num den : Nat} (hi : 0 < i.den)
    (hden : 0 < den) : i.holds num den = true ↔ i.Contains (num / den) := by
  have hi' : (0 : ℚ) < i.den := by exact_mod_cast hi
  have hden' : (0 : ℚ) < den := by exact_mod_cast hden
  rw [holds, Contains, div_le_div_iff₀ hi' hden', div_le_div_iff₀ hden' hi',
    div_lt_div_iff₀ hi' hden', div_lt_div_iff₀ hden' hi']
  norm_cast
  split
  · next hclosed => simp [hclosed]
  · next hopen =>
    simp only [hopen, Bool.false_eq_true, Bool.and_eq_true, decide_eq_true_eq, false_or]
    omega

/-- The mantissa and the exponent of a positive number. -/
structure IsFinite (m : Nat) (e : Int) : Prop where
  positive : 0 < m
  mantissa : m < 2 ^ 53
  low : -1074 ≤ e
  high : e ≤ 971
  normal : 2 ^ 52 ≤ m ∨ e = -1074

/-- How many quarters of a unit the interval reaches below the number. -/
def quartersBelow (m : Nat) (e : Int) : ℚ :=
  if m != 2 ^ 52 || e == -1074 then 2 else 1

section nearest
variable {m : Nat} {e : Int}

/-- The unit of the numerators is a quarter of the last place. -/
theorem roundingInterval_fields (m : Nat) (e : Int) :
    ∃ unit : Nat, ((unit / (roundingInterval m e).den : ℚ) = 2 ^ e / 4) ∧
      (roundingInterval m e).low =
        (if m != 2 ^ 52 || e == -1074 then 4 * m - 2 else 4 * m - 1) * unit ∧
      (roundingInterval m e).value = 4 * m * unit ∧
      (roundingInterval m e).high = (4 * m + 2) * unit ∧ 0 < (roundingInterval m e).den := by
  have hunit := magnitude_rat 1 (e - 2)
  have hden : 0 < (Binary64.magnitude 1 (e - 2)).2 := by
    unfold Binary64.magnitude
    split
    · exact Nat.one_pos
    · exact Nat.two_pow_pos _
  rw [zpow_sub₀ two_ne_zero, Nat.cast_one, one_mul, show ((2 : ℚ) ^ (2 : Int)) = 4 by norm_num]
    at hunit
  unfold roundingInterval
  generalize Binary64.magnitude 1 (e - 2) = pair at hunit hden ⊢
  exact ⟨pair.1, hunit, rfl, rfl, rfl, hden⟩

/-- The ends of a number's interval in units of its last place. -/
theorem roundingInterval_rat (hm : 0 < m) :
    ((roundingInterval m e).low / (roundingInterval m e).den : ℚ) =
        (m - quartersBelow m e / 4) * 2 ^ e ∧
      ((roundingInterval m e).high / (roundingInterval m e).den : ℚ) = (m + 1 / 2) * 2 ^ e ∧
      ((roundingInterval m e).value / (roundingInterval m e).den : ℚ) = m * 2 ^ e := by
  obtain ⟨unit, hunit, hlow, hvalue, hhigh, -⟩ := roundingInterval_fields m e
  have hcast : (((if m != 2 ^ 52 || e == -1074 then 4 * m - 2 else 4 * m - 1 : Nat)) : ℚ) =
      4 * m - quartersBelow m e := by
    rw [quartersBelow]
    split
    · push_cast [show 2 ≤ 4 * m by omega]
      ring
    · push_cast [show 1 ≤ 4 * m by omega]
      ring
  refine ⟨?_, ?_, ?_⟩
  · rw [hlow, Nat.cast_mul, hcast, mul_div_assoc, hunit]
    ring
  · rw [hhigh, Nat.cast_mul, mul_div_assoc, hunit]
    push_cast
    ring
  · rw [hvalue, Nat.cast_mul, mul_div_assoc, hunit]
    push_cast
    ring

theorem quartersBelow_cases (m : Nat) (e : Int) :
    quartersBelow m e = 2 ∨ quartersBelow m e = 1 ∧ m = 2 ^ 52 ∧ e ≠ -1074 := by
  rw [quartersBelow]
  split
  · exact .inl rfl
  · next h =>
    simp only [Bool.or_eq_true, bne_iff_ne, beq_iff_eq, not_or, not_not] at h
    exact .inr ⟨rfl, h⟩

theorem quartersBelow_bounds (m : Nat) (e : Int) : 1 ≤ quartersBelow m e ∧ quartersBelow m e ≤ 2 := by
  rcases quartersBelow_cases m e with h | ⟨h, -⟩ <;> norm_num [h]

/-- A quotient in the interval, in units of the last place. -/
theorem RoundingInterval.Contains.scaled {x : ℚ} (hfinite : IsFinite m e)
    (h : (roundingInterval m e).Contains x) :
    (m - quartersBelow m e / 4 ≤ x / 2 ^ e ∧ x / 2 ^ e ≤ m + 1 / 2) ∧
      (m % 2 = 0 ∨ m - quartersBelow m e / 4 < x / 2 ^ e ∧ x / 2 ^ e < m + 1 / 2) := by
  obtain ⟨hlow, hhigh, -⟩ := roundingInterval_rat (e := e) hfinite.positive
  have hunit : (0 : ℚ) < 2 ^ e := by positivity
  rw [Contains, hlow, hhigh] at h
  rw [le_div_iff₀ hunit, div_le_iff₀ hunit, lt_div_iff₀ hunit, div_lt_iff₀ hunit]
  refine ⟨h.1, h.2.imp (fun hclosed => ?_) id⟩
  have heven : (m % 2 == 0) = true := hclosed
  exact beq_iff_eq.mp heven

/-- Everything in the interval of a number is positive. -/
theorem RoundingInterval.Contains.pos {x : ℚ} (hfinite : IsFinite m e)
    (h : (roundingInterval m e).Contains x) : 2 ^ e / 2 ≤ x ∧ x ≤ (m + 1 / 2) * 2 ^ e := by
  obtain ⟨⟨hlow, hhigh⟩, -⟩ := h.scaled hfinite
  have hunit : (0 : ℚ) < 2 ^ e := by positivity
  have hone : (1 : ℚ) ≤ m := by exact_mod_cast hfinite.positive
  have hquarters := (quartersBelow_bounds m e).2
  rw [le_div_iff₀ hunit] at hlow
  rw [div_le_iff₀ hunit] at hhigh
  refine ⟨le_trans ?_ hlow, hhigh⟩
  rw [div_eq_inv_mul]
  exact mul_le_mul_of_nonneg_right (by linarith) hunit.le

/-- What a quotient is rounded to, on the scale that its exponent gives. -/
theorem ofRatio_of_round (negative : Bool) {num den r : Nat} (hnum : 0 < num)
    (he : max (Binary64.binaryExponent num den - 52) (-1074) = e)
    (hr : roundHalfEven (Binary64.scaleRatio num den e).1 (Binary64.scaleRatio num den e).2 = r)
    (hpos : 0 < r) :
    (r < 2 ^ 53 → e ≤ 971 → Binary64.ofRatio negative num den = .finite negative r e) ∧
      (r = 2 ^ 53 → e + 1 ≤ 971 →
        Binary64.ofRatio negative num den = .finite negative (2 ^ 52) (e + 1)) := by
  have hzero : num ≠ 0 := Nat.pos_iff_ne_zero.mp hnum
  constructor
  · intro hless hhigh
    simp only [Binary64.ofRatio, if_neg hzero, he, hr, Nat.pow_eq, if_neg (Nat.ne_of_lt hless)]
    rw [if_neg (Nat.pos_iff_ne_zero.mp hpos), if_neg (Int.not_lt.mpr hhigh)]
  · intro hcarry hhigh
    simp only [Binary64.ofRatio, if_neg hzero, he, hr, Nat.pow_eq, if_pos hcarry]
    rw [if_neg (Nat.two_pow_pos 52).ne', if_neg (Int.not_lt.mpr hhigh)]

theorem two_zpow_add (e k : Int) : (2 : ℚ) ^ (e + k) = 2 ^ k * 2 ^ e := by
  rw [add_comm, zpow_add₀ two_ne_zero]

section contains
variable {num den : Nat} (hfinite : IsFinite m e) (negative : Bool) (hden : 0 < den)
  (h : (roundingInterval m e).Contains (num / den))
include hfinite hden h

/-- A quotient in the interval has no more bits before the scale than a mantissa. -/
theorem binaryExponent_of_contains :
    0 < num ∧ Binary64.binaryExponent num den < e + 53 := by
  obtain ⟨hlow, hhigh⟩ := h.pos hfinite
  have hunit : (0 : ℚ) < 2 ^ e := by positivity
  have hden' : (0 : ℚ) < den := by exact_mod_cast hden
  have hnum : 0 < num := by
    have hpos : (0 : ℚ) < num / den := lt_of_lt_of_le (by positivity) hlow
    rw [lt_div_iff₀ hden', zero_mul] at hpos
    exact_mod_cast hpos
  have hmantissa : (m : ℚ) + 1 ≤ 2 ^ 53 := by exact_mod_cast hfinite.mantissa
  have hless : (2 : ℚ) ^ Binary64.binaryExponent num den < 2 ^ (e + 53) :=
    calc (2 : ℚ) ^ Binary64.binaryExponent num den
      _ ≤ num / den := (binaryExponent_rat hnum hden).1
      _ ≤ (m + 1 / 2) * 2 ^ e := hhigh
      _ < 2 ^ (53 : Int) * 2 ^ e :=
        mul_lt_mul_of_pos_right (by norm_num at hmantissa ⊢; linarith) hunit
      _ = 2 ^ (e + 53) := (two_zpow_add e 53).symm
  exact ⟨hnum, (zpow_lt_zpow_iff_right₀ one_lt_two).mp hless⟩

/-- On the scale of the number a quotient in its interval is rounded to its mantissa. -/
theorem ofRatio_of_reached (hcase : (2 : ℚ) ^ (e + 52) ≤ num / den ∨ e = -1074) :
    Binary64.ofRatio negative num den = .finite negative m e := by
  obtain ⟨hnum, hbelow⟩ := binaryExponent_of_contains hfinite hden h
  obtain ⟨⟨hlow, hhigh⟩, hstrict⟩ := h.scaled hfinite
  have hnext := (binaryExponent_rat hnum hden).2
  have hquarters := (quartersBelow_bounds m e).2
  have hscale : max (Binary64.binaryExponent num den - 52) (-1074) = e := by
    have := hfinite.low
    rcases hcase with hreach | hleast
    · have := (zpow_lt_zpow_iff_right₀ one_lt_two).mp (hreach.trans_lt hnext)
      omega
    · omega
  have hround : roundHalfEven (Binary64.scaleRatio num den e).1
      (Binary64.scaleRatio num den e).2 = m := by
    refine roundHalfEven_of_near (scaleRatio_pos hden e) ?_ ?_ (hstrict.imp id fun h => ?_)
    all_goals rw [scaleRatio_rat]
    · linarith
    · exact hhigh
    · exact ⟨by linarith, h.2⟩
  exact (ofRatio_of_round negative hnum hscale hround hfinite.positive).1 hfinite.mantissa
    hfinite.high

/-- Below a power of two the scale is one step finer, and the quotient is rounded up to the
    power. -/
theorem ofRatio_of_not_reached (hbelow : (num / den : ℚ) < 2 ^ (e + 52)) (hleast : e ≠ -1074) :
    Binary64.ofRatio negative num den = .finite negative m e := by
  have hnum := (binaryExponent_of_contains hfinite hden h).1
  obtain ⟨⟨hlow, -⟩, -⟩ := h.scaled hfinite
  obtain ⟨hexponent, hnext⟩ := binaryExponent_rat hnum hden
  have hunit : (0 : ℚ) < 2 ^ e := by positivity
  have hquarters := (quartersBelow_bounds m e).2
  have hless : (num / den / 2 ^ e : ℚ) < 2 ^ 52 := by
    rw [div_lt_iff₀ hunit]
    exact hbelow.trans_eq (two_zpow_add e 52)
  have hpower : m = 2 ^ 52 := by
    by_contra hne
    have hnormal := hfinite.normal.resolve_right hleast
    have : (2 ^ 52 : ℚ) + 1 ≤ m := by exact_mod_cast (by omega : 2 ^ 52 + 1 ≤ m)
    linarith
  have hquarter : quartersBelow m e = 1 := by
    rw [quartersBelow, if_neg]
    simp [hpower, hleast]
  rw [hquarter, hpower] at hlow
  push_cast at hlow
  have hstep : Binary64.binaryExponent num den = e + 51 := by
    have hreach : (2 : ℚ) ^ (e + 51) < 2 ^ (Binary64.binaryExponent num den + 1) := by
      refine lt_of_le_of_lt ?_ hnext
      rw [two_zpow_add, ← le_div_iff₀ hunit]
      norm_num at hlow ⊢
      linarith
    have h₁ := (zpow_lt_zpow_iff_right₀ one_lt_two).mp hreach
    have h₂ := (zpow_lt_zpow_iff_right₀ one_lt_two).mp (hexponent.trans_lt hbelow)
    omega
  have hscale : max (Binary64.binaryExponent num den - 52) (-1074) = e - 1 := by
    have := hfinite.low
    omega
  have hhalf : (num / den / 2 ^ (e - 1) : ℚ) = 2 * (num / den / 2 ^ e) := by
    rw [zpow_sub₀ two_ne_zero, zpow_one]
    field_simp
  have hround : roundHalfEven (Binary64.scaleRatio num den (e - 1)).1
      (Binary64.scaleRatio num den (e - 1)).2 = 2 ^ 53 := by
    refine roundHalfEven_of_near (scaleRatio_pos hden _) ?_ ?_ (.inl (by decide))
    all_goals rw [scaleRatio_rat, hhalf]
    all_goals push_cast
    · linarith
    · linarith
  have hresult := (ofRatio_of_round negative hnum hscale hround (Nat.two_pow_pos 53)).2 rfl
    (by have := hfinite.high; omega)
  rw [hresult, hpower, Int.sub_add_cancel]

/-- **A quotient in the interval of a number is rounded to the number.** -/
theorem ofRatio_of_contains : Binary64.ofRatio negative num den = .finite negative m e := by
  by_cases hcase : (2 : ℚ) ^ (e + 52) ≤ num / den ∨ e = -1074
  · exact ofRatio_of_reached hfinite negative hden h hcase
  · rw [not_or, not_le] at hcase
    exact ofRatio_of_not_reached hfinite negative hden h hcase.1 hcase.2

end contains

end nearest

/-! ## Decimal exponents -/

theorem digitCount_bounds {n : Nat} (hn : 0 < n) :
    10 ^ (digitCount n - 1) ≤ n ∧ n < 10 ^ digitCount n := by
  have hpos : 0 < digitCount n := Nat.length_toDigits_pos
  constructor
  · by_cases hone : digitCount n = 1
    · rw [hone]
      exact hn
    · refine Nat.le_of_not_lt fun hless => ?_
      have := (Nat.length_toDigits_le_iff (by decide) (by omega)).mpr hless
      rw [← digitCount] at this
      omega
  · exact (Nat.length_toDigits_le_iff (by decide) hpos).mp (Nat.le_refl _)

/-- **The decimal exponent of a quotient.** -/
theorem decimalExponent_rat {num den : Nat} (hnum : 0 < num) (hden : 0 < den) :
    (10 : ℚ) ^ (decimalExponent num den - 1) ≤ num / den ∧
      (num / den : ℚ) < 10 ^ decimalExponent num den := by
  have hnum' : (0 : ℚ) < num := by exact_mod_cast hnum
  have hden' : (0 : ℚ) < den := by exact_mod_cast hden
  have hpos : ∀ n : Nat, 0 < digitCount n := fun n => Nat.length_toDigits_pos
  unfold decimalExponent
  split
  · next hle =>
    -- A quotient from one on has as many digits as its integer part.
    obtain ⟨hlow, hhigh⟩ := digitCount_bounds (Nat.div_pos hle hden)
    generalize hk : digitCount (num / den) = k at hlow hhigh
    have hk' : 0 < k := hk ▸ hpos _
    constructor
    · rw [show (k : Int) - 1 = (k - 1 : Nat) by omega, zpow_natCast, le_div_iff₀ hden']
      have := (Nat.le_div_iff_mul_le hden).mp hlow
      exact_mod_cast this
    · rw [zpow_natCast, div_lt_iff₀ hden']
      have := (Nat.div_lt_iff_lt_mul hden).mp hhigh
      exact_mod_cast this
  · next hless =>
    -- Below one it is the reciprocal that has them.
    generalize ht : (den + num - 1) / num - 1 = t
    have hceil := Nat.div_add_mod (den + num - 1) num
    have hmod := Nat.mod_lt (den + num - 1) hnum
    obtain ⟨c, hc⟩ : ∃ c, c = (den + num - 1) / num := ⟨_, rfl⟩
    rw [← hc] at hceil ht
    have hover : den ≤ num * c := by omega
    have htwo : 2 ≤ c := by
      by_contra hsmall
      have := Nat.mul_le_mul_left num (by omega : c ≤ 1)
      omega
    have hunder : num * t < den := by
      have : num * c = num * t + num := by rw [← ht, ← Nat.mul_succ, Nat.succ_eq_add_one,
        Nat.sub_add_cancel (by omega)]
      omega
    obtain ⟨hlow, hhigh⟩ := digitCount_bounds (by omega : 0 < t)
    generalize hk : digitCount t = k at hlow hhigh
    have hk' : 0 < k := hk ▸ hpos _
    constructor
    · rw [show (1 - (k : Int)) - 1 = -(k : Int) by omega, zpow_neg, zpow_natCast,
        inv_le_iff_one_le_mul₀ (by positivity), div_mul_eq_mul_div, le_div_iff₀ hden', one_mul]
      have : den ≤ num * 10 ^ k := hover.trans (Nat.mul_le_mul_left _ (by omega))
      exact_mod_cast this
    · rw [show 1 - (k : Int) = -((k - 1 : Nat) : Int) by omega, zpow_neg, zpow_natCast,
        lt_inv_comm₀ (by positivity) (by positivity), inv_div, lt_div_iff₀ hnum']
      have : 10 ^ (k - 1) * num < den :=
        (Nat.mul_comm _ num ▸ Nat.mul_le_mul_left num hlow).trans_lt hunder
      exact_mod_cast this

/-! ## The grid -/

section grid
variable {i : RoundingInterval} {p : Int} {count d : Nat}

/-- The unit of a grid as a quotient. -/
theorem gridUnit_rat (p : Int) (count : Nat) :
    ∃ unit unitDen : Nat, (if 0 ≤ p - count then (Nat.pow 10 (p - count).toNat, 1)
        else (1, Nat.pow 10 (count - p).toNat)) = (unit, unitDen) ∧ 0 < unit ∧ 0 < unitDen ∧
      (unit / unitDen : ℚ) = 10 ^ (p - count) := by
  split
  · next h =>
    refine ⟨_, _, rfl, Nat.pow_pos (by decide), Nat.one_pos, ?_⟩
    obtain ⟨n, hn⟩ := Int.eq_ofNat_of_zero_le h
    rw [hn]
    simp
  · next h =>
    refine ⟨_, _, rfl, Nat.one_pos, Nat.pow_pos (by decide), ?_⟩
    obtain ⟨n, hn⟩ := Int.eq_ofNat_of_zero_le (by omega : 0 ≤ (count : Int) - p)
    rw [hn, show p - count = -(n : Int) by omega]
    simp

/-- The lower neighbour on a grid, and what is found there: a neighbour in the interval, and if
    none is found, neither neighbour lies in it. -/
theorem gridDigits?_spec (hi : 0 < i.den) (p : Int) (count : Nat) :
    ∃ below : Nat, (below : ℚ) * 10 ^ (p - count) ≤ i.value / i.den ∧
      (i.value / i.den : ℚ) < (below + 1 : Nat) * 10 ^ (p - count) ∧
      (∀ d, gridDigits? i p count = some d → i.Contains (d * 10 ^ (p - count))) ∧
      (gridDigits? i p count = none → ¬i.Contains (below * 10 ^ (p - count)) ∧
        ¬i.Contains ((below + 1 : Nat) * 10 ^ (p - count))) := by
  obtain ⟨unit, unitDen, hpair, hunit, hunitDen, hrat⟩ := gridUnit_rat p count
  have hunit' : (0 : ℚ) < unit := by exact_mod_cast hunit
  have hunitDen' : (0 : ℚ) < unitDen := by exact_mod_cast hunitDen
  have hi' : (0 : ℚ) < i.den := by exact_mod_cast hi
  have hholds : ∀ d : Nat, i.holds (d * unit) unitDen = true ↔ i.Contains (d * 10 ^ (p - count)) := by
    intro d
    rw [RoundingInterval.holds_iff hi hunitDen, Nat.cast_mul, mul_div_assoc, hrat]
  refine ⟨i.value * unitDen / (i.den * unit), ?_, ?_, ?_, ?_⟩
  · rw [← hrat, mul_div_assoc', div_le_div_iff₀ hunitDen' hi']
    have := Nat.div_mul_le_self (i.value * unitDen) (i.den * unit)
    rw [← Nat.mul_assoc, Nat.mul_right_comm] at this
    exact_mod_cast this
  · rw [← hrat, mul_div_assoc', div_lt_div_iff₀ hi' hunitDen']
    have := Nat.lt_div_mul_add (a := i.value * unitDen) (Nat.mul_pos hi hunit)
    rw [← Nat.succ_mul, ← Nat.mul_assoc, Nat.mul_right_comm] at this
    exact_mod_cast this
  · intro d hd
    rw [← hholds]
    simp only [gridDigits?, hpair] at hd
    split at hd
    · next hlow hhigh =>
      cases hd
      rcases roundHalfEven_eq (i.value * unitDen) (i.den * unit) with h | h <;> rw [h]
      · exact hlow
      · exact hhigh
    · next hlow _ =>
      cases hd
      exact hlow
    · next _ hhigh =>
      cases hd
      exact hhigh
    · cases hd
  · intro hnone
    rw [← hholds, ← hholds]
    simp only [gridDigits?, hpair] at hnone
    split at hnone
    · cases hnone
    · cases hnone
    · cases hnone
    · next hlow hhigh =>
      rw [hlow, hhigh]
      exact ⟨Bool.false_ne_true, Bool.false_ne_true⟩

end grid

/-- The search ends at the latest on a grid that has digits in the interval. -/
theorem shortestFrom_spec (i : RoundingInterval) (p : Int) {n fuel count : Nat} (hle : count ≤ n)
    (hn : n < count + fuel) (h : gridDigits? i p n ≠ none) :
    ∃ d count', shortestFrom i p fuel count = (d, count') ∧ gridDigits? i p count' = some d := by
  induction fuel generalizing count with
  | zero => omega
  | succ fuel ih =>
    rw [shortestFrom]
    cases hgrid : gridDigits? i p count with
    | some d => exact ⟨d, count, rfl, hgrid⟩
    | none =>
      have hne : count ≠ n := by
        rintro rfl
        exact h hgrid
      exact ih (by omega) (by omega)

section shortest
variable {m : Nat} {e : Int}

/-- A grid without digits in the interval of a number is coarser than the interval is long. -/
theorem length_le_of_no_digits (hfinite : IsFinite m e) {p : Int} {count : Nat}
    (hnone : gridDigits? (roundingInterval m e) p count = none) :
    (1 / 2 + quartersBelow m e / 4) * 2 ^ e ≤ (10 : ℚ) ^ (p - count) := by
  obtain ⟨-, -, -, -, -, hden⟩ := roundingInterval_fields m e
  obtain ⟨hlow, hhigh, hvalue⟩ := roundingInterval_rat (e := e) hfinite.positive
  obtain ⟨below, hbelow, habove, -, hmissed⟩ := gridDigits?_spec hden p count
  obtain ⟨hfirst, hsecond⟩ := hmissed hnone
  rw [hvalue] at hbelow habove
  rw [RoundingInterval.Contains, hlow, hhigh] at hfirst hsecond
  have hunit : (0 : ℚ) < 2 ^ e := by positivity
  have hquarters := (quartersBelow_bounds m e).1
  have hinside : (m - quartersBelow m e / 4) * 2 ^ e < (m : ℚ) * 2 ^ e ∧
      (m : ℚ) * 2 ^ e < (m + 1 / 2) * 2 ^ e :=
    ⟨mul_lt_mul_of_pos_right (by linarith) hunit, mul_lt_mul_of_pos_right (by linarith) hunit⟩
  -- The neighbours lie on both sides of the interval.
  have hleft : (below : ℚ) * 10 ^ (p - count) ≤ (m - quartersBelow m e / 4) * 2 ^ e := by
    by_contra hin
    rw [not_le] at hin
    have : (below : ℚ) * 10 ^ (p - count) < (m + 1 / 2) * 2 ^ e := hbelow.trans_lt hinside.2
    exact hfirst ⟨⟨hin.le, this.le⟩, .inr ⟨hin, this⟩⟩
  have hright : (m + 1 / 2) * 2 ^ e ≤ ((below + 1 : Nat) : ℚ) * 10 ^ (p - count) := by
    by_contra hin
    rw [not_le] at hin
    have : (m - quartersBelow m e / 4) * 2 ^ e < ((below + 1 : Nat) : ℚ) * 10 ^ (p - count) :=
      hinside.1.trans habove
    exact hsecond ⟨⟨this.le, hin.le⟩, .inr ⟨this, hin⟩⟩
  push_cast at hright
  linarith

/-- **Seventeen digits suffice**: the grid's unit is less than the length of the interval. -/
theorem exists_gridDigits (hfinite : IsFinite m e) :
    gridDigits? (roundingInterval m e)
      (decimalExponent (roundingInterval m e).value (roundingInterval m e).den) 17 ≠ none := by
  intro hnone
  obtain ⟨-, -, -, -, -, hden⟩ := roundingInterval_fields m e
  obtain ⟨-, -, hvalue⟩ := roundingInterval_rat (e := e) hfinite.positive
  have hunit : (0 : ℚ) < 2 ^ e := by positivity
  have hm : (0 : ℚ) < m := by exact_mod_cast hfinite.positive
  have hpos : 0 < (roundingInterval m e).value := by
    have hden' : (0 : ℚ) < (roundingInterval m e).den := by exact_mod_cast hden
    have : (0 : ℚ) < (roundingInterval m e).value := by
      rw [(div_eq_iff hden'.ne').mp hvalue]
      positivity
    exact_mod_cast this
  have hdigits := (decimalExponent_rat hpos hden).1
  have hlength := length_le_of_no_digits hfinite hnone
  generalize decimalExponent (roundingInterval m e).value (roundingInterval m e).den = p
    at hlength hdigits
  rw [hvalue] at hdigits
  have hgrid : (10 : ℚ) ^ (p - 1) = 10 ^ (p - (17 : Nat)) * 10 ^ 16 := by
    rw [← zpow_natCast, ← zpow_add₀ (by norm_num)]
    congr 1
    omega
  have hquarters := (quartersBelow_bounds m e).1
  have hsmall : (1 / 2 + quartersBelow m e / 4) * 10 ^ 16 ≤ (m : ℚ) := by
    rw [hgrid] at hdigits
    refine le_of_mul_le_mul_right ?_ hunit
    calc (1 / 2 + quartersBelow m e / 4) * 10 ^ 16 * 2 ^ e
        = (1 / 2 + quartersBelow m e / 4) * 2 ^ e * 10 ^ 16 := by ring
      _ ≤ 10 ^ (p - (17 : Nat)) * 10 ^ 16 := mul_le_mul_of_nonneg_right hlength (by positivity)
      _ ≤ m * 2 ^ e := hdigits
  have hmantissa : (m : ℚ) < 2 ^ 53 := by exact_mod_cast hfinite.mantissa
  rcases quartersBelow_cases m e with h | ⟨h, hpower, -⟩
  · rw [h] at hsmall
    norm_num at hsmall hmantissa
    linarith
  · rw [h, hpower] at hsmall
    norm_num at hsmall

theorem exists_stripped (ds : List Char) :
    ∃ z, ds = (ds.reverse.dropWhile (· == '0')).reverse ++ List.replicate z '0' := by
  refine ⟨(ds.reverse.takeWhile (· == '0')).length, ?_⟩
  have hzeros : ds.reverse.takeWhile (· == '0') =
      List.replicate (ds.reverse.takeWhile (· == '0')).length '0' :=
    List.eq_replicate_of_mem fun c hc => by simpa using List.mem_takeWhile_imp hc
  rw [← List.reverse_replicate, ← hzeros, ← List.reverse_append, List.takeWhile_append_dropWhile,
    List.reverse_reverse]

theorem digitRun_append_zeros (ds : List Char) (z : Nat) :
    digitRun (ds ++ List.replicate z '0') = digitRun ds * 10 ^ z := by
  rw [digitRun_eq, digitRun_eq, Nat.ofDigitChars_append, Nat.ofDigitChars_replicate_zero,
    Nat.mul_comm]

/-- **The shortest digits of a number are in its interval.** -/
theorem shortestDigits_spec (hfinite : IsFinite m e) :
    ∃ ds p, shortestDigits m e = (ds, p) ∧ ds ≠ [] ∧ (∀ c ∈ ds, c.isDigit = true) ∧
      (roundingInterval m e).Contains (digitRun ds * 10 ^ (p - ds.length)) := by
  obtain ⟨-, -, -, -, -, hden⟩ := roundingInterval_fields m e
  obtain ⟨d, count, hfrom, hgrid⟩ := shortestFrom_spec _ _ (by decide : 1 ≤ 17)
    (by decide : 17 < 1 + 17) (exists_gridDigits hfinite)
  rw [shortestDigits, hfrom]
  generalize decimalExponent (roundingInterval m e).value (roundingInterval m e).den = p at hgrid ⊢
  obtain ⟨-, -, -, hfound, -⟩ := gridDigits?_spec hden p count
  have hcontains := hfound d hgrid
  obtain ⟨z, hz⟩ := exists_stripped (Nat.toDigits 10 d)
  have hvalue := digitRun_toDigits d
  have hlength := congrArg List.length hz
  have hall := isDigit_toDigits d
  rw [hz, digitRun_append_zeros] at hvalue
  refine ⟨_, _, rfl, ?_, fun c hc => hall c (hz ▸ List.mem_append_left _ hc), ?_⟩
  · intro hnil
    rw [hnil] at hvalue
    have hzero : d = 0 := by rw [← hvalue]; exact Nat.zero_mul _
    have hunit : (0 : ℚ) < 2 ^ e := by positivity
    have := (hcontains.pos hfinite).1
    rw [hzero, Nat.cast_zero, zero_mul] at this
    linarith
  · generalize ((Nat.toDigits 10 d).reverse.dropWhile (· == '0')).reverse = ds at hvalue hlength ⊢
    rw [List.length_append, List.length_replicate] at hlength
    rw [← hvalue] at hcontains
    push_cast at hcontains
    rwa [mul_assoc, ← zpow_natCast, ← zpow_add₀ (by norm_num),
      show (z : Int) + (p - count) = p + ((Nat.toDigits 10 d).length - count) - ds.length by
        omega] at hcontains

/-! ## Decimals -/

/-- A decimal in the range of the format is not cut off for its size. -/
theorem decimal_within {d : Nat} {x : Int} (hfinite : IsFinite m e) (hd : 0 < d)
    (hlow : (2 : ℚ) ^ e / 2 ≤ d * 10 ^ x) (hhigh : (d : ℚ) * 10 ^ x ≤ (m + 1 / 2) * 2 ^ e) :
    (digitCount d : Int) + x ≤ 400 ∧ -400 ≤ (digitCount d : Int) + x := by
  obtain ⟨hfirst, hlast⟩ := digitCount_bounds hd
  have hcount : 0 < digitCount d := Nat.length_toDigits_pos
  generalize digitCount d = k at hfirst hlast hcount
  have hpower : (0 : ℚ) < 10 ^ x := by positivity
  have hthrees : ∀ n : Nat, (2 : ℚ) ^ (43 * n) ≤ 10 ^ (13 * n) := by
    intro n
    rw [pow_mul, pow_mul]
    exact pow_le_pow_left₀ (by norm_num) (by norm_num) n
  constructor
  · have hbelow : (10 : ℚ) ^ ((k : Int) - 1 + x) ≤ d * 10 ^ x := by
      rw [zpow_add₀ (by norm_num), show (k : Int) - 1 = (k - 1 : Nat) by omega, zpow_natCast]
      exact mul_le_mul_of_nonneg_right (by exact_mod_cast hfirst) hpower.le
    have habove : (d : ℚ) * 10 ^ x < 10 ^ (325 : Int) := by
      have hmantissa : (m : ℚ) + 1 / 2 ≤ 2 ^ 53 := by
        have : (m : ℚ) + 1 ≤ 2 ^ 53 := by exact_mod_cast hfinite.mantissa
        linarith
      have hexponent : (2 : ℚ) ^ e ≤ 2 ^ (971 : Int) :=
        zpow_le_zpow_right₀ one_le_two hfinite.high
      calc (d : ℚ) * 10 ^ x ≤ (m + 1 / 2) * 2 ^ e := hhigh
        _ ≤ 2 ^ 53 * 2 ^ (971 : Int) := mul_le_mul hmantissa hexponent (by positivity) (by positivity)
        _ < 2 ^ (43 * 25) := by
          rw [show (971 : Int) = (971 : Nat) from rfl, zpow_natCast, ← pow_add]
          exact pow_lt_pow_right₀ one_lt_two (by decide)
        _ ≤ 10 ^ (13 * 25) := hthrees 25
        _ = 10 ^ (325 : Int) := by rfl
    have := (zpow_lt_zpow_iff_right₀ (by norm_num)).mp (hbelow.trans_lt habove)
    omega
  · have habove : (d : ℚ) * 10 ^ x < 10 ^ ((k : Int) + x) := by
      rw [zpow_add₀ (by norm_num), zpow_natCast]
      exact mul_lt_mul_of_pos_right (by exact_mod_cast hlast) hpower
    have hbelow : (10 : ℚ) ^ (-325 : Int) ≤ 2 ^ e / 2 := by
      have hexponent : (2 : ℚ) ^ (-1075 : Int) ≤ 2 ^ (e - 1) :=
        zpow_le_zpow_right₀ one_le_two (by have := hfinite.low; omega)
      rw [zpow_sub₀ two_ne_zero, zpow_one] at hexponent
      refine le_trans ?_ hexponent
      rw [show (-325 : Int) = -((13 * 25 : Nat) : Int) from rfl,
        show (-1075 : Int) = -((43 * 25 : Nat) : Int) from rfl, zpow_neg, zpow_neg, zpow_natCast,
        zpow_natCast]
      exact inv_anti₀ (by positivity) (hthrees 25)
    have := (zpow_lt_zpow_iff_right₀ (by norm_num)).mp ((hbelow.trans hlow).trans_lt habove)
    omega

/-- **A decimal in the interval of a number is read as the number.** -/
theorem ofDecimal_of_contains {d : Nat} {x : Int} (hfinite : IsFinite m e) (negative : Bool)
    (h : (roundingInterval m e).Contains (d * 10 ^ x)) :
    Binary64.ofDecimal negative d x = .finite negative m e := by
  obtain ⟨hlow, hhigh⟩ := h.pos hfinite
  have hunit : (0 : ℚ) < 2 ^ e := by positivity
  have hpositive : 0 < d := by
    refine Nat.pos_of_ne_zero ?_
    rintro rfl
    rw [Nat.cast_zero, zero_mul] at hlow
    linarith
  obtain ⟨hfirst, hlast⟩ := decimal_within hfinite hpositive hlow hhigh
  rw [Binary64.ofDecimal, if_neg hpositive.ne', if_neg (by omega), if_neg (by omega)]
  split
  · next hx =>
    obtain ⟨n, rfl⟩ := Int.eq_ofNat_of_zero_le hx
    refine ofRatio_of_contains hfinite negative Nat.one_pos ?_
    simpa using h
  · next hx =>
    obtain ⟨n, hn⟩ := Int.eq_ofNat_of_zero_le (by omega : 0 ≤ -x)
    obtain rfl : x = -(n : Int) := by omega
    refine ofRatio_of_contains hfinite negative (Nat.pow_pos (by decide)) ?_
    simpa [div_eq_mul_inv] using h

end shortest

end Regen.Number