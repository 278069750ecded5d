import Mathlib.Tactic.Linarith
import Mathlib.Tactic.Ring
import Regen.Number.Binary64

/-! # Quotients in binary64

    A quotient of natural numbers that is neither too large nor too small is scaled by a power of
    two until its integer part has 53 bits, and rounded there.  So a whole number is reached by the
    rounded quotient exactly if it is at most half a unit of that scale above the quotient. -/

namespace Regen.Number

/-! ## Rounding to even neighbours -/

section rounding
variable {n num den : Nat}

/-- A quotient half way between two natural numbers is rounded to the even one. -/
theorem roundHalfEven_half {k : Nat} (hden : 0 < den) (h : 2 * num = (2 * k + 1) * den) :
    roundHalfEven num den % 2 = 0 := by
  obtain ⟨half, rfl | rfl⟩ := Nat.even_or_odd' den
  · have hnum : num = half + 2 * half * k := by linarith [h]
    obtain ⟨hquotient, hrest⟩ :=
      (Nat.div_mod_unique hden).mpr ⟨hnum.symm, (by omega : half < 2 * half)⟩
    simp only [roundHalfEven, hquotient, hrest]
    split
    · simp_all
      omega
    · simp_all
  · have hodd : (2 * k + 1) * (2 * half + 1) = 2 * (2 * k * half + k + half) + 1 := by ring
    omega

/-- **An even number is reached by rounding** exactly if it is at most half a unit above. -/
theorem le_roundHalfEven_iff (hden : 0 < den) (heven : n % 2 = 0) :
    n ≤ roundHalfEven num den ↔ 2 * (n * den) ≤ 2 * num + den := by
  obtain ⟨hbelow, habove⟩ := @roundHalfEven_close num den hden
  constructor
  · intro hle
    have := Nat.mul_le_mul_right den hle
    linarith
  · intro hclose
    by_contra hless
    -- The quotient is half way below `n`, and then it is rounded to `n`.
    have hnext := Nat.mul_le_mul_right den (Nat.lt_of_not_le hless)
    have hhalf : 2 * num = (2 * roundHalfEven num den + 1) * den := by
      rw [Nat.succ_eq_add_one] at hnext
      linarith
    have heven' := roundHalfEven_half hden hhalf
    have hequal : n = roundHalfEven num den + 1 := by
      have : n * den ≤ (roundHalfEven num den + 1) * den := by linarith
      have := Nat.le_of_mul_le_mul_right this hden
      omega
    omega

end rounding

/-! ## Scales -/

namespace Binary64

section scales
variable {num den p q : Nat} {e : Int}

theorem scaleRatio_eq (num den : Nat) (e : Int) :
    scaleRatio num den e = (num * 2 ^ (-e).toNat, den * 2 ^ e.toNat) := by
  unfold scaleRatio
  split
  · simp [show (-e).toNat = 0 by omega]
  · simp [show e.toNat = 0 by omega]

/-- A quotient is compared with a power of two at any scale. -/
theorem scaled_le_iff (h : (p : Int) - q = e) :
    den * 2 ^ p ≤ num * 2 ^ q ↔ (scaleRatio num den e).2 ≤ (scaleRatio num den e).1 := by
  obtain ⟨c, hp, hq⟩ : ∃ c, p = e.toNat + c ∧ q = (-e).toNat + c := ⟨min p q, by omega, by omega⟩
  rw [scaleRatio_eq, hp, hq, Nat.pow_add, Nat.pow_add, ← Nat.mul_assoc, ← Nat.mul_assoc]
  exact Nat.mul_le_mul_right_iff (Nat.two_pow_pos c)

/-- **The binary exponent of a quotient**, said at any scale. -/
theorem binaryExponent_spec (hnum : 0 < num) (hden : 0 < den)
    (h : (p : Int) - q = binaryExponent num den) :
    den * 2 ^ p ≤ num * 2 ^ q ∧ num * 2 ^ q < den * 2 ^ (p + 1) := by
  have hnum₁ := Nat.log2_self_le (Nat.pos_iff_ne_zero.mp hnum)
  have hnum₂ := Nat.lt_log2_self (n := num)
  have hden₁ := Nat.log2_self_le (Nat.pos_iff_ne_zero.mp hden)
  have hden₂ := Nat.lt_log2_self (n := den)
  simp only [binaryExponent] at h
  split at h
  · next hle =>
    refine ⟨(scaled_le_iff h).mpr hle, ?_⟩
    calc num * 2 ^ q < 2 ^ (num.log2 + 1) * 2 ^ q :=
          Nat.mul_lt_mul_of_pos_right hnum₂ (Nat.two_pow_pos q)
      _ = 2 ^ den.log2 * 2 ^ (p + 1) := by rw [← Nat.pow_add, ← Nat.pow_add]; congr 1; omega
      _ ≤ den * 2 ^ (p + 1) := Nat.mul_le_mul_right _ hden₁
  · next hlt =>
    have h' : ((p + 1 : Nat) : Int) - q = (num.log2 : Int) - den.log2 := by omega
    refine ⟨?_, Nat.lt_of_not_le fun hle => hlt ((scaled_le_iff h').mp hle)⟩
    calc den * 2 ^ p ≤ 2 ^ (den.log2 + 1) * 2 ^ p := Nat.mul_le_mul_right _ hden₂.le
      _ = 2 ^ num.log2 * 2 ^ q := by rw [← Nat.pow_add, ← Nat.pow_add]; congr 1; omega
      _ ≤ num * 2 ^ q := Nat.mul_le_mul_right _ hnum₁

end scales

/-! ## Rounded quotients -/

/-- **`m / 2 ^ k` is a quotient rounded** at a scale of `2 ^ j`, where its integer part has 53
    bits. -/
structure Rounds (num den j m k : Nat) : Prop where
  positive : 0 < m
  mantissa : m < 2 ^ 53
  atLeast : den * 2 ^ 52 ≤ num * 2 ^ j
  below : num * 2 ^ j < den * 2 ^ 53
  /-- What the rounded quotient reaches, its scaled integer part reaches. -/
  reaches : ∀ n, n * 2 ^ k ≤ m ↔ n * 2 ^ j ≤ roundHalfEven (num * 2 ^ j) den
  /-- A mantissa that is one bit too long loses its last bit. -/
  scale : k ≤ j ∧ j ≤ k + 1

section rounds
variable {num den j m k n : Nat} {negative : Bool}

/-- A quotient in the range of the format is rounded at its own scale. -/
theorem exists_rounds (negative : Bool) (hnum : 0 < num) (hden : 0 < den)
    (hbelow : num < den * 2 ^ 52) (habove : den ≤ num * 2 ^ 200) :
    ∃ j m k : Nat, ofRatio negative num den = finite negative m (-(k : Int)) ∧
      Rounds num den j m k := by
  obtain ⟨e, he⟩ : ∃ e, e = binaryExponent num den := ⟨_, rfl⟩
  have hhigh : e < 52 := by
    by_contra hlarge
    obtain ⟨hle, -⟩ := binaryExponent_spec (p := e.toNat) (q := 0) hnum hden (by omega)
    have := Nat.mul_le_mul_left den (Nat.pow_le_pow_right (by decide : 0 < 2)
      (by omega : 52 ≤ e.toNat))
    omega
  have hlow : -201 < e := by
    by_contra hsmall
    obtain ⟨-, hlt⟩ := binaryExponent_spec (p := 0) (q := (-e).toNat) hnum hden (by omega)
    have := Nat.mul_le_mul_left num (Nat.pow_le_pow_right (by decide : 0 < 2)
      (by omega : 201 ≤ (-e).toNat))
    omega
  obtain ⟨j, hj⟩ : ∃ j : Nat, (j : Int) = 52 - e := ⟨(52 - e).toNat, by omega⟩
  obtain ⟨hfirst, hlast⟩ : den * 2 ^ 52 ≤ num * 2 ^ j ∧ num * 2 ^ j < den * 2 ^ 53 :=
    binaryExponent_spec hnum hden (by omega)
  have hscaled : max (binaryExponent num den - 52) (-1074) = -(j : Int) := by omega
  obtain ⟨r, hr⟩ : ∃ r, r = roundHalfEven (num * 2 ^ j) den := ⟨_, rfl⟩
  have hquotient : 2 ^ 52 ≤ num * 2 ^ j / den ∧ num * 2 ^ j / den < 2 ^ 53 :=
    ⟨(Nat.le_div_iff_mul_le hden).mpr (by linarith), (Nat.div_lt_iff_lt_mul hden).mpr (by linarith)⟩
  have hround := roundHalfEven_eq (num * 2 ^ j) den
  have hratio : ofRatio negative num den =
      if r = 2 ^ 53 then finite negative (2 ^ 52) (-(j : Int) + 1)
      else finite negative r (-(j : Int)) := by
    have hpair : scaleRatio num den (-(j : Int)) = (num * 2 ^ j, den) := by
      rw [scaleRatio_eq, Int.neg_neg, Int.toNat_natCast, Int.toNat_neg_natCast, Nat.pow_zero,
        Nat.mul_one]
    simp only [ofRatio, if_neg (Nat.pos_iff_ne_zero.mp hnum), hscaled, hpair, ← hr, Nat.pow_eq]
    split
    · rw [if_neg (Nat.two_pow_pos 52).ne', if_neg (by omega)]
    · rw [if_neg (by omega), if_neg (by omega)]
  split at hratio
  · next hcarry =>
    refine ⟨j, 2 ^ 52, j - 1, ?_, ⟨by decide, by decide, hfirst, hlast, fun n => ?_, by omega⟩⟩
    · rw [hratio]
      congr 1
      omega
    · have hdouble : n * 2 ^ j = 2 * (n * 2 ^ (j - 1)) := by
        obtain ⟨i, rfl⟩ : ∃ i, j = i + 1 := ⟨j - 1, by omega⟩
        rw [Nat.add_sub_cancel, Nat.pow_succ]
        ring
      rw [← hr, hcarry, hdouble]
      omega
  · exact ⟨j, r, j, hratio, ⟨by omega, by omega, hfirst, hlast, fun n => by rw [hr], by omega⟩⟩

/-- The magnitude of a number that is a natural number of parts of a power of two. -/
theorem magnitude_neg (m k : Nat) : magnitude m (-(k : Int)) = (m, 2 ^ k) := by
  unfold magnitude
  cases k with
  | zero => simp
  | succ k => rw [if_neg (by omega), Int.neg_neg, Int.toNat_natCast, Nat.pow_eq]

theorem truncate_finite (negative : Bool) (m k : Nat) :
    (finite negative m (-(k : Int))).truncate =
      .ok (if negative then -((m / 2 ^ k : Nat) : Int) else (m / 2 ^ k : Nat)) := by
  rw [truncate, magnitude_neg]

theorem divNat_finite (negative : Bool) (m k den : Nat) :
    (finite negative m (-(k : Int))).divNat den = ofRatio negative m (2 ^ k * den) := by
  rw [divNat, magnitude_neg]

/-! ## Signs -/

/-- Rounding keeps the sign, also of what becomes zero or infinite. -/
theorem isNegative_ofRatio (negative : Bool) (num den : Nat) :
    (ofRatio negative num den).isNegative = negative := by
  unfold ofRatio
  split
  · rfl
  · dsimp only
    split
    all_goals
      split
      · rfl
      · split <;> rfl

theorem isNegative_divNat (x : Binary64) (den : Nat) :
    (x.divNat den).isNegative = x.isNegative := by
  cases x with
  | nan => rfl
  | infinite s => rfl
  | finite s m e => exact isNegative_ofRatio s _ _

theorem nonpos_of_truncate {x : Binary64} {n : Int} (h : x.truncate = .ok n)
    (hsign : x.isNegative = true) : n ≤ 0 := by
  cases x with
  | nan => cases h
  | infinite s => cases h
  | finite s m e =>
    obtain rfl : s = true := hsign
    obtain rfl := Except.ok.inj h
    exact Int.neg_nonpos_of_nonneg (Int.natCast_nonneg _)

/-! ## What a rounded quotient reaches -/

/-- By how much a numerator may miss a multiple of the denominator that its rounded quotient still
    reaches. -/
def slack (num den : Nat) : Nat := den / 2 ^ (53 - (num / den).log2)

theorem slack_le {n : Nat} (hden : 0 < den) (h : num < den * 2 ^ (n + 1)) :
    slack num den ≤ den / 2 ^ (53 - n) := by
  have hlog : (num / den).log2 ≤ n := by
    rcases Nat.eq_zero_or_pos (num / den) with hzero | hpos
    · rw [hzero, Nat.log2_zero]
      exact Nat.zero_le n
    · have hquotient : num / den < 2 ^ (n + 1) := (Nat.div_lt_iff_lt_mul hden).mpr (by linarith)
      exact Nat.lt_succ_iff.mp ((Nat.log2_lt hpos.ne').mpr hquotient)
  exact Nat.div_le_div_left (Nat.pow_le_pow_right (by decide) (by omega)) (Nat.two_pow_pos _)

/-- The slack at the scale of the rounding: half a unit there. -/
theorem Rounds.slack_eq (h : Rounds num den j m k) (hden : 0 < den) (hfine : den < 2 ^ 53) :
    slack num den = den / 2 ^ (j + 1) := by
  unfold slack
  rcases Nat.lt_or_ge num den with hless | hle
  · have hscale : 2 ^ 52 < 2 ^ j := by
      have hfirst := h.atLeast
      have := Nat.mul_lt_mul_of_pos_right hless (Nat.two_pow_pos j)
      exact Nat.lt_of_mul_lt_mul_left (Nat.lt_of_le_of_lt hfirst this)
    have hfiner : 2 ^ 53 ≤ 2 ^ (j + 1) := by
      rw [Nat.pow_succ]
      omega
    rw [Nat.div_eq_of_lt hless, Nat.div_eq_of_lt (by omega : den < 2 ^ (j + 1))]
    exact Nat.div_eq_of_lt hfine
  · have hscale : j ≤ 52 := by
      have hlast := h.below
      have := Nat.mul_le_mul_right (2 ^ j) hle
      have := (Nat.pow_lt_pow_iff_right (by decide : 1 < 2)).mp
        (Nat.lt_of_mul_lt_mul_left (Nat.lt_of_le_of_lt this hlast))
      omega
    obtain ⟨i, hi⟩ : ∃ i, i + j = 52 := ⟨52 - j, by omega⟩
    have hlog : (num / den).log2 = i := by
      have hpow : ∀ c, 2 ^ (i + c) * 2 ^ j = 2 ^ (52 + c) := fun c => by
        rw [← Nat.pow_add]
        congr 1
        omega
      rw [Nat.log2_eq_iff (by have := Nat.div_pos hle hden; omega)]
      constructor
      · refine (Nat.le_div_iff_mul_le hden).mpr (Nat.le_of_mul_le_mul_right ?_ (Nat.two_pow_pos j))
        calc 2 ^ i * den * 2 ^ j = den * 2 ^ 52 := by rw [← hpow 0]; ring
          _ ≤ num * 2 ^ j := h.atLeast
      · refine (Nat.div_lt_iff_lt_mul hden).mpr (Nat.lt_of_mul_lt_mul_right (a := 2 ^ j) ?_)
        calc num * 2 ^ j < den * 2 ^ 53 := h.below
          _ = 2 ^ (i + 1) * den * 2 ^ j := by rw [← hpow 1]; ring
    rw [hlog, show 53 - i = j + 1 by omega]

/-- **A rounded quotient reaches a whole number** exactly if the numerator misses it by no more
    than the slack. -/
theorem Rounds.le_iff (h : Rounds num den j m k) (hden : 0 < den) (hbelow : num < den * 2 ^ 52)
    (hfine : den < 2 ^ 53) : n * 2 ^ k ≤ m ↔ n * den ≤ num + slack num den := by
  obtain ⟨i, rfl⟩ : ∃ i, j = i + 1 := by
    refine ⟨j - 1, (Nat.succ_pred_eq_of_ne_zero ?_).symm⟩
    rintro rfl
    have := h.atLeast
    omega
  have heven : n * 2 ^ (i + 1) % 2 = 0 := by
    rw [Nat.pow_succ, ← Nat.mul_assoc, Nat.mul_mod_left]
  have hslack : n * den ≤ num + den / 2 ^ (i + 1 + 1) ↔
      n * den * 2 ^ (i + 1 + 1) ≤ num * 2 ^ (i + 1 + 1) + den := by
    rw [← Nat.sub_le_iff_le_add', Nat.le_div_iff_mul_le (Nat.two_pow_pos _), Nat.sub_mul,
      Nat.sub_le_iff_le_add']
  rw [h.reaches, le_roundHalfEven_iff hden heven, h.slack_eq hden hfine, hslack]
  have hleft : 2 * (n * 2 ^ (i + 1) * den) = n * den * 2 ^ (i + 1 + 1) := by ring
  have hright : 2 * (num * 2 ^ (i + 1)) = num * 2 ^ (i + 1 + 1) := by ring
  rw [hleft, hright]

/-- **The quotient of a number of the format** reaches a whole number exactly if it does so before
    it is rounded. -/
theorem Rounds.le_iff_of_mantissa (h : Rounds num den j m k) (hden : 0 < den)
    (hnum : num < 2 ^ 53) :
    n * 2 ^ k ≤ m ↔ n * den ≤ num := by
  rw [h.reaches]
  constructor
  · intro hle
    by_contra hless
    obtain ⟨-, hclose⟩ := @roundHalfEven_close (num * 2 ^ j) den hden
    have hreached := Nat.mul_le_mul_right den hle
    have hnext := Nat.mul_le_mul_right (2 ^ j) (Nat.lt_of_not_le hless)
    have hunit : 2 * 2 ^ j ≤ den := by
      rw [Nat.succ_eq_add_one] at hnext
      linarith
    -- So the numerator has too many bits for a mantissa.
    have hbits := Nat.mul_lt_mul_of_pos_right hnum (Nat.two_pow_pos j)
    have := h.atLeast
    omega
  · intro hle
    have hfloor : n * 2 ^ j ≤ num * 2 ^ j / den := by
      refine (Nat.le_div_iff_mul_le hden).mpr ?_
      calc n * 2 ^ j * den = n * den * 2 ^ j := by ring
        _ ≤ num * 2 ^ j := Nat.mul_le_mul_right _ hle
    rcases roundHalfEven_eq (num * 2 ^ j) den with hround | hround <;> omega

end rounds

/-! ## Quotients of quotients -/

/-- **The integer part of a quotient that is rounded twice.**  Only the first rounding can reach a
    whole number that the exact quotient misses. -/
theorem truncate_divNat_ofRatio (negative : Bool) {num unit den : Nat} (hunit : 0 < unit)
    (hfine : unit < 2 ^ 53) (hden : 0 < den) (hden' : den < 2 ^ 53) (hbelow : num < unit * 2 ^ 50) :
    ((ofRatio negative num unit).divNat den).truncate =
      .ok (if negative then -(((num + slack num unit) / (unit * den) : Nat) : Int)
        else ((num + slack num unit) / (unit * den) : Nat)) := by
  rcases Nat.eq_zero_or_pos num with rfl | hnum
  · have hslack : slack 0 unit = 0 := by
      rw [slack, Nat.zero_div, Nat.log2_zero]
      exact Nat.div_eq_of_lt hfine
    have hzero : ofRatio negative 0 unit = finite negative 0 (-(0 : Nat)) := rfl
    rw [hslack, hzero, divNat_finite, Nat.zero_add, Nat.zero_div]
    cases negative <;> rfl
  have hbelow₁ : num < unit * 2 ^ 52 :=
    hbelow.trans_le (Nat.mul_le_mul_left unit (Nat.pow_le_pow_right (by decide) (by decide)))
  have habove₁ : unit ≤ num * 2 ^ 200 := by
    calc unit ≤ 2 ^ 53 := hfine.le
      _ ≤ 2 ^ 200 := Nat.pow_le_pow_right (by decide) (by decide)
      _ ≤ num * 2 ^ 200 := Nat.le_mul_of_pos_left _ hnum
  obtain ⟨j, m, k, hfirst, hrounds⟩ := exists_rounds negative hnum hunit hbelow₁ habove₁
  have hlow : 2 ≤ k := by
    by_contra hsmall
    have hj : j ≤ 2 := by have := hrounds.scale; omega
    have := Nat.mul_le_mul_left num (Nat.pow_le_pow_right (by decide : 0 < 2) hj)
    have := hrounds.atLeast
    omega
  have hhigh : k < 106 := by
    by_contra hlarge
    have hj : 106 ≤ j := by have := hrounds.scale; omega
    have := Nat.mul_le_mul hnum (Nat.pow_le_pow_right (by decide : 0 < 2) hj)
    have := hrounds.below
    omega
  have hden₂ : 0 < 2 ^ k * den := Nat.mul_pos (Nat.two_pow_pos k) hden
  have hbelow₂ : m < 2 ^ k * den * 2 ^ 52 := by
    have := Nat.mul_le_mul (Nat.pow_le_pow_right (by decide : 0 < 2) hlow) hden
    have := hrounds.mantissa
    omega
  have habove₂ : 2 ^ k * den ≤ m * 2 ^ 200 := by
    calc 2 ^ k * den ≤ 2 ^ 106 * 2 ^ 53 :=
          Nat.mul_le_mul (Nat.pow_le_pow_right (by decide) hhigh.le) hden'.le
      _ ≤ 2 ^ 200 := by norm_num
      _ ≤ m * 2 ^ 200 := Nat.le_mul_of_pos_left _ hrounds.positive
  obtain ⟨j', m', k', hsecond, hrounds'⟩ :=
    exists_rounds negative hrounds.positive hden₂ hbelow₂ habove₂
  rw [hfirst, divNat_finite, hsecond, truncate_finite]
  have hwhole : m' / 2 ^ k' = (num + slack num unit) / (unit * den) := by
    refine eq_of_forall_le_iff fun n => ?_
    rw [Nat.le_div_iff_mul_le (Nat.two_pow_pos k'), Nat.le_div_iff_mul_le (Nat.mul_pos hunit hden),
      hrounds'.le_iff_of_mantissa hden₂ hrounds.mantissa]
    have hinner : n * (2 ^ k * den) = n * den * 2 ^ k := by ring
    have houter : n * (unit * den) = n * den * unit := by ring
    rw [hinner, houter, hrounds.le_iff hunit hbelow₁ hfine]
  rw [hwhole]

end Binary64

end Regen.Number
