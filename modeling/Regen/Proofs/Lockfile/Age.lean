import Regen.Lockfile.Age
import Regen.Proofs.Number.Quotient
import Regen.Proofs.Outcome
import Regen.Proofs.Time.Span

/-! # Ages in whole hours

    An age is computed through binary64 seconds, which are rounded twice: when the microseconds
    become seconds and when the seconds become hours.  The second rounding never reaches a whole
    hour that the seconds miss.  The first one does, once a microsecond is finer than the format:
    from 2^34 seconds on, some 544 years, an age is counted as a whole hour when it is a few
    microseconds short of it. -/

namespace Regen

open Number Time

/-- Microseconds in an hour. -/
def hourMicros : Int := 3600000000

/-- By how many microseconds an age may fall short of a whole hour that it is counted as. -/
def ageSlack (micros : Int) : Nat := Binary64.slack micros.natAbs 1000000

/-- The microseconds whose whole hours are counted: the slack is added to the magnitude. -/
def countedMicros (micros : Int) : Int :=
  if micros < 0 then micros - ageSlack micros else micros + ageSlack micros

section slack
variable {micros : Int}

/-- **Ages below 2^34 seconds have no slack.** -/
theorem ageSlack_eq_zero (h : micros.natAbs < 1000000 * 2 ^ 34) : ageSlack micros = 0 :=
  Nat.le_zero.mp (Binary64.slack_le (n := 33) (by decide) h)

/-- Within the calendar the slack is at most 30 microseconds. -/
theorem ageSlack_le (h : micros.natAbs < 1000000 * 2 ^ 39) : ageSlack micros ≤ 30 :=
  Binary64.slack_le (n := 38) (by decide) h

end slack

section ages
variable {t now : Moment} {micros maxAge : Int}

/-- **The age of a record** at a distance that is not too large for the format. -/
theorem ageHours_eq (hmicros : now.microsSince t = .ok micros)
    (hrange : micros.natAbs < 1000000 * 2 ^ 50) :
    ageHours t now = .ok ((countedMicros micros).tdiv hourMicros) := by
  have hquotient := Binary64.truncate_divNat_ofRatio (decide (micros < 0))
    (by decide : 0 < 1000000) (by decide) (by decide : 0 < 3600) (by decide) hrange
  unfold ageHours
  rw [hmicros]
  refine hquotient.trans (congrArg _ ?_)
  obtain ⟨hours, hhours⟩ : ∃ hours : Nat, hours = micros.natAbs + ageSlack micros := ⟨_, rfl⟩
  rw [← ageSlack, ← hhours]
  unfold countedMicros hourMicros
  by_cases hneg : micros < 0
  · rw [decide_eq_true hneg, if_pos rfl, if_pos hneg,
      show micros - ageSlack micros = -(hours : Int) by omega, Int.neg_tdiv]
    rfl
  · rw [decide_eq_false hneg, if_neg Bool.false_ne_true, if_neg hneg,
      show micros + ageSlack micros = (hours : Int) by omega]
    rfl

/-- More than a number of hours are counted exactly if one hour more is over but for the slack. -/
theorem lt_countedHours_iff (hage : 0 ≤ maxAge) :
    maxAge < (countedMicros micros).tdiv hourMicros ↔
      (maxAge + 1) * hourMicros ≤ micros + ageSlack micros := by
  have hslack : ageSlack micros ≤ 1000000 := Nat.div_le_self _ _
  unfold countedMicros hourMicros
  split
  · -- An age below zero counts as no hour.
    have hnone : (micros - ageSlack micros).tdiv 3600000000 ≤ 0 := by
      rw [show micros - ageSlack micros = -((micros.natAbs + ageSlack micros : Nat) : Int) by omega,
        Int.neg_tdiv]
      exact Int.neg_nonpos_of_nonneg (Int.natCast_nonneg _)
    omega
  · rw [Int.tdiv_eq_ediv_of_nonneg (by omega)]
    omega

theorem isStale_eq (hmicros : now.microsSince t = .ok micros)
    (hrange : micros.natAbs < 1000000 * 2 ^ 50) (hage : 0 ≤ maxAge) :
    isStale t maxAge now =
      .ok (decide ((maxAge + 1) * hourMicros ≤ micros + ageSlack micros)) := by
  rw [isStale, ageHours_eq hmicros hrange]
  exact congrArg _ (decide_eq_decide.mpr (lt_countedHours_iff hage))

/-- **Before an hour is over no hour is counted**, whatever the moments are. -/
theorem age_nonpos {age : Int} (hage : ageHours t now = .ok age)
    (hyoung : now.instant - t.instant < hourMicros) : age ≤ 0 := by
  obtain ⟨micros, hmicros, htruncate⟩ := bind_eq_ok.mp hage
  obtain rfl : now.instant - t.instant = micros := by
    unfold Moment.microsSince at hmicros
    split at hmicros
    · exact Except.ok.inj hmicros
    · cases hmicros
  by_cases hneg : now.instant - t.instant < 0
  · -- The quotient of a negative number is not positive, however large it is.
    refine Binary64.nonpos_of_truncate htruncate ?_
    rw [Binary64.isNegative_divNat, Binary64.isNegative_ofRatio, decide_eq_true hneg]
  · have hless : now.instant - t.instant < 3600000000 := hyoung
    have hslack : ageSlack (now.instant - t.instant) = 0 := ageSlack_eq_zero (by omega)
    have hexact := ageHours_eq hmicros (by omega)
    rw [hage, countedMicros, if_neg hneg, hslack, Int.natCast_zero, Int.add_zero,
      Int.tdiv_eq_zero_of_lt (Int.not_lt.mp hneg) hyoung] at hexact
    exact (Except.ok.inj hexact).le

/-- **Ages are counted in whole hours, but for a slack.**  Between two valid moments with offsets an
    age is the distance in whole hours towards zero, where up to 30 microseconds of slack are added
    to the distance.  A record is stale exactly if, with the slack, one hour more than the greatest
    age is over; so it never is before its own time.  Below 2^34 seconds there is no slack. -/
theorem ageHours_exact (ht : t.IsValid) (hnow : now.IsValid) (htime : t.offset.isSome)
    (hclock : now.offset.isSome) (hmicros : micros = now.instant - t.instant) :
    ageHours t now = .ok ((countedMicros micros).tdiv hourMicros) ∧
    (∀ maxAge, 0 ≤ maxAge → isStale t maxAge now =
      .ok (decide ((maxAge + 1) * hourMicros ≤ micros + ageSlack micros))) ∧
    (micros ≤ 0 → ∀ maxAge, 0 ≤ maxAge → isStale t maxAge now = .ok false) ∧
    ageSlack micros ≤ 30 ∧ (micros.natAbs < 1000000 * 2 ^ 34 → ageSlack micros = 0) := by
  have hsince : now.microsSince t = .ok micros :=
    hmicros ▸ Moment.microsSince_of_offsets hclock htime
  have hspan : micros.natAbs < 1000000 * 2 ^ 39 := hmicros ▸ hnow.span_lt ht
  have hrange : micros.natAbs < 1000000 * 2 ^ 50 := by omega
  refine ⟨ageHours_eq hsince hrange, fun maxAge => isStale_eq hsince hrange, ?_,
    ageSlack_le hspan, ageSlack_eq_zero⟩
  intro hfuture maxAge hage
  have hslack := ageSlack_le hspan
  rw [isStale_eq hsince hrange hage, decide_eq_false]
  unfold hourMicros
  omega

/-! ### An hour that is not over -/

/-- The first moment of the calendar. -/
def firstMoment : Moment := ⟨⟨1, 1, 1⟩, 0, 0, 0, 0, some 0⟩

/-- A microsecond before one o'clock on a first of January. -/
def beforeOne : Moment := ⟨⟨2024, 1, 1⟩, 0, 59, 59, 999999, some 0⟩

/-- The age of a record from the first moment of the calendar. -/
theorem ageHours_exact_of_first :
    firstMoment.IsValid ∧ beforeOne.IsValid ∧ ageHours firstMoment beforeOne = .ok 17733241 := by
  have hfirst : firstMoment.IsValid := by decide
  have hbefore : beforeOne.IsValid := by decide
  obtain ⟨hage, -⟩ := ageHours_exact hfirst hbefore rfl rfl rfl
  exact ⟨hfirst, hbefore, hage.trans (by decide)⟩

/-- **A record is stale a microsecond too early**: its age is counted as one hour more than the
    whole hours that are over. -/
theorem ageHours_misses_hour :
    ageHours firstMoment beforeOne =
      .ok ((beforeOne.instant - firstMoment.instant).tdiv hourMicros + 1) ∧
    isStale firstMoment 17733240 beforeOne = .ok true ∧
    beforeOne.instant - firstMoment.instant < (17733240 + 1) * hourMicros := by
  decide

end ages

end Regen
