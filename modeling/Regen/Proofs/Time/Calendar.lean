import Mathlib.Tactic.IntervalCases
import Regen.Time.Calendar

/-! # Dates and day numbers

    A day number is taken apart into its era of 400 years and its place in that era: a century,
    a cycle of four years, a year of the cycle and a day of that year.  Years start in March here,
    so only the last year of a cycle can have a 366th day, and the last cycle of a century lacks
    it except in the last century.  In these terms every division in the reckoning is exact. -/

namespace Regen.Time.Date

/-! ## Places in an era -/

/-- Century `c`, cycle `q`, year `t` and day `s` name a day of an era. -/
structure IsPlace (c q t s : Nat) : Prop where
  century : c ≤ 3
  cycle : q ≤ 24
  year : t ≤ 3
  day : s ≤ 364 ∨ s = 365 ∧ t = 3 ∧ (q < 24 ∨ c = 3)

/-- The number of a day in its era. -/
def dayOfEra (c q t s : Nat) : Nat := 36524 * c + 1461 * q + 365 * t + s

theorem exists_place {e : Nat} (h : e < 146097) :
    ∃ c q t s, IsPlace c q t s ∧ e = dayOfEra c q t s := by
  obtain ⟨c, hc⟩ : ∃ c, c = min (e / 36524) 3 := ⟨_, rfl⟩
  obtain ⟨q, hq⟩ : ∃ q, q = (e - 36524 * c) / 1461 := ⟨_, rfl⟩
  obtain ⟨t, ht⟩ : ∃ t, t = min ((e - 36524 * c - 1461 * q) / 365) 3 := ⟨_, rfl⟩
  have hle : 36524 * c + 1461 * q + 365 * t ≤ e := by omega
  obtain ⟨s, hs⟩ : ∃ s, e = 36524 * c + 1461 * q + 365 * t + s := Nat.exists_eq_add_of_le hle
  refine ⟨c, q, t, s, ⟨?_, ?_, ?_, ?_⟩, hs⟩ <;> omega

/-- The year of a day of an era, as it is computed from the number of the day. -/
theorem yearOfEra_eq {c q t s e : Nat} (h : IsPlace c q t s) (he : e = dayOfEra c q t s) :
    (e - e / 1460 + e / 36524 - e / 146096) / 365 = 100 * c + 4 * q + t := by
  obtain ⟨hc, hq, ht, hs⟩ := h
  unfold dayOfEra at he
  -- the first quotient counts the leap days before `e`, and one too many near the end of a cycle
  have hleap : e / 1460 = 25 * c + q + (24 * c + q + 365 * t + s) / 1460 := by omega
  have hextra : (24 * c + q + 365 * t + s) / 1460 =
      if 1460 ≤ 24 * c + q + 365 * t + s then 1 else 0 := by split <;> omega
  by_cases hlast : e = 146096
  · subst hlast
    omega
  · have hera : e / 146096 = 0 := by omega
    have hcentury : e / 36524 = c := by
      rw [Nat.div_eq_iff (by omega)]
      omega
    split at hextra <;> omega

theorem isLeapYear_of_place {c q t s y : Nat} (h : IsPlace c q t s)
    (hy : y % 400 = 100 * c + 4 * q + t) (hs : s = 365) : isLeapYear (y + 1) := by
  obtain ⟨hc, hq, ht, hd⟩ := h
  simp only [isLeapYear, Bool.and_eq_true, Bool.or_eq_true, beq_iff_eq, bne_iff_ne]
  omega

/-! ## Years that start in March -/

/-- The date of a day of a year that starts in March. -/
def ofMarch (year day : Nat) : Date :=
  let mp := (5 * day + 2) / 153
  ⟨if mp < 10 then year else year + 1, if mp < 10 then mp + 3 else mp - 9,
    day - (153 * mp + 2) / 5 + 1⟩

/-- The day number of a day of a year that starts in March. -/
def marchDay (year day : Nat) : Nat :=
  year / 400 * 146097 + year % 400 * 365 + year % 400 / 4 - year % 400 / 100 + day

theorem dayNumber_ofMarch {y s : Nat} (h : s ≤ 365) :
    (ofMarch y s).dayNumber = marchDay y s := by
  unfold ofMarch dayNumber marchDay
  dsimp only
  generalize hmp : (5 * s + 2) / 153 = mp
  have hle : mp ≤ 11 := by omega
  have hmonth : ((if mp < 10 then mp + 3 else mp - 9) + 9) % 12 = mp := by split <;> omega
  have hyear : (if (if mp < 10 then mp + 3 else mp - 9) ≤ 2
      then (if mp < 10 then y else y + 1) - 1 else if mp < 10 then y else y + 1) = y := by
    split <;> split <;> omega
  rw [hmonth, hyear]
  omega

/-- A month is long enough for the days that are reckoned to it. -/
theorem le_daysInMonth_ofMarch {y s : Nat} (h : s ≤ 365) (hleap : s = 365 → isLeapYear (y + 1)) :
    (ofMarch y s).day ≤ daysInMonth (ofMarch y s).year (ofMarch y s).month := by
  unfold ofMarch daysInMonth
  dsimp only
  generalize hmp : (5 * s + 2) / 153 = mp
  have hle : mp ≤ 11 := by omega
  interval_cases mp <;> simp <;> try omega
  -- February is left, the last month of the year of reckoning
  split
  · omega
  · have : s ≠ 365 := fun hs => by simp_all
    omega

theorem ofDayNumber_eq {n c q t s : Nat} (h : IsPlace c q t s)
    (hn : n % 146097 = dayOfEra c q t s) :
    ofDayNumber n = ofMarch (400 * (n / 146097) + 100 * c + 4 * q + t) s := by
  have hday : n % 146097 - (365 * (100 * c + 4 * q + t) + (100 * c + 4 * q + t) / 4 -
      (100 * c + 4 * q + t) / 100) = s := by
    obtain ⟨hc, hq, ht, hs⟩ := h
    have hcycles : (100 * c + 4 * q + t) / 4 = 25 * c + q := by omega
    have hcenturies : (100 * c + 4 * q + t) / 100 = c := by omega
    rw [hn, hcycles, hcenturies]
    unfold dayOfEra
    omega
  unfold ofDayNumber ofMarch
  simp only [yearOfEra_eq h hn, hday]
  generalize hmp : (5 * s + 2) / 153 = mp
  have : mp ≤ 11 := by have := h.day; omega
  congr 1
  split <;> split <;> omega

/-- Every day number is the number of a day of a year that starts in March, and its date is the
    date of that day. -/
theorem exists_ofMarch (n : Nat) : ∃ y s, ofDayNumber n = ofMarch y s ∧ s ≤ 365 ∧
    (s = 365 → isLeapYear (y + 1)) ∧ marchDay y s = n := by
  obtain ⟨c, q, t, s, h, he⟩ := exists_place (Nat.mod_lt n (by omega : 0 < 146097))
  have hy : (400 * (n / 146097) + 100 * c + 4 * q + t) % 400 = 100 * c + 4 * q + t := by
    have := h.century
    have := h.cycle
    have := h.year
    omega
  refine ⟨400 * (n / 146097) + 100 * c + 4 * q + t, s, ofDayNumber_eq h he, ?_, ?_, ?_⟩
  · have := h.day
    omega
  · exact isLeapYear_of_place h hy
  · obtain ⟨hc, hq, ht, hs⟩ := h
    unfold dayOfEra at he
    have hera : (400 * (n / 146097) + 100 * c + 4 * q + t) / 400 = n / 146097 := by omega
    have hcycles : (100 * c + 4 * q + t) / 4 = 25 * c + q := by omega
    have hcenturies : (100 * c + 4 * q + t) / 100 = c := by omega
    rw [marchDay, hera, hy, hcycles, hcenturies]
    omega

/-! ## Dates of day numbers -/

/-- A day number is the number of its date. -/
theorem dayNumber_ofDayNumber (n : Nat) : (ofDayNumber n).dayNumber = n := by
  obtain ⟨y, s, he, hs, -, hn⟩ := exists_ofMarch n
  rw [he, dayNumber_ofMarch hs, hn]

/-- The date of a day number in the range of the calendar exists. -/
theorem ofFields?_ofDayNumber {n : Nat} (hfirst : firstDay ≤ n) (hlast : n ≤ lastDay) :
    ofFields? (ofDayNumber n).year (ofDayNumber n).month (ofDayNumber n).day =
      .ok (ofDayNumber n) := by
  have hfirst : 306 ≤ n := hfirst
  have hlast : n ≤ 3652364 := hlast
  obtain ⟨y, s, he, hs, hleap, hn⟩ := exists_ofMarch n
  have hyear : ¬ ((ofMarch y s).year < 1 ∨ 9999 < (ofMarch y s).year) := by
    unfold ofMarch
    unfold marchDay at hn
    dsimp only
    split <;> omega
  have hmonth : ¬ ((ofMarch y s).month < 1 ∨ 12 < (ofMarch y s).month) := by
    unfold ofMarch
    dsimp only
    split <;> omega
  have hday : ¬ ((ofMarch y s).day < 1 ∨
      daysInMonth (ofMarch y s).year (ofMarch y s).month < (ofMarch y s).day) := by
    have hpos : 1 ≤ (ofMarch y s).day := Nat.le_add_left ..
    have := le_daysInMonth_ofMarch hs hleap
    omega
  simp only [he, ofFields?, Bool.or_eq_true, decide_eq_true_eq, hyear, hmonth, hday, if_false]

/-! ## Day numbers of dates -/

theorem marchDay_succ (y : Nat) :
    marchDay (y + 1) 0 = marchDay y 0 + 365 + if isLeapYear (y + 1) then 1 else 0 := by
  unfold marchDay isLeapYear
  simp only [Bool.and_eq_true, Bool.or_eq_true, beq_iff_eq, bne_iff_ne]
  split <;> omega

/-- Every day of a year comes before the days of later years. -/
theorem marchDay_lt {y y' s : Nat} (hs : s ≤ 365) (hleap : s = 365 → isLeapYear (y + 1))
    (hlt : y < y') (s' : Nat) : marchDay y s < marchDay y' s' := by
  have hfirst : marchDay y s < marchDay (y + 1) 0 := by
    have hsucc := marchDay_succ y
    have hadd : marchDay y s = marchDay y 0 + s := rfl
    split at hsucc
    · omega
    · next hno =>
      have hne : s ≠ 365 := fun heq => hno (hleap heq)
      omega
  have hlater : ∀ k, marchDay (y + 1) 0 ≤ marchDay (y + 1 + k) 0 := by
    intro k
    induction k with
    | zero => exact Nat.le_refl _
    | succ k ih =>
      have hsucc := marchDay_succ (y + 1 + k)
      rw [Nat.add_assoc] at hsucc
      split at hsucc <;> omega
  obtain ⟨k, rfl⟩ := Nat.exists_eq_add_of_le (Nat.succ_le_of_lt hlt)
  have hadd : marchDay (y.succ + k) s' = marchDay (y + 1 + k) 0 + s' := rfl
  have := hlater k
  omega

/-- Different days of years that start in March have different numbers. -/
theorem marchDay_inj {y y' s s' : Nat} (hs : s ≤ 365) (hleap : s = 365 → isLeapYear (y + 1))
    (hs' : s' ≤ 365) (hleap' : s' = 365 → isLeapYear (y' + 1))
    (heq : marchDay y s = marchDay y' s') : y = y' ∧ s = s' := by
  have hyear : y = y' := by
    rcases Nat.lt_trichotomy y y' with hlt | hsame | hlt
    · have := marchDay_lt hs hleap hlt s'
      omega
    · exact hsame
    · have := marchDay_lt hs' hleap' hlt s
      omega
  subst hyear
  exact ⟨rfl, Nat.add_left_cancel heq⟩

/-- How far the days of a month go. -/
theorem le_of_le_daysInMonth {year month day : Nat} (h : day ≤ daysInMonth year month) :
    day ≤ 31 ∧ (month = 4 ∨ month = 6 ∨ month = 9 ∨ month = 11 → day ≤ 30) ∧
      (month = 2 → day ≤ 29 ∧ (day = 29 → isLeapYear year)) := by
  unfold daysInMonth at h
  simp only [Bool.or_eq_true, decide_eq_true_eq] at h
  split at h
  · split at h
    · next hleap => exact ⟨by omega, by omega, fun _ => ⟨by omega, fun _ => hleap⟩⟩
    · exact ⟨by omega, by omega, fun _ => ⟨by omega, by omega⟩⟩
  · split at h <;> omega

/-- The day of the year that a day of a month is, in a year that starts in March. -/
def dayOfMarch (month day : Nat) : Nat := (153 * ((month + 9) % 12) + 2) / 5 + day - 1

/-- **A date of the calendar** is a day of a year that starts in March. -/
structure IsMarch (d : Date) (y s : Nat) : Prop where
  date : ofMarch y s = d
  number : marchDay y s = d.dayNumber
  day : s ≤ 365
  leap : s = 365 → isLeapYear (y + 1)
  /-- The last months belong to the year that started before. -/
  year : d.year = if d.month ≤ 2 then y + 1 else y
  early : d.month ≤ 2 ↔ 305 < s

theorem exists_march {d : Date} (h : d.isValid = true) : ∃ y s, IsMarch d y s := by
  obtain ⟨year, month, day⟩ := d
  simp only [isValid, Bool.and_eq_true, decide_eq_true_eq] at h
  obtain ⟨⟨⟨⟨⟨hyear, -⟩, hmonth⟩, hmonth'⟩, hday⟩, hlength⟩ := h
  obtain ⟨hlong, hshort, hfebruary⟩ := le_of_le_daysInMonth hlength
  -- The day of the year tells the month.
  have hmp : (5 * dayOfMarch month day + 2) / 153 = (month + 9) % 12 := by
    unfold dayOfMarch
    interval_cases month <;> omega
  refine ⟨if month ≤ 2 then year - 1 else year, dayOfMarch month day, ?_, rfl, ?_, ?_, ?_, ?_⟩
  · have hback : dayOfMarch month day - (153 * ((month + 9) % 12) + 2) / 5 + 1 = day := by
      unfold dayOfMarch
      omega
    rw [ofMarch, hmp, hback]
    clear hmp hback
    by_cases hearly : month ≤ 2
    · have hmonth : ¬(month + 9) % 12 < 10 := by omega
      rw [if_pos hearly, if_neg hmonth, if_neg hmonth, Nat.sub_add_cancel hyear]
      congr 1
      omega
    · have hmonth : (month + 9) % 12 < 10 := by omega
      rw [if_neg hearly, if_pos hmonth, if_pos hmonth]
      congr 1
      omega
  · unfold dayOfMarch
    interval_cases month <;> omega
  · intro hlast
    unfold dayOfMarch at hlast
    have hmonth : month = 2 := by interval_cases month <;> omega
    subst hmonth
    have hleap := (hfebruary rfl).2 (by omega)
    rwa [if_pos (Nat.le_refl _), Nat.sub_add_cancel hyear]
  · dsimp only
    split <;> omega
  · dsimp only
    unfold dayOfMarch
    interval_cases month <;> omega

/-- A date is the date of its day number. -/
theorem ofDayNumber_dayNumber {d : Date} (h : d.isValid = true) : ofDayNumber d.dayNumber = d := by
  obtain ⟨y, s, hd⟩ := exists_march h
  obtain ⟨y', s', he, hs', hleap', hn⟩ := exists_ofMarch d.dayNumber
  obtain ⟨rfl, rfl⟩ := marchDay_inj hd.day hd.leap hs' hleap' (hd.number.trans hn.symm)
  exact he.trans hd.date

/-- The day numbers of the calendar's dates lie between those of its first and its last day. -/
theorem dayNumber_bounds {d : Date} (h : d.isValid = true) :
    firstDay ≤ d.dayNumber ∧ d.dayNumber ≤ lastDay := by
  obtain ⟨y, s, hd⟩ := exists_march h
  simp only [isValid, Bool.and_eq_true, decide_eq_true_eq] at h
  obtain ⟨⟨⟨⟨⟨hyear, hyear'⟩, -⟩, -⟩, -⟩, -⟩ := h
  have hfirst : firstDay = marchDay 0 306 := rfl
  have hlast : lastDay = marchDay 9999 305 := rfl
  have hstart := hd.year
  have hearly := hd.early
  rw [← hd.number, hfirst, hlast]
  constructor
  · by_cases hy : y = 0
    -- In the year 0 the calendar has January and February of the year 1.
    · subst hy
      have hlate : 305 < s := by
        split at hstart <;> omega
      exact Nat.add_le_add_left hlate _
    · exact Nat.le_of_lt (marchDay_lt (by omega) (by omega) (Nat.pos_of_ne_zero hy) s)
  · by_cases hy : y = 9999
    · subst hy
      have hlate : s ≤ 305 := by
        split at hstart <;> omega
      exact Nat.add_le_add_left hlate _
    · have hbefore : y < 9999 := by
        split at hstart <;> omega
      exact Nat.le_of_lt (marchDay_lt hd.day hd.leap hbefore 305)

end Regen.Time.Date
