import Regen.Proofs.Time.Span

/-! # Moments as they are shown

    A moment is shown to the second on its own clock, with no word of its offset.  The text tells
    the second of the clock and nothing else, so two moments look the same when their clocks agree
    to the second.  A moment and the same instant in universal time look the same only if the
    moment is in universal time: an offset that was read is a second at least. -/

namespace Regen.Time

/-! ## Texts of numbers -/

/-- Numbers of at most `width` digits have different padded texts. -/
theorem pad_inj {width n m : Nat} (hw : 0 < width) (hn : n < 10 ^ width) (hm : m < 10 ^ width)
    (h : (pad width n).toList = (pad width m).toList) : n = m := by
  have hfirst := (isNumeral_pad hw hn).value
  have hsecond := (isNumeral_pad hw hm).value
  rw [← hfirst, h, hsecond]

/-- A number in front of a hyphen can be told from the text. -/
theorem toDigits_hyphen_inj {n m : Nat} {cs ds : List Char}
    (h : Nat.toDigits 10 n ++ '-' :: cs = Nat.toDigits 10 m ++ '-' :: ds) : n = m ∧ cs = ds := by
  have hfront (k : Nat) (es : List Char) :
      (Nat.toDigits 10 k ++ '-' :: es).takeWhile Char.isDigit = Nat.toDigits 10 k := by
    have hdigits : ∀ c ∈ Nat.toDigits 10 k, c.isDigit := fun c hc =>
      Nat.isDigit_of_mem_toDigits (by omega) (by omega) hc
    rw [List.takeWhile_append_of_pos hdigits]
    exact List.append_nil _
  have hdigits : Nat.toDigits 10 n = Nat.toDigits 10 m := by
    rw [← hfront n cs, h, hfront m ds]
  have hnumber : n = m := by
    have hvalue := congrArg (Nat.ofDigitChars 10 · 0) hdigits
    simpa only [Nat.ofDigitChars_ten_toDigits] using hvalue
  rw [hdigits] at h
  exact ⟨hnumber, (List.cons.inj (List.append_cancel_left h)).2⟩

/-- Two digits in front of a separator can be told from the text. -/
theorem pad_append_inj {n m : Nat} {cs ds : List Char} (hn : n < 100) (hm : m < 100)
    (h : (pad 2 n).toList ++ cs = (pad 2 m).toList ++ ds) : n = m ∧ cs = ds := by
  have hlen : (pad 2 n).toList.length = (pad 2 m).toList.length := by
    rw [(isNumeral_pad (by omega) hn).length, (isNumeral_pad (by omega) hm).length]
  obtain ⟨hpad, hrest⟩ := List.append_inj h hlen
  exact ⟨pad_inj (by omega) hn hm hpad, hrest⟩

theorem Date.eq_of_fields {d e : Date} (hyear : d.year = e.year) (hmonth : d.month = e.month)
    (hday : d.day = e.day) : d = e := by
  cases d
  cases e
  rw [Date.mk.injEq]
  exact ⟨hyear, hmonth, hday⟩

theorem Date.isValid_of_ofFields? {y m d : Nat} {r : Date} (h : ofFields? y m d = .ok r) :
    r.isValid = true := by
  simp only [ofFields?, Bool.or_eq_true, decide_eq_true_eq] at h
  split at h
  · cases h
  · split at h
    · cases h
    · split at h
      · cases h
      · cases h
        simp only [isValid, Bool.and_eq_true, decide_eq_true_eq]
        omega

namespace Moment

variable {s t u : Moment}

theorem toList_secondText (t : Moment) :
    t.secondText.toList = Nat.toDigits 10 t.date.year ++ '-' :: ((pad 2 t.date.month).toList ++
      '-' :: ((pad 2 t.date.day).toList ++ ' ' :: ((pad 2 t.hour).toList ++
      ':' :: ((pad 2 t.minute).toList ++ ':' :: (pad 2 t.second).toList)))) := by
  simp [secondText, minuteText, toString, Nat.repr]

/-- The fields of a valid moment have at most two digits, the year apart. -/
theorem IsValid.fields_lt (h : t.IsValid) :
    t.date.month < 100 ∧ t.date.day < 100 ∧ t.hour < 100 ∧ t.minute < 100 ∧ t.second < 100 := by
  have hdays := daysInMonth_le t.date.year t.date.month
  obtain ⟨hdate, hhour, hminute, hsecond, -, -⟩ := h
  simp only [Date.isValid, Bool.and_eq_true, decide_eq_true_eq] at hdate
  omega

/-- The shown text tells the date and the clock to the second. -/
theorem eq_of_secondText (hs : s.IsValid) (ht : t.IsValid) (h : s.secondText = t.secondText) :
    s.date = t.date ∧ s.hour = t.hour ∧ s.minute = t.minute ∧ s.second = t.second := by
  obtain ⟨hmonth, hday, hhour, hminute, hsecond⟩ := hs.fields_lt
  obtain ⟨hmonth', hday', hhour', hminute', hsecond'⟩ := ht.fields_lt
  have h := congrArg String.toList h
  rw [toList_secondText, toList_secondText] at h
  obtain ⟨hyears, h⟩ := toDigits_hyphen_inj h
  obtain ⟨hmonths, h⟩ := pad_append_inj hmonth hmonth' h
  obtain ⟨hdays, h⟩ := pad_append_inj hday hday' (List.cons.inj h).2
  obtain ⟨hhours, h⟩ := pad_append_inj hhour hhour' (List.cons.inj h).2
  obtain ⟨hminutes, h⟩ := pad_append_inj hminute hminute' (List.cons.inj h).2
  have hseconds := pad_inj (by omega) hsecond hsecond' (List.cons.inj h).2
  exact ⟨Date.eq_of_fields hyears hmonths hdays, hhours, hminutes, hseconds⟩

/-- **Two valid moments look the same** if their clocks agree to the second. -/
theorem secondText_eq_iff (hs : s.IsValid) (ht : t.IsValid) :
    s.secondText = t.secondText ↔ s.clockMicros / 1000000 = t.clockMicros / 1000000 := by
  have hmicro := hs.micro
  have hmicro' := ht.micro
  constructor
  · intro h
    obtain ⟨hdate, hhour, hminute, hsecond⟩ := eq_of_secondText hs ht h
    unfold clockMicros
    rw [hdate, hhour, hminute, hsecond]
    unfold dayMicros
    omega
  · intro h
    obtain ⟨hdate, hhour, hminute, hsecond, -, -⟩ := hs
    obtain ⟨hdate', hhour', hminute', hsecond', -, -⟩ := ht
    unfold clockMicros dayMicros at h
    have hdays : s.date.dayNumber = t.date.dayNumber := by omega
    have hdates : s.date = t.date := by
      rw [← Date.ofDayNumber_dayNumber hdate, hdays, Date.ofDayNumber_dayNumber hdate']
    have hhours : s.hour = t.hour := by omega
    have hminutes : s.minute = t.minute := by omega
    have hseconds : s.second = t.second := by omega
    unfold secondText minuteText
    rw [hdates, hhours, hminutes, hseconds]

/-! ## Universal time -/

theorem isValid_of_toUtc (h : t.toUtc = .ok u) : u.IsValid := by
  obtain ⟨rfl, n, hfirst, hlast, hn⟩ := toUtc_eq_ok h
  obtain ⟨hhour, hminute, hsecond, hmicro⟩ := bounds_ofClockMicros t.instant (some 0)
  refine ⟨?_, hhour, hminute, hsecond, hmicro, ?_⟩
  · have hdate : (ofClockMicros t.instant (some 0)).date = Date.ofDayNumber n := by
      simp only [ofClockMicros, hn, Int.toNat_natCast]
    rw [hdate]
    exact Date.isValid_of_ofFields? (Date.ofFields?_ofDayNumber hfirst hlast)
  · intro o ho
    cases ho
    decide

/-- A valid moment in universal time has its instant in the calendar. -/
theorem IsValid.exists_toUtc (h : t.IsValid) (ho : t.offset = some 0) : ∃ u, t.toUtc = .ok u := by
  have hinstant : t.instant / dayMicros = (t.date.dayNumber : Int) := by
    obtain ⟨-, hhour, hminute, hsecond, hmicro, -⟩ := h
    unfold instant clockMicros dayMicros
    rw [ho, Option.getD_some]
    omega
  obtain ⟨hfirst, hlast⟩ := Date.dayNumber_bounds h.date
  refine ⟨_, if_neg ?_⟩
  simp only [hinstant, Bool.or_eq_true, decide_eq_true_eq, not_or, not_lt]
  exact ⟨Int.ofNat_le.mpr hfirst, Int.ofNat_le.mpr hlast⟩

/-- An offset is seen on a clock that shows seconds, unless it is zero. -/
def IsSeen (o : Int) : Prop := o = 0 ∨ 1000000 ≤ o.natAbs

/-- **A moment as it is read**: it is valid, and an offset that is not zero is a second at
    least. -/
structure IsWritten (t : Moment) : Prop where
  valid : t.IsValid
  offset : ∀ o ∈ t.offset, IsSeen o

/-- **A moment is shown in universal time** only if it is in universal time. -/
theorem IsWritten.secondText_toUtc_iff {o : Int} (h : t.IsWritten) (ho : t.offset = some o) :
    (∃ u, t.toUtc = .ok u ∧ u.secondText = t.secondText) ↔ o = 0 := by
  have hclock {u : Moment} (hu : t.toUtc = .ok u) : u.clockMicros = t.clockMicros - o := by
    have hsame := instant_of_toUtc hu
    rw [instant, instant, offset_of_toUtc hu, ho, Option.getD_some, Option.getD_some] at hsame
    omega
  constructor
  · rintro ⟨u, hu, htext⟩
    rw [secondText_eq_iff (isValid_of_toUtc hu) h.valid, hclock hu] at htext
    rcases h.offset o ho with hzero | hfar
    · exact hzero
    · omega
  · rintro rfl
    obtain ⟨u, hu⟩ := h.valid.exists_toUtc ho
    refine ⟨u, hu, ?_⟩
    rw [secondText_eq_iff (isValid_of_toUtc hu) h.valid, hclock hu, Int.sub_zero]

end Moment

end Regen.Time
