import Regen.Proofs.Time.Iso

/-! # Spans between moments

    The calendar has the years 1 to 9999, so that no two of its moments are further apart than that,
    whatever their offsets. -/

namespace Regen.Time

/-- A date of the calendar has a day number below that of the year 10000. -/
theorem Date.dayNumber_lt {d : Date} (h : d.isValid = true) : d.dayNumber < 3652500 := by
  have hdays := daysInMonth_le d.year d.month
  simp only [isValid, Bool.and_eq_true, decide_eq_true_eq] at h
  obtain ⟨⟨⟨⟨⟨-, hyear⟩, -⟩, -⟩, -⟩, hday⟩ := h
  unfold dayNumber
  dsimp only
  split <;> omega

namespace Moment

/-- **A moment is valid** if its date is one of the calendar, its clock shows a time of day, and its
    offset is shorter than a day. -/
structure IsValid (t : Moment) : Prop where
  date : t.date.isValid = true
  hour : t.hour ≤ 23
  minute : t.minute ≤ 59
  second : t.second ≤ 59
  micro : t.micro ≤ 999999
  offset : ∀ o ∈ t.offset, -dayMicros < o ∧ o < dayMicros

instance (t : Moment) : Decidable t.IsValid :=
  decidable_of_iff (t.date.isValid = true ∧ t.hour ≤ 23 ∧ t.minute ≤ 59 ∧ t.second ≤ 59 ∧
      t.micro ≤ 999999 ∧ ∀ o ∈ t.offset, -dayMicros < o ∧ o < dayMicros)
    ⟨fun ⟨hdate, hhour, hminute, hsecond, hmicro, hoffset⟩ =>
      ⟨hdate, hhour, hminute, hsecond, hmicro, hoffset⟩,
    fun h => ⟨h.date, h.hour, h.minute, h.second, h.micro, h.offset⟩⟩

variable {s t : Moment}

theorem IsValid.clockMicros_bounds (h : t.IsValid) :
    0 ≤ t.clockMicros ∧ t.clockMicros < 3652500 * dayMicros := by
  obtain ⟨hdate, hhour, hminute, hsecond, hmicro, -⟩ := h
  have hday := Date.dayNumber_lt hdate
  unfold clockMicros dayMicros
  omega

theorem IsValid.instant_bounds (h : t.IsValid) :
    -dayMicros < t.instant ∧ t.instant < 3652501 * dayMicros := by
  have hclock := h.clockMicros_bounds
  have hoffset := h.offset
  unfold instant
  unfold dayMicros at *
  cases ho : t.offset with
  | none =>
    rw [Option.getD_none]
    omega
  | some o =>
    have := hoffset o ho
    rw [Option.getD_some]
    omega

/-- **The span between two valid moments** is shorter than 2^39 seconds. -/
theorem IsValid.span_lt (hs : s.IsValid) (ht : t.IsValid) :
    (s.instant - t.instant).natAbs < 1000000 * 2 ^ 39 := by
  have hs := hs.instant_bounds
  have ht := ht.instant_bounds
  unfold dayMicros at *
  omega

/-- The distance of moments that both have an offset. -/
theorem microsSince_of_offsets (hs : s.offset.isSome) (ht : t.offset.isSome) :
    s.microsSince t = .ok (s.instant - t.instant) := by
  rw [microsSince, hs, ht, beq_self_eq_true, if_pos rfl]

end Moment

end Regen.Time
