import Mathlib.Data.List.Induction
import Regen.Proofs.Outcome
import Regen.Proofs.Time.Shown
import Regen.Value.Convert
import Regen.Yaml.ScalarValue

/-! # Moments that are read

    A moment is read from a text in standard form or from a scalar of a document.  Both readers
    judge the fields, so that what they give is valid.  A text can name an offset to the
    microsecond, but one of less than a second is taken for none; a scalar names hours and minutes
    only.  So a clock that shows seconds tells every offset that can be read from none. -/

namespace Regen

open Time Number

/-! ## Digits -/

/-- A run of digits is less than the first number that needs one more. -/
theorem digitRun_lt {ds : List Char} (h : ∀ c ∈ ds, c.isDigit) : digitRun ds < 10 ^ ds.length := by
  induction ds using List.reverseRecOn with
  | nil => exact Nat.one_pos
  | append_singleton ds c ih =>
    have hfront := ih fun c hc => h c (List.mem_append_left _ hc)
    have hlast : c.toNat ≤ 57 := by
      have hdigit := h c (List.mem_append_right _ List.mem_cons_self)
      simp only [Char.isDigit, Bool.and_eq_true, decide_eq_true_eq] at hdigit
      exact hdigit.2
    unfold digitRun at hfront ⊢
    rw [List.foldl_append, List.length_append, List.length_singleton, Nat.pow_succ]
    simp only [List.foldl_cons, List.foldl_nil]
    omega

/-- The first digits of a fraction, filled up to six, are less than a second. -/
theorem micros_lt {n count : Nat} (hn : n < 10 ^ count) (hcount : count ≤ 6) :
    n * 10 ^ (6 - count) < 1000000 := by
  have hpos : 0 < 10 ^ (6 - count) := Nat.pow_pos (by omega)
  calc n * 10 ^ (6 - count) < 10 ^ count * 10 ^ (6 - count) :=
        Nat.mul_lt_mul_of_pos_right hn hpos
    _ = 10 ^ 6 := by rw [← Nat.pow_add, Nat.add_sub_cancel' hcount]

namespace Time

/-! ## Texts in standard form -/

namespace Iso

variable {next : Char} {fields : List Nat} {cs : List Char} {k : Clock} {left : Bool}
  {o : Option Int}

theorem lt_of_digits? {n m : Nat} {rest : List Char} (h : digits? n cs = some (m, rest)) :
    m < 10 ^ n := by
  unfold digits? at h
  dsimp only at h
  split at h
  · next hdigits =>
    simp only [Bool.and_eq_true, decide_eq_true_eq, List.all_eq_true] at hdigits
    obtain ⟨hlen, hall⟩ := hdigits
    obtain ⟨rfl, -⟩ := Prod.mk.inj (Option.some.inj h)
    have hlt := digitRun_lt hall
    rwa [hlen] at hlt
  · cases h

theorem micro_of_fraction (h : fraction next fields cs = some (k, left)) : k.micro < 1000000 := by
  obtain ⟨⟨n, rest⟩, hdigits, h⟩ := Option.bind_eq_some_iff.mp h
  obtain ⟨rfl, -⟩ := Prod.mk.inj (Option.some.inj h)
  exact micros_lt (lt_of_digits? hdigits) (Nat.min_le_right _ _)

theorem micro_of_clockFields {colons : Bool} {n : Nat}
    (h : clockFields next fields colons n cs = some (k, left)) : k.micro < 1000000 := by
  induction n generalizing fields colons cs with
  | zero => exact micro_of_fraction h
  | succ n ih =>
    obtain ⟨⟨m, rest⟩, -, h⟩ := Option.bind_eq_some_iff.mp h
    dsimp only at h
    generalize (rest ++ [next]).headD next = c at h
    generalize (if (fields ++ [m]).length = 1 then c == ':' else colons) = colons at h
    split at h
    · obtain ⟨rfl, -⟩ := Prod.mk.inj (Option.some.inj h)
      exact Nat.succ_pos _
    · split at h
      · exact ih h
      · split at h
        · exact micro_of_fraction h
        · split at h
          · exact ih h
          · cases h

theorem of_timeOfDay (h : timeOfDay cs = some (k, o)) :
    k.micro < 1000000 ∧ ∀ x ∈ o, Moment.IsSeen x := by
  obtain ⟨⟨k', left⟩, hclock, h⟩ := Option.bind_eq_some_iff.mp h
  have hmicro : k'.micro < 1000000 := micro_of_clockFields hclock
  dsimp only at h
  split at h
  · split at h
    · cases h
    · obtain ⟨rfl, rfl⟩ := Prod.mk.inj (Option.some.inj h)
      exact ⟨hmicro, fun x hx => by cases hx⟩
  · split at h
    · obtain ⟨rfl, rfl⟩ := Prod.mk.inj (Option.some.inj h)
      exact ⟨hmicro, fun x hx => .inl (Option.some.inj hx).symm⟩
    · cases h
  · obtain ⟨⟨z, left'⟩, -, h⟩ := Option.bind_eq_some_iff.mp h
    dsimp only at h
    split at h
    · cases h
    · obtain ⟨rfl, rfl⟩ := Prod.mk.inj (Option.some.inj h)
      refine ⟨hmicro, fun x hx => ?_⟩
      obtain rfl := Option.some.inj hx
      unfold Moment.IsSeen
      split <;> split <;> omega

theorem of_parts? {date : DateReading} (h : parts? cs = some (date, k, o)) :
    k.micro < 1000000 ∧ ∀ x ∈ o, Moment.IsSeen x := by
  obtain ⟨date', -, h⟩ := Option.bind_eq_some_iff.mp h
  split at h
  · obtain ⟨-, h⟩ := Prod.mk.inj (Option.some.inj h)
    obtain ⟨rfl, rfl⟩ := Prod.mk.inj h
    exact ⟨Nat.succ_pos _, fun x hx => by cases hx⟩
  · obtain ⟨⟨k', o'⟩, htime, h⟩ := Option.map_eq_some_iff.mp h
    obtain ⟨-, h⟩ := Prod.mk.inj h
    obtain ⟨rfl, rfl⟩ := Prod.mk.inj h
    exact of_timeOfDay htime

end Iso

/-- An offset that is judged is shorter than a day. -/
theorem of_judgedOffset {x : Int} {o : Option Int} (h : (checkOffset x).map some = .ok o) :
    o = some x ∧ -dayMicros < x ∧ x < dayMicros := by
  unfold checkOffset at h
  split at h
  · next hrange =>
    simp only [Bool.and_eq_true, decide_eq_true_eq] at hrange
    exact ⟨(Except.ok.inj h).symm, hrange⟩
  · cases h

namespace Moment

/-- Fields that are judged make a moment as it is written, if the fraction and the offset are
    so. -/
theorem isWritten_of_ofFields? {year month day hour minute second micro : Nat} {o : Option Int}
    {t : Moment} (h : ofFields? year month day hour minute second micro o = .ok t)
    (hmicro : micro < 1000000) (hshort : ∀ x ∈ o, -dayMicros < x ∧ x < dayMicros)
    (hseen : ∀ x ∈ o, IsSeen x) : t.IsWritten := by
  obtain ⟨date, hdate, h⟩ := bind_eq_ok.mp h
  split at h
  · cases h
  · split at h
    · cases h
    · split at h
      · cases h
      · obtain rfl := Except.ok.inj h
        exact ⟨⟨Date.isValid_of_ofFields? hdate, by dsimp only; omega, by dsimp only; omega,
          by dsimp only; omega, by dsimp only; omega, hshort⟩, hseen⟩

/-- **A moment that is read from its text** is as it is written. -/
theorem isWritten_of_moment? {s : String} {t : Moment} (h : Iso.moment? s = .ok t) :
    t.IsWritten := by
  unfold Iso.moment? at h
  split at h
  · cases h
  · next date k o hparts =>
    obtain ⟨hmicro, hseen⟩ := Iso.of_parts? hparts
    cases o with
    | none =>
      cases date with
      | beforeFirstYear => cases h
      | fields year month day =>
        exact isWritten_of_ofFields? h hmicro (fun x hx => by cases hx) hseen
    | some x =>
      obtain ⟨o, ho, h⟩ := bind_eq_ok.mp h
      obtain ⟨rfl, hshort⟩ := of_judgedOffset ho
      cases date with
      | beforeFirstYear => cases h
      | fields year month day =>
        exact isWritten_of_ofFields? h hmicro (fun y hy => Option.some.inj hy ▸ hshort) hseen

/-- A moment that is taken as universal time for want of an offset is as it is written. -/
theorem IsWritten.assumeUtc {t : Moment} (h : t.IsWritten) : t.assumeUtc.IsWritten := by
  obtain ⟨⟨hdate, hhour, hminute, hsecond, hmicro, hshort⟩, hseen⟩ := h
  cases ho : t.offset with
  | none =>
    have hzero : t.assumeUtc.offset = some 0 := by rw [Moment.assumeUtc, ho, Option.getD_none]
    refine ⟨⟨hdate, hhour, hminute, hsecond, hmicro, fun x hx => ?_⟩, fun x hx => ?_⟩
    · obtain rfl := Option.some.inj (hzero.symm.trans hx)
      decide
    · exact .inl (Option.some.inj (hzero.symm.trans hx)).symm
  | some o =>
    have hsame : t.assumeUtc.offset = t.offset := by
      rw [Moment.assumeUtc, ho, Option.getD_some]
    exact ⟨⟨hdate, hhour, hminute, hsecond, hmicro, hsame ▸ hshort⟩, hsame ▸ hseen⟩

end Moment

end Time

/-! ## Scalars of documents -/

namespace Yaml

theorem fraction_of_clock? {form form' : TimeForm} {cs : List Char}
    (h : clock? form cs = some form') : ∀ c ∈ form'.fraction, c.isDigit := by
  unfold clock? at h
  dsimp only at h
  split at h
  on_goal 3 => split at h
  -- Behind each separator the clock is read in the same way.
  all_goals
    obtain ⟨_, -, h⟩ := Option.bind_eq_some_iff.mp h
    obtain ⟨_, -, h⟩ := Option.bind_eq_some_iff.mp h
    obtain ⟨_, -, h⟩ := Option.bind_eq_some_iff.mp h
    obtain ⟨second, -, h⟩ := Option.bind_eq_some_iff.mp h
    obtain ⟨zone, -, h⟩ := Option.bind_eq_some_iff.mp h
    obtain rfl := Option.some.inj h
    dsimp only
    split
    · exact fun c hc => List.all_eq_true.mp List.all_takeWhile c hc
    · exact fun c hc => by cases hc

/-- The fraction of a time consists of digits. -/
theorem fraction_of_timeForm? {form : TimeForm} {cs : List Char} (h : timeForm? cs = some form) :
    ∀ c ∈ form.fraction, c.isDigit := by
  obtain ⟨_, -, h⟩ := Option.bind_eq_some_iff.mp h
  obtain ⟨_, -, h⟩ := Option.bind_eq_some_iff.mp h
  obtain ⟨⟨day, rest⟩, -, h⟩ := Option.bind_eq_some_iff.mp h
  dsimp only at h
  split at h
  · obtain rfl := Option.some.inj h
    exact fun c hc => by cases hc
  · exact fraction_of_clock? h

theorem fractionMicros_lt {ds : List Char} (h : ∀ c ∈ ds, c.isDigit) :
    fractionMicros ds < 1000000 :=
  micros_lt (digitRun_lt fun c hc => h c (List.mem_of_mem_take hc)) (List.length_take_le _ _)

/-- **A scalar with the tag of a time** is a date, or a moment as it is written. -/
theorem of_timeValue {id : Nat} {text : String} {v : Value} (h : timeValue id text = .ok v) :
    (∃ d label, v = .date d label) ∨ ∃ t label, v = .time t label ∧ t.IsWritten := by
  unfold timeValue at h
  dsimp only at h
  split at h
  · cases h
  · next form hform =>
    have hmicro := fractionMicros_lt (fraction_of_timeForm? hform)
    split at h
    · obtain ⟨d, -, h⟩ := bind_eq_ok.mp h
      obtain rfl := Except.ok.inj h
      exact .inl ⟨d, some id, rfl⟩
    · refine .inr ?_
      split at h
      · obtain ⟨o, ho, h⟩ := bind_eq_ok.mp h
        obtain ⟨t, ht, h⟩ := bind_eq_ok.mp h
        obtain rfl := Except.ok.inj h
        obtain rfl := Except.ok.inj ho
        exact ⟨t, some id, rfl, Moment.isWritten_of_ofFields? ht hmicro (fun x hx => by cases hx)
          fun x hx => by cases hx⟩
      · obtain ⟨o, ho, h⟩ := bind_eq_ok.mp h
        obtain ⟨t, ht, h⟩ := bind_eq_ok.mp h
        obtain rfl := Except.ok.inj h
        obtain rfl := Except.ok.inj ho
        refine ⟨t, some id, rfl, Moment.isWritten_of_ofFields? ht hmicro (fun x hx => ?_)
          fun x hx => .inl (Option.some.inj hx).symm⟩
        obtain rfl := Option.some.inj hx
        decide
      · obtain ⟨o, ho, h⟩ := bind_eq_ok.mp h
        obtain ⟨t, ht, h⟩ := bind_eq_ok.mp h
        obtain rfl := Except.ok.inj h
        obtain ⟨rfl, hshort⟩ := of_judgedOffset ho
        refine ⟨t, some id, rfl, Moment.isWritten_of_ofFields? ht hmicro
          (fun x hx => Option.some.inj hx ▸ hshort) fun x hx => ?_⟩
        obtain rfl := Option.some.inj hx
        unfold Moment.IsSeen
        split <;> omega

end Yaml

end Regen
