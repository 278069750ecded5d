import Mathlib.Data.List.Basic
import Regen.Proofs.Time.Calendar
import Regen.Time.Iso

/-! # Moments and their text

    The text of a moment in universal time is read back as that moment.  The text is a date of
    three numerals, a clock of three, perhaps a fraction of six digits, and the offset; each
    reader takes its numeral off the front and hands on the rest. -/

namespace Regen.Time

/-! ## Numerals -/

/-- The text is `n` in exactly `width` digits. -/
structure IsNumeral (width n : Nat) (cs : List Char) : Prop where
  length : cs.length = width
  isDigit : ∀ c ∈ cs, c.isDigit
  value : Nat.ofDigitChars 10 cs 0 = n

theorem isDigit_of_mem_pad {width n : Nat} {c : Char} (hc : c ∈ (pad width n).toList) :
    c.isDigit := by
  rw [pad, String.toList_ofList] at hc
  obtain hc | hc := List.mem_append.mp hc
  · rw [List.eq_of_mem_replicate hc]
    rfl
  · exact Nat.isDigit_of_mem_toDigits (by omega) (by omega) hc

theorem isNumeral_pad {width n : Nat} (hw : 0 < width) (hn : n < 10 ^ width) :
    IsNumeral width n (pad width n).toList := by
  have hlen := (Nat.length_toDigits_le_iff (by omega : 1 < 10) hw).mpr hn
  refine ⟨?_, fun c hc => isDigit_of_mem_pad hc, ?_⟩
  · rw [pad, String.toList_ofList]
    simp only [List.length_append, List.length_replicate]
    omega
  · rw [pad, String.toList_ofList]
    have hzeros (k : Nat) (ds : List Char) :
        Nat.ofDigitChars 10 (List.replicate k '0' ++ ds) 0 = Nat.ofDigitChars 10 ds 0 := by
      induction k with
      | zero => rfl
      | succ k ih => simpa [List.replicate_succ, Nat.ofDigitChars] using ih
    rw [hzeros, Nat.ofDigitChars_toDigits (by omega) (by omega)]

theorem IsNumeral.head_ne {width n : Nat} {c x : Char} {cs : List Char}
    (h : IsNumeral width n (c :: cs)) (hx : x.isDigit = false) : c ≠ x := by
  rintro rfl
  have := h.isDigit c List.mem_cons_self
  simp [hx] at this

namespace Iso

variable {y m d h mi s u : Nat} {ys ms ds cs us : List Char}

theorem digits?_append {width n : Nat} (h : IsNumeral width n cs) (rest : List Char) :
    digits? width (cs ++ rest) = some (n, rest) := by
  have htake : (cs ++ rest).take width = cs := List.take_left' h.length
  have hdrop : (cs ++ rest).drop width = rest := List.drop_left' h.length
  have hall : cs.all Char.isDigit := List.all_eq_true.mpr h.isDigit
  have hfold : cs.foldl (fun acc c => acc * 10 + (c.toNat - 0x30)) 0 = n := by
    rw [← h.value, Nat.ofDigitChars]
    congr 1
    funext acc c
    rw [Nat.mul_comm]
    rfl
  simp [digits?, htake, hdrop, hfold, hall, h.length]

theorem digits?_self {width n : Nat} (h : IsNumeral width n cs) :
    digits? width cs = some (n, []) := by
  simpa using digits?_append h []

/-! ## Dates -/

theorem date?_text (hy : IsNumeral 4 y ys) (hm : IsNumeral 2 m ms) (hd : IsNumeral 2 d ds) :
    date? (ys ++ '-' :: (ms ++ '-' :: ds)) = some (.fields y m d) := by
  obtain ⟨c, cs, rfl⟩ := List.exists_cons_of_length_pos (by rw [hm.length]; omega)
  have hmonth := digits?_append hm ('-' :: ds)
  unfold date?
  simp only [digits?_append hy, Option.bind_eq_bind, Option.bind_some]
  split
  · next rest he =>
    simp only [List.cons_append, List.cons.injEq] at he
    exact absurd he.1 (hm.head_ne rfl)
  · rw [hmonth]
    simp [digits?_self hd]

theorem dateLength_text {rest : List Char} (hy : IsNumeral 4 y ys) (hm : IsNumeral 2 m ms)
    (hd : IsNumeral 2 d ds) :
    dateLength (ys ++ '-' :: (ms ++ '-' :: ds) ++ 'T' :: rest) = 10 := by
  obtain ⟨c, cs, rfl⟩ := List.exists_cons_of_length_pos (by rw [hm.length]; omega)
  have hlen : (ys ++ '-' :: (c :: cs ++ '-' :: ds) ++ 'T' :: rest).length ≠ 7 := by
    have := hy.length
    have := hm.length
    have := hd.length
    simp only [List.length_append, List.length_cons] at *
    omega
  have hfour : (ys ++ '-' :: (c :: cs ++ '-' :: ds) ++ 'T' :: rest).getD 4 '\x00' = '-' := by
    rw [List.append_assoc, ← hy.length]
    simp
  have hfive : (ys ++ '-' :: (c :: cs ++ '-' :: ds) ++ 'T' :: rest).getD 5 '\x00' = c := by
    have : 5 = ys.length + 1 := by rw [hy.length]
    rw [List.append_assoc, this]
    simp
  have hweek : c ≠ 'W' := hm.head_ne rfl
  simp only [dateLength, hlen, hfour, hfive]
  simp [hweek]

/-! ## Clocks -/

/-- The fraction of a second as it is written. -/
def fractionText (micro : Nat) : List Char :=
  if micro = 0 then [] else '.' :: (pad 6 micro).toList

theorem clockFields_colon {next : Char} {fields : List Nat} {left n : Nat} {rest : List Char}
    (h : IsNumeral 2 n cs) (hrest : rest ≠ []) :
    clockFields next fields true (left + 1) (cs ++ ':' :: rest) =
      clockFields next (fields ++ [n]) true left rest := by
  have hlong : ¬ (':' :: rest).length ≤ 1 := by simpa using hrest
  simp only [clockFields, digits?_append h, Option.bind_eq_bind, Option.bind_some,
    List.cons_append, List.headD_cons, hlong]
  simp

theorem clockFields_end {next : Char} {fields : List Nat} {left n : Nat} (colons : Bool)
    (h : IsNumeral 2 n cs) (hnext : next.toNat < 0x80) :
    clockFields next fields colons (left + 1) cs =
      some (⟨(fields ++ [n]).getD 0 0, (fields ++ [n]).getD 1 0, (fields ++ [n]).getD 2 0, 0⟩,
        next != '\x00') := by
  simp [clockFields, digits?_self h, hnext]

theorem clockFields_dot {next : Char} {fields : List Nat} {left n : Nat}
    (h : IsNumeral 2 n cs) (hu : IsNumeral 6 u us) (hfields : fields ≠ []) :
    clockFields next fields true (left + 1) (cs ++ '.' :: us) =
      some (⟨(fields ++ [n]).getD 0 0, (fields ++ [n]).getD 1 0, (fields ++ [n]).getD 2 0, u⟩,
        next != '\x00') := by
  have hlong : ¬ ('.' :: us).length ≤ 1 := by simp [hu.length]
  have hone : (fields ++ [n]).length ≠ 1 := by simpa using hfields
  simp only [clockFields, digits?_append h, Option.bind_eq_bind, Option.bind_some,
    List.cons_append, List.headD_cons, hlong, hone]
  simp [fraction, hu.length, digits?_self hu]
  rfl

/-- The text of a clock. -/
def clockText (h mi s u : Nat) : List Char :=
  (pad 2 h).toList ++ ':' :: ((pad 2 mi).toList ++ ':' :: ((pad 2 s).toList ++ fractionText u))

theorem clock_text {next : Char} (hh : h < 100) (hmi : mi < 100) (hs : s < 100)
    (hu : u < 1000000) (hnext : next.toNat < 0x80) :
    clock next (clockText h mi s u) = some (⟨h, mi, s, u⟩, next != '\x00') := by
  have hh := isNumeral_pad (by omega : 0 < 2) hh
  have hmi := isNumeral_pad (by omega : 0 < 2) hmi
  have hs := isNumeral_pad (by omega : 0 < 2) hs
  rw [clock, clockText, clockFields_colon hh (by simp), clockFields_colon hmi]
  · unfold fractionText
    split
    · next hz => simp [clockFields_end _ hs hnext, hz]
    · have hu := isNumeral_pad (by omega : 0 < 6) hu
      simp [clockFields_dot hs hu]
  · intro he
    have := hs.length
    simp_all

/-- A clock whose text has no start of an offset is read up to the offset behind it. -/
theorem timeOfDay_utc {front : List Char} {k : Clock} {left : Bool} (hne : front ≠ [])
    (hfront : ∀ c ∈ front, startsOffset c = false) (hclock : clock '+' front = some (k, left)) :
    timeOfDay (front ++ "+00:00".toList) = some (k, some 0) := by
  obtain ⟨c, front, rfl⟩ := List.exists_cons_of_ne_nil hne
  have hfirst : startsOffset c = false := hfront c List.mem_cons_self
  have hwhile : (front ++ "+00:00".toList).takeWhile (!startsOffset ·) = front := by
    rw [List.takeWhile_append_of_pos fun c hc => by simp [hfront c (List.mem_cons_of_mem _ hc)]]
    exact List.append_nil front
  have hoffset : "+00:00".toList = '+' :: "00:00".toList := rfl
  simp only [timeOfDay, List.cons_append, List.take_succ_cons, List.take_zero,
    List.drop_succ_cons, List.drop_zero, hwhile, List.any_cons, List.any_nil, hfirst,
    List.nil_append, List.length_cons, List.drop_left, Bool.or_false, Bool.false_eq_true, if_false]
  rw [hoffset, List.headD_cons, hclock, Option.bind_eq_bind, Option.bind_some]
  rfl

theorem not_startsOffset_of_mem_pad {w n : Nat} {c : Char} (hc : c ∈ (pad w n).toList) :
    startsOffset c = false := by
  have hdigit := isDigit_of_mem_pad hc
  apply Bool.eq_false_iff.mpr
  intro hs
  simp only [startsOffset, Bool.or_eq_true, beq_iff_eq] at hs
  obtain (rfl | rfl) | rfl := hs <;> exact absurd hdigit (by decide)

theorem timeOfDay_text (hh : h < 100) (hmi : mi < 100) (hs : s < 100) (hu : u < 1000000) :
    timeOfDay (clockText h mi s u ++ "+00:00".toList) = some (⟨h, mi, s, u⟩, some 0) := by
  refine timeOfDay_utc ?_ ?_ (clock_text hh hmi hs hu (by decide))
  · simp [clockText]
  · intro c hc
    simp only [clockText, fractionText, List.mem_append, List.mem_cons] at hc
    obtain hc | rfl | hc | rfl | hc | hc := hc
    · exact not_startsOffset_of_mem_pad hc
    · rfl
    · exact not_startsOffset_of_mem_pad hc
    · rfl
    · exact not_startsOffset_of_mem_pad hc
    · split at hc
      · simp at hc
      · obtain rfl | hc := List.mem_cons.mp hc
        · rfl
        · exact not_startsOffset_of_mem_pad hc

/-! ## Moments -/

theorem toList_isoText {t : Moment} (ht : t.offset = some 0) :
    t.isoText.toList =
      (pad 4 t.date.year).toList ++ '-' ::
          ((pad 2 t.date.month).toList ++ '-' :: (pad 2 t.date.day).toList) ++
        'T' :: (clockText t.hour t.minute t.second t.micro ++ "+00:00".toList) := by
  have hoffset : Moment.offsetText 0 = "+00:00" := by decide
  simp only [Moment.isoText, Moment.text, ht, hoffset, clockText, fractionText, Date.text]
  split <;> simp [toString]

/-- The text of a moment in universal time is taken apart into its date and its clock. -/
theorem parts?_isoText {t : Moment} (ht : t.offset = some 0)
    (hy : t.date.year < 10000) (hm : t.date.month < 100) (hd : t.date.day < 100)
    (hh : t.hour < 100) (hmi : t.minute < 100) (hs : t.second < 100) (hu : t.micro < 1000000) :
    parts? t.isoText.toList = some (.fields t.date.year t.date.month t.date.day,
      ⟨t.hour, t.minute, t.second, t.micro⟩, some 0) := by
  have hy := isNumeral_pad (by omega : 0 < 4) hy
  have hm := isNumeral_pad (by omega : 0 < 2) hm
  have hd := isNumeral_pad (by omega : 0 < 2) hd
  have hlen : ((pad 4 t.date.year).toList ++ '-' ::
      ((pad 2 t.date.month).toList ++ '-' :: (pad 2 t.date.day).toList)).length = 10 := by
    simp only [List.length_append, List.length_cons, hy.length, hm.length, hd.length]
  rw [toList_isoText ht]
  simp only [parts?, dateLength_text hy hm hd, List.take_left' hlen, List.drop_left' hlen,
    date?_text hy hm hd, timeOfDay_text hh hmi hs hu]
  rfl

end Iso

/-! ## Moments in universal time -/

theorem daysInMonth_le (year month : Nat) : daysInMonth year month ≤ 31 := by
  unfold daysInMonth
  split
  · split <;> omega
  · split <;> omega

theorem Date.bounds_of_ofFields? {y m d : Nat} {r : Date} (h : ofFields? y m d = .ok r) :
    y ≤ 9999 ∧ m ≤ 12 ∧ d ≤ 31 := by
  have := daysInMonth_le y m
  simp only [ofFields?, Bool.or_eq_true, decide_eq_true_eq] at h
  split at h
  · cases h
  · split at h
    · cases h
    · split at h
      · cases h
      · omega

namespace Moment

theorem bounds_ofClockMicros (n : Int) (o : Option Int) :
    (ofClockMicros n o).hour ≤ 23 ∧ (ofClockMicros n o).minute ≤ 59 ∧
      (ofClockMicros n o).second ≤ 59 ∧ (ofClockMicros n o).micro ≤ 999999 := by
  unfold ofClockMicros dayMicros
  dsimp only
  omega

theorem clockMicros_ofClockMicros {n : Int} (hn : 0 ≤ n) (o : Option Int) :
    (ofClockMicros n o).clockMicros = n := by
  unfold clockMicros ofClockMicros
  dsimp only
  rw [Date.dayNumber_ofDayNumber]
  unfold dayMicros
  omega

theorem toUtc_eq_ok {s t : Moment} (h : s.toUtc = .ok t) :
    t = ofClockMicros s.instant (some 0) ∧
      ∃ n : Nat, Date.firstDay ≤ n ∧ n ≤ Date.lastDay ∧ s.instant / dayMicros = n := by
  simp only [toUtc] at h
  split at h
  · cases h
  · next hrange =>
    simp only [Bool.or_eq_true, decide_eq_true_eq, not_or, not_lt] at hrange
    cases h
    refine ⟨rfl, (s.instant / dayMicros).toNat, ?_, ?_, ?_⟩ <;> omega

theorem offset_of_toUtc {s t : Moment} (h : s.toUtc = .ok t) : t.offset = some 0 := by
  rw [(toUtc_eq_ok h).1]
  rfl

/-- Turning a moment into universal time keeps its instant. -/
theorem instant_of_toUtc {s t : Moment} (h : s.toUtc = .ok t) : t.instant = s.instant := by
  obtain ⟨rfl, n, -, -, hn⟩ := toUtc_eq_ok h
  have hpos : 0 ≤ s.instant := by
    unfold dayMicros at hn
    omega
  rw [instant, clockMicros_ofClockMicros hpos]
  simp [ofClockMicros]

/-- A moment in universal time is read back from its text. -/
theorem moment?_isoText {s t : Moment} (h : s.toUtc = .ok t) : Iso.moment? t.isoText = .ok t := by
  obtain ⟨ht, n, hfirst, hlast, hn⟩ := toUtc_eq_ok h
  have hexists : Date.ofFields? t.date.year t.date.month t.date.day = .ok t.date := by
    have hdate : t.date = Date.ofDayNumber n := by simp [ht, ofClockMicros, hn]
    rw [hdate]
    exact Date.ofFields?_ofDayNumber hfirst hlast
  obtain ⟨hy, hm, hd⟩ := Date.bounds_of_ofFields? hexists
  obtain ⟨hh, hmi, hs, hu⟩ := bounds_ofClockMicros s.instant (some 0)
  rw [← ht] at hh hmi hs hu
  have hparts := Iso.parts?_isoText (offset_of_toUtc h) (by omega) (by omega) (by omega)
    (by omega) (by omega) (by omega) (by omega)
  have hoffset : checkOffset 0 = .ok 0 := rfl
  simp only [Iso.moment?, hparts, hoffset, Except.map, ofFields?, hexists, Except.bind, bind,
    show ¬ 23 < t.hour by omega, show ¬ 59 < t.minute by omega, show ¬ 59 < t.second by omega,
    if_false]
  rw [← offset_of_toUtc h]

end Moment

end Regen.Time
