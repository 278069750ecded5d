import Regen.Number.Binary64
import Regen.Time.Calendar

/-! # Moments

    A moment is a date and a time of day, exact to the microsecond, usually with the offset from
    universal time in which it was written.  Two moments with offsets are compared as instants. -/

namespace Regen.Time

/-- A date and time of day.  `offset` is the distance east of universal time in microseconds;
    without it the moment is a plain reading of some clock. -/
structure Moment where
  date : Date
  hour : Nat
  minute : Nat
  second : Nat
  micro : Nat
  offset : Option Int
  deriving DecidableEq, Repr, Inhabited

/-- Microseconds in a day. -/
def dayMicros : Int := 86400000000

/-- A span of time as it is named in messages and in nested values: days, seconds and
    microseconds, the last two never negative. -/
def spanText (micros : Int) : String :=
  let days := micros / dayMicros
  let rest := micros % dayMicros
  let seconds := rest / 1000000
  let micro := rest % 1000000
  let parts := (if days = 0 then [] else [s!"days={days}"]) ++
    (if seconds = 0 then [] else [s!"seconds={seconds}"]) ++
    (if micro = 0 then [] else [s!"microseconds={micro}"])
  "datetime.timedelta(" ++ (if parts.isEmpty then "0" else String.intercalate ", " parts) ++ ")"

/-- An offset must be shorter than a day. -/
def checkOffset (micros : Int) : Except Fault Int :=
  if -dayMicros < micros && micros < dayMicros then .ok micros
  else .error (.offset (spanText micros))

namespace Moment

/-- The moment with the given fields, if they are in range; the date is judged first. -/
def ofFields? (year month day hour minute second micro : Nat) (offset : Option Int) :
    Except Fault Moment := do
  let date ← Date.ofFields? year month day
  if 23 < hour then .error (.field .hour)
  else if 59 < minute then .error (.field .minute)
  else if 59 < second then .error (.field .second)
  else .ok ⟨date, hour, minute, second, micro, offset⟩

/-- Microseconds on the moment's own clock since the first day of reckoning. -/
def clockMicros (t : Moment) : Int :=
  (t.date.dayNumber : Int) * dayMicros +
    (((t.hour * 60 + t.minute) * 60 + t.second) * 1000000 + t.micro : Nat)

/-- Microseconds of universal time since the first day of reckoning.  A clock without an offset
    is taken to show universal time. -/
def instant (t : Moment) : Int :=
  t.clockMicros - t.offset.getD 0

/-- The moment of a clock reading. -/
def ofClockMicros (micros : Int) (offset : Option Int) : Moment :=
  let rest := (micros % dayMicros).toNat
  { date := Date.ofDayNumber (micros / dayMicros).toNat
    hour := rest / 3600000000
    minute := rest / 60000000 % 60
    second := rest / 1000000 % 60
    micro := rest % 1000000
    offset }

/-- The same instant in universal time, if its date exists. -/
def toUtc (t : Moment) : Except Fault Moment :=
  let day := t.instant / dayMicros
  if day < Date.firstDay || Date.lastDay < day then .error .timeRange
  else .ok (ofClockMicros t.instant (some 0))

/-- The moment read as universal time when it has no offset. -/
def assumeUtc (t : Moment) : Moment :=
  { t with offset := some (t.offset.getD 0) }

/-- Moments with offsets are equal when they are the same instant, moments without when their
    fields agree; a moment with an offset never equals one without. -/
def equals (s t : Moment) : Bool :=
  s.offset.isSome == t.offset.isSome && s.instant == t.instant

/-- Microseconds from `t` to `s`; both have an offset or neither has. -/
def microsSince (s t : Moment) : Except Fault Int :=
  if s.offset.isSome == t.offset.isSome then .ok (s.instant - t.instant)
  else .error .mixedOffsets

/-- The sign, hours and minutes of an offset, with seconds and microseconds only when needed. -/
def offsetText (offset : Int) : String :=
  let n := offset.natAbs
  let seconds := n / 1000000 % 60
  let micro := n % 1000000
  (if offset < 0 then "-" else "+") ++ s!"{pad 2 (n / 3600000000)}:{pad 2 (n / 60000000 % 60)}" ++
    (if seconds = 0 && micro = 0 then "" else s!":{pad 2 seconds}") ++
    (if micro = 0 then "" else s!".{pad 6 micro}")

/-- The moment as date, separator, time and offset; microseconds only when they are not zero. -/
def text (separator : String) (t : Moment) : String :=
  t.date.text ++ separator ++ s!"{pad 2 t.hour}:{pad 2 t.minute}:{pad 2 t.second}" ++
    (if t.micro = 0 then "" else s!".{pad 6 t.micro}") ++
    match t.offset with
    | none => ""
    | some offset => offsetText offset

/-- The moment in standard form, with a `T` between date and time. -/
def isoText (t : Moment) : String := t.text "T"

/-- Date and time to the minute on the moment's own clock; the year is not padded. -/
def minuteText (t : Moment) : String :=
  s!"{t.date.year}-{pad 2 t.date.month}-{pad 2 t.date.day} {pad 2 t.hour}:{pad 2 t.minute}"

/-- Date and time to the second on the moment's own clock; the year is not padded. -/
def secondText (t : Moment) : String :=
  t.minuteText ++ s!":{pad 2 t.second}"

end Moment

end Regen.Time
