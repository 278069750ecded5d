import Regen.Fault

/-! # Calendar dates

    Dates of the Gregorian calendar, extended to the years 1 to 9999, and their day numbers.
    Day numbers count from the first of March of the year 0, so that a leap day is the last day
    of its year of reckoning and every formula is plain arithmetic. -/

namespace Regen.Time

/-- A calendar date. -/
structure Date where
  year : Nat
  month : Nat
  day : Nat
  deriving DecidableEq, Repr, Inhabited

def isLeapYear (year : Nat) : Bool :=
  year % 4 == 0 && (year % 100 != 0 || year % 400 == 0)

def daysInMonth (year month : Nat) : Nat :=
  if month = 2 then (if isLeapYear year then 29 else 28)
  else if month = 4 || month = 6 || month = 9 || month = 11 then 30
  else 31

namespace Date

/-- A date exists when its month is in the year and its day in the month. -/
def isValid (d : Date) : Bool :=
  1 ≤ d.year && d.year ≤ 9999 && 1 ≤ d.month && d.month ≤ 12 && 1 ≤ d.day &&
    d.day ≤ daysInMonth d.year d.month

/-- The date with the given fields, if it exists; the year is judged first. -/
def ofFields? (year month day : Nat) : Except Fault Date :=
  if year < 1 || 9999 < year then .error (.year year)
  else if month < 1 || 12 < month then .error (.field .month)
  else if day < 1 || daysInMonth year month < day then .error (.field .day)
  else .ok ⟨year, month, day⟩

/-- Days from the first of March of the year 0. -/
def dayNumber (d : Date) : Nat :=
  let y := if d.month ≤ 2 then d.year - 1 else d.year
  let era := y / 400
  let yearOfEra := y % 400
  let dayOfYear := (153 * ((d.month + 9) % 12) + 2) / 5 + d.day - 1
  era * 146097 + yearOfEra * 365 + yearOfEra / 4 - yearOfEra / 100 + dayOfYear

/-- The date with a day number. -/
def ofDayNumber (n : Nat) : Date :=
  let era := n / 146097
  let doe := n % 146097
  let yearOfEra := (doe - doe / 1460 + doe / 36524 - doe / 146096) / 365
  let dayOfYear := doe - (365 * yearOfEra + yearOfEra / 4 - yearOfEra / 100)
  let mp := (5 * dayOfYear + 2) / 153
  let day := dayOfYear - (153 * mp + 2) / 5 + 1
  let month := if mp < 10 then mp + 3 else mp - 9
  let y := yearOfEra + era * 400
  ⟨if month ≤ 2 then y + 1 else y, month, day⟩

/-- The year of any day number, also where the year has no dates. -/
def yearOfDay (n : Int) : Int :=
  let era := n / 146097
  (ofDayNumber (n % 146097).toNat).year + era * 400

/-- The day number of the first day of the year 1. -/
def firstDay : Nat := dayNumber ⟨1, 1, 1⟩

/-- The day number of the last day of the year 9999. -/
def lastDay : Nat := dayNumber ⟨9999, 12, 31⟩

/-- The day of the week, from 0 for Monday to 6 for Sunday. -/
def weekday (d : Date) : Nat := (d.dayNumber + 2) % 7

/-- Does a year have 53 weeks?  It does when it starts on a Thursday, or on a Wednesday and is a
    leap year. -/
def hasLongYear (year : Nat) : Bool :=
  let start := weekday ⟨year, 1, 1⟩
  start == 3 || (start == 2 && isLeapYear year)

/-- The day number of the Monday of a year's first week, the week with the year's first
    Thursday. -/
def firstMonday (year : Nat) : Nat :=
  let start : Date := ⟨year, 1, 1⟩
  let monday := start.dayNumber - start.weekday
  if 3 < start.weekday then monday + 7 else monday

end Date

/-- A number in at least `width` decimal digits. -/
def pad (width n : Nat) : String :=
  let digits := Nat.toDigits 10 n
  String.ofList (List.replicate (width - digits.length) '0' ++ digits)

/-- The date as year, month and day with hyphens. -/
def Date.text (d : Date) : String :=
  s!"{pad 4 d.year}-{pad 2 d.month}-{pad 2 d.day}"

end Regen.Time
