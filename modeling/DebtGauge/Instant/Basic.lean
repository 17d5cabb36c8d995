/-!
# Instants

A point of time in UTC, to the nanosecond. A leap second is the last second of a minute
with a thousand million nanoseconds or more.

Main definitions:

* `Instant` — a day and a time of that day;
* `dayOfDate`, `dateOfDay` — dates of the proleptic Gregorian calendar as day numbers.
-/

namespace DebtGauge

/-- A point of time in UTC: days since 1 March of the year zero, seconds of that day, and
nanoseconds of that second. -/
structure Instant where
  day : Int
  second : Nat
  nanosecond : Nat
deriving DecidableEq

namespace Instant

/-- Whether a year has a 29 February. -/
def isLeapYear (year : Int) : Bool :=
  year % 4 = 0 && (year % 100 ≠ 0 || year % 400 = 0)

/-- The number of days of a month. -/
def daysInMonth (year : Int) (month : Nat) : Nat :=
  if month = 2 then if isLeapYear year then 29 else 28
  else if month ∈ [4, 6, 9, 11] then 30 else 31

/-- The day number of a date. Years are counted from 1 March here, so that a leap day is
the last day of its year. -/
def dayOfDate (year : Int) (month day : Nat) : Int :=
  let y := if month ≤ 2 then year - 1 else year
  let m := (month + 9) % 12
  365 * y + y.fdiv 4 - y.fdiv 100 + y.fdiv 400 + ((153 * m + 2) / 5 + day - 1 : Nat)

/-- The date of a day number: year, month and day. -/
def dateOfDay (n : Int) : Int × Nat × Nat :=
  let era := n.fdiv 146097
  let dayOfEra := (n - era * 146097).toNat
  let yearOfEra := (dayOfEra - dayOfEra / 1460 + dayOfEra / 36524 - dayOfEra / 146096) / 365
  let dayOfYear := dayOfEra - (365 * yearOfEra + yearOfEra / 4 - yearOfEra / 100)
  let m := (5 * dayOfYear + 2) / 153
  let month := if m < 10 then m + 3 else m - 9
  let year := yearOfEra + era * 400 + if month ≤ 2 then 1 else 0
  (year, month, dayOfYear - (153 * m + 2) / 5 + 1)

/-- The number of seconds of a day without a leap second. -/
def secondsPerDay : Int := 86400

/-- The instant so many seconds and nanoseconds after the start of the year 1970. -/
def ofSeconds (seconds : Int) (nanosecond : Nat) : Instant where
  day := dayOfDate 1970 1 1 + seconds.fdiv secondsPerDay
  second := (seconds.fmod secondsPerDay).toNat
  nanosecond := nanosecond

end Instant

end DebtGauge
