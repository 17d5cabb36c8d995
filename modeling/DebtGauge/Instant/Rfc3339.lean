import DebtGauge.Instant.Basic
import DebtGauge.Decimal.Reader
import DebtGauge.Text.Blank

/-!
# Instants as texts

Instants are written after RFC 3339, in UTC with a `Z`, and with as many groups of three
fraction digits as they need. Reading is lenient: numbers may lack leading zeros, blanks
may stand before numbers and separators, a blank may stand for the `T`, and any offset
from UTC is understood.

Main definitions:

* `Instant.text` — an instant as a text;
* `Instant.read?` — the instant that a text denotes.
-/

namespace DebtGauge.Instant

open DebtGauge.Decimal (digitsValue)

/-! ## Writing -/

/-- A number with at least `width` digits. -/
def padded (width n : Nat) : String :=
  let digits := toString n
  "".pushn '0' (width - digits.length) ++ digits

/-- A year: four digits, and a sign if these do not suffice. -/
def yearText (year : Int) : String :=
  if 0 ≤ year ∧ year ≤ 9999 then padded 4 year.toNat
  else (if year < 0 then "-" else "+") ++ padded 4 year.natAbs

/-- The fraction of a second in groups of three digits, as few as suffice. -/
def fractionText (nanosecond : Nat) : String :=
  if nanosecond = 0 then ""
  else if nanosecond % 1000000 = 0 then "." ++ padded 3 (nanosecond / 1000000)
  else if nanosecond % 1000 = 0 then "." ++ padded 6 (nanosecond / 1000)
  else "." ++ padded 9 nanosecond

/-- An instant after RFC 3339. -/
def text (instant : Instant) : String :=
  let (year, month, day) := dateOfDay instant.day
  let leap := instant.nanosecond / 1000000000
  let hour := padded 2 (instant.second / 3600)
  let minute := padded 2 (instant.second / 60 % 60)
  let second := padded 2 (instant.second % 60 + leap)
  let fraction := fractionText (instant.nanosecond % 1000000000)
  s!"{yearText year}-{padded 2 month}-{padded 2 day}T{hour}:{minute}:{second}{fraction}Z"

/-! ## Reading -/

/-- What is left of a text behind its leading blanks. -/
def skipBlanks (cs : List Char) : List Char :=
  cs.dropWhile Text.isBlank

/-- Reads a number of at least one and at most `width` digits. -/
def takeNumber? (width : Nat) (cs : List Char) : Option (Nat × List Char) :=
  let digits := (cs.take width).takeWhile Char.isDigit
  if digits.isEmpty then none else some (digitsValue digits, cs.drop digits.length)

/-- Reads one given character. -/
def takeChar? (c : Char) : List Char → Option (List Char)
  | d :: rest => if c = d then some rest else none
  | [] => none

/-- Reads a year; with a sign it may have any number of digits. -/
def takeYear? (cs : List Char) : Option (Int × List Char) :=
  match skipBlanks cs with
  | '-' :: rest => (takeNumber? rest.length rest).map fun (n, rest) => (-(n : Int), rest)
  | '+' :: rest => (takeNumber? rest.length rest).map fun (n, rest) => ((n : Int), rest)
  | rest => (takeNumber? 4 rest).map fun (n, rest) => ((n : Int), rest)

/-- Reads a number of one or two digits behind a separator; blanks may stand before
both. -/
def takeNext? (separator : Char) (cs : List Char) : Option (Nat × List Char) := do
  let rest ← takeChar? separator (skipBlanks cs)
  takeNumber? 2 (skipBlanks rest)

/-- Reads a fraction of a second, as nanoseconds; digits behind the ninth do not
count. -/
def takeFraction? : List Char → Option (Nat × List Char)
  | '.' :: rest => do
    let digits := (rest.take 9).takeWhile Char.isDigit
    let (n, rest) ← takeNumber? 9 rest
    return (n * Nat.pow 10 (9 - digits.length), rest.dropWhile Char.isDigit)
  | cs => some (0, cs)

/-- Reads an offset of hours and minutes, as seconds. -/
def takeHoursAndMinutes? (cs : List Char) : Option (Nat × List Char) :=
  match cs with
  | h₁ :: h₂ :: rest =>
    match rest.dropWhile fun c => c = ':' || Text.isBlank c with
    | m₁ :: m₂ :: rest =>
      if [h₁, h₂, m₁, m₂].all Char.isDigit && m₁ < '6' then
        some (digitsValue [h₁, h₂] * 3600 + digitsValue [m₁, m₂] * 60, rest)
      else none
    | _ => none
  | _ => none

/-- Reads an offset from UTC, as seconds. -/
def takeOffset? (cs : List Char) : Option (Int × List Char) :=
  if (cs.take 3).map Char.toUpper = ['U', 'T', 'C'] then some (0, cs.drop 3)
  else match cs with
    | 'Z' :: rest | 'z' :: rest => some (0, rest)
    | '+' :: rest => (takeHoursAndMinutes? rest).map fun (n, rest) => ((n : Int), rest)
    | '-' :: rest | '\u2212' :: rest =>
      (takeHoursAndMinutes? rest).map fun (n, rest) => (-(n : Int), rest)
    | _ => none

/-- The years that a date may have. -/
def hasYear (year : Int) : Bool := -262143 ≤ year && year ≤ 262142

/-- The instant at which clocks that are `offset` seconds ahead of UTC show a date and a
time; the second sixty is a leap second. The year must be one that dates may have, both
on these clocks and in UTC. -/
def ofClock? (year : Int) (month day hour minute second nanosecond : Nat) (offset : Int) :
    Option Instant :=
  let valid := hasYear year && 1 ≤ month && month ≤ 12 && 1 ≤ day &&
    day ≤ daysInMonth year month && hour ≤ 23 && minute ≤ 59 && second ≤ 60 &&
    offset.natAbs < secondsPerDay
  let leap := second / 60
  let clock : Int := (hour * 3600 + minute * 60 + (second - leap) : Nat)
  let elapsed := dayOfDate year month day * secondsPerDay + clock - offset
  let dayOfUtc := elapsed.fdiv secondsPerDay
  if valid && hasYear (dateOfDay dayOfUtc).1 then
    some ⟨dayOfUtc, (elapsed.fmod secondsPerDay).toNat, nanosecond + leap * 1000000000⟩
  else none

/-- The instant that a text denotes. -/
def read? (text : String) : Option Instant := do
  let (year, rest) ← takeYear? text.toList
  let (month, rest) ← takeNext? '-' rest
  let (day, rest) ← takeNext? '-' rest
  let (separator, rest) ← rest.head?.map (·, rest.drop 1)
  if separator ∉ ['t', 'T', ' '] then none
  let (hour, rest) ← takeNumber? 2 (skipBlanks rest)
  let (minute, rest) ← takeNext? ':' rest
  let (second, rest) ← takeNext? ':' rest
  let (nanosecond, rest) ← takeFraction? rest
  let (offset, rest) ← takeOffset? (skipBlanks rest)
  if !(skipBlanks rest).isEmpty then none
  ofClock? year month day hour minute second nanosecond offset

end DebtGauge.Instant
