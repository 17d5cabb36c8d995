import DebtGauge.Decimal.Reader
import DebtGauge.Instant.Basic
import DebtGauge.Json.Reader
import DebtGauge.Text.Lines
import DebtGauge.Toml.Basic

/-!
# Numbers, dates and words of TOML

Main definitions:

* `Toml.scalar?` — the value that a word without quotes and brackets stands for.
-/

namespace DebtGauge.Toml

open DebtGauge.Decimal (digitsValue takeSign)

/-! ## Numbers -/

/-- The digits of a run, with single underscores allowed between digits. -/
def digitRun? (isDigit : Char → Bool) (cs : List Char) : Option (List Char) :=
  let pieces := Text.splitOn '_' cs
  if pieces.all fun piece => !piece.isEmpty && piece.all isDigit then some pieces.flatten
  else none

/-- The digits of a whole number; it starts with a zero only if it is zero. -/
def wholeDigits? (cs : List Char) : Option (List Char) :=
  (digitRun? Char.isDigit cs).filter fun digits => digits.head? ≠ some '0' || digits.length = 1

/-- The number of a run of digits in the given base. -/
def inBase (base : Nat) (digits : List Char) : Nat :=
  digits.foldl (fun n d => base * n + (Json.hexDigit? d).getD 0) 0

/-- A whole number without its sign, in decimal. -/
def decimal? (cs : List Char) : Option Nat :=
  (wholeDigits? cs).map digitsValue

/-- A whole number: in decimal with an optional sign, or in hexadecimal, octal or binary
behind its mark. -/
def wholeNumber? : List Char → Option Int
  | '0' :: 'x' :: digits =>
    (digitRun? (fun c => (Json.hexDigit? c).isSome) digits).map fun ds => (inBase 16 ds : Int)
  | '0' :: 'o' :: digits =>
    (digitRun? (fun c => '0' ≤ c && c ≤ '7') digits).map fun ds => (inBase 8 ds : Int)
  | '0' :: 'b' :: digits =>
    (digitRun? (fun c => c = '0' || c = '1') digits).map fun ds => (inBase 2 ds : Int)
  | cs =>
    let (negative, digits) := takeSign cs
    (decimal? digits).map fun n => if negative then -(n : Int) else n

/-- A whole number that a hundred and twenty-eight bits hold, with or without a sign. -/
def integer? (cs : List Char) : Option Int :=
  (wholeNumber? cs).filter fun n => -(Nat.pow 2 127 : Int) ≤ n && n < (Nat.pow 2 128 : Int)

/-- The magnitude of a number with a fraction, an exponent, or both. -/
def magnitude? (cs : List Char) : Option Decimal := do
  let isMark (c : Char) := c = 'e' || c = 'E'
  let mantissa := cs.takeWhile (!isMark ·)
  let exponent : Option Int ← match cs.dropWhile (!isMark ·) with
    | [] => some none
    | _ :: rest =>
      let (negative, digits) := takeSign rest
      (digitRun? Char.isDigit digits).map fun ds =>
        some (if negative then -(digitsValue ds : Int) else digitsValue ds)
  let whole ← wholeDigits? (mantissa.takeWhile (· ≠ '.'))
  let fraction : Option (List Char) ← match mantissa.dropWhile (· ≠ '.') with
    | [] => some none
    | _ :: rest => (digitRun? Char.isDigit rest).map some
  if exponent.isNone && fraction.isNone then none
  let places := fraction.getD []
  return ⟨digitsValue (whole ++ places), exponent.getD 0 - places.length⟩

/-- A number that is not whole; one beyond the range of doubles is none. -/
def double? (cs : List Char) : Option Float :=
  let (negative, body) := takeSign cs
  let size : Option Float :=
    if body = "inf".toList then some (1.0 / 0.0)
    else if body = "nan".toList then some (0.0 / 0.0)
    else ((magnitude? body).map Decimal.toDouble).filter Float.isFinite
  size.map fun x => if negative then -x else x

/-! ## Dates and times -/

/-- Reads a number of exactly `width` digits. -/
def takeFixed? (width : Nat) (cs : List Char) : Option (Nat × List Char) :=
  let digits := cs.take width
  if digits.length = width && digits.all Char.isDigit then
    some (digitsValue digits, cs.drop width)
  else none

/-- Reads a character and a number of two digits behind it. -/
def takePart? (mark : Char) : List Char → Option (Nat × List Char)
  | c :: rest => if c = mark then takeFixed? 2 rest else none
  | [] => none

/-- Reads a date. -/
def takeDate? (cs : List Char) : Option (List Char) := do
  let (year, rest) ← takeFixed? 4 cs
  let (month, rest) ← takePart? '-' rest
  let (day, rest) ← takePart? '-' rest
  if 1 ≤ month && month ≤ 12 && 1 ≤ day && day ≤ Instant.daysInMonth year month then
    return rest
  else none

/-- Reads a fraction of a second, if there is one. -/
def skipFraction? : List Char → Option (List Char)
  | '.' :: rest =>
    if (rest.head?.map Char.isDigit).getD false then some (rest.dropWhile Char.isDigit) else none
  | cs => some cs

/-- Reads a time of day; its seconds may be missing. -/
def takeTime? (cs : List Char) : Option (List Char) := do
  let (hour, rest) ← takeFixed? 2 cs
  let (minute, rest) ← takePart? ':' rest
  if 23 < hour || 59 < minute then none
  match rest with
  | ':' :: _ => do
    let (second, rest) ← takePart? ':' rest
    if 60 < second then none else skipFraction? rest
  | rest => return rest

/-- Whether a text is an offset from UTC, or nothing. -/
def isOffset : List Char → Bool
  | [] | ['Z'] | ['z'] => true
  | sign :: rest =>
    (sign = '+' || sign = '-') &&
      ((takeFixed? 2 rest).bind fun (hours, rest) =>
        (takePart? ':' rest).map fun (minutes, rest) =>
          rest.isEmpty && hours ≤ 23 && minutes ≤ 59).getD false

/-- Whether a text is a date, a time, or a date with a time and an optional offset. -/
def isDate (cs : List Char) : Bool :=
  match takeDate? cs with
  | some [] => true
  | some (separator :: rest) =>
    [' ', 'T', 't'].contains separator && ((takeTime? rest).map isOffset).getD false
  | none => takeTime? cs = some []

/-! ## Words -/

/-- The value of a word. -/
def scalar? (word : List Char) : Option Toml :=
  if word = "true".toList then some (.boolean true)
  else if word = "false".toList then some (.boolean false)
  else if isDate word then some .date
  else match integer? word with
    | some n => some (.integer n)
    | none => (double? word).map .float

end DebtGauge.Toml
