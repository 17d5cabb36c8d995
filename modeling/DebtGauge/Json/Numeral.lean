import DebtGauge.Json.Basic
import DebtGauge.Decimal.Reader

/-!
# Numbers of a JSON text

A numeral without a fraction and an exponent is a whole number if sixty-four bits hold
it. All other numerals are doubles. Their digits are gathered in a significand of
sixty-four bits, which is then multiplied or divided by a power of ten: two roundings at
most for numerals of usual length, and digits beyond the significand do not count.

Main definitions:

* `Numeral` — the parts of a numeral;
* `Numeral.take?` — reads the parts off a text;
* `Numeral.value?` — what a numeral stands for; numerals beyond the range of doubles stand
  for nothing.
-/

namespace DebtGauge.Json

open DebtGauge.Decimal (digitsValue)

/-- The parts of a numeral. -/
structure Numeral where
  negative : Bool
  whole : List Char
  fraction : Option (List Char)
  /-- The sign of the exponent, which is true for a negative one, and its digits. -/
  exponent : Option (Bool × List Char)

namespace Numeral

/-! ## The grammar -/

/-- Reads digits, at least one of them. -/
def takeDigits? (cs : List Char) : Option (List Char × List Char) :=
  let digits := cs.takeWhile Char.isDigit
  if digits.isEmpty then none else some (digits, cs.drop digits.length)

/-- Reads a fraction, if there is one. -/
def takeFraction? : List Char → Option (Option (List Char) × List Char)
  | '.' :: rest => (takeDigits? rest).map fun (digits, rest) => (some digits, rest)
  | cs => some (none, cs)

/-- Reads an exponent, if there is one. -/
def takeExponent? : List Char → Option (Option (Bool × List Char) × List Char)
  | mark :: rest =>
    if mark = 'e' ∨ mark = 'E' then
      let (negative, rest) := Decimal.takeSign rest
      (takeDigits? rest).map fun (digits, rest) => (some (negative, digits), rest)
    else some (none, mark :: rest)
  | [] => some (none, [])

/-- Reads a numeral. Its whole part starts with a zero only if it is zero. -/
def take? (cs : List Char) : Option (Numeral × List Char) := do
  let (negative, rest) := match cs with
    | '-' :: rest => (true, rest)
    | cs => (false, cs)
  let (whole, rest) ← takeDigits? rest
  if whole.head? = some '0' ∧ 1 < whole.length then none
  let (fraction, rest) ← takeFraction? rest
  let (exponent, rest) ← takeExponent? rest
  return (⟨negative, whole, fraction, exponent⟩, rest)

/-! ## The value -/

/-- The greatest significand. -/
def significandLimit : Nat := Nat.pow 2 64 - 1

/-- Appends digits to a significand as long as it stays within its limit; the digits from
the first that does not fit on are left. -/
def gather : Nat → List Char → Nat × List Char
  | significand, [] => (significand, [])
  | significand, d :: digits =>
    let next := 10 * significand + (d.toNat - '0'.toNat)
    if next ≤ significandLimit then gather next digits else (significand, d :: digits)

/-- The greatest power of ten that is a double. -/
def greatestPower : Nat := 308

/-- Divides by a power of ten, in steps where the power is too great for one. -/
def divideByPower : Nat → Float → Nat → Float
  | 0, x, _ => x
  | steps + 1, x, n =>
    if n ≤ greatestPower then x / Float.ofScientific 1 false n
    else divideByPower steps (x / Float.ofScientific 1 false greatestPower) (n - greatestPower)

/-- A significand times a power of ten, if the product is in the range of doubles. Three
divisions by the greatest power make every significand zero. -/
def scaled? (significand : Nat) (exponent : Int) : Option Float :=
  let x := Float.ofNat significand
  if exponent < 0 then some (divideByPower 4 x exponent.natAbs)
  else if significand = 0 then some 0.0
  else if exponent.natAbs ≤ greatestPower then
    let product := x * Float.ofScientific 1 false exponent.natAbs
    if product.isFinite then some product else none
  else none

/-- The greatest exponent that is taken as it stands; greater ones are beyond the range
of doubles whatever the significand. -/
def exponentLimit : Nat := Nat.pow 2 31 - 1

/-- The magnitude of a numeral as a double. -/
def magnitude? (numeral : Numeral) : Option Float :=
  let (significand, dropped) := gather 0 numeral.whole
  let fraction := numeral.fraction.getD []
  let (significand, left) := gather significand fraction
  let places : Int := (fraction.length - left.length : Nat)
  let start : Int := dropped.length - places
  match numeral.exponent with
  | none => scaled? significand start
  | some (negative, digits) =>
    let n := digitsValue digits
    if n ≤ exponentLimit then scaled? significand (if negative then start - n else start + n)
    else if negative || significand = 0 then some 0.0
    else none

/-- The whole number of a numeral, if it has no fraction and no exponent and sixty-four
bits hold it. Minus zero is no whole number. -/
def integer? (numeral : Numeral) : Option Int :=
  let n := digitsValue numeral.whole
  if numeral.fraction.isSome || numeral.exponent.isSome then none
  else if numeral.negative then if 0 < n && n ≤ Nat.pow 2 63 then some (-(n : Int)) else none
  else if n ≤ significandLimit then some n else none

/-- The value that a numeral stands for. -/
def value? (numeral : Numeral) : Option Json :=
  match numeral.integer? with
  | some n => some (.integer n)
  | none => numeral.magnitude?.map fun x => .real (if numeral.negative then -x else x)

end Numeral

end DebtGauge.Json
