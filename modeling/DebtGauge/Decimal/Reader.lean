import DebtGauge.Decimal.Shortest

/-!
# Reading a decimal number

The grammar of numbers on the command line and in overrides: an optional sign, then
`inf`, `infinity` or `nan` in any case, or digits with an optional point among, before or
behind them and an optional exponent. There is at least one digit around the point, and
at least one in an exponent. Nothing else may stand in the text.

Main definitions:

* `digitsValue` — the number that a run of digits denotes;
* `toDouble` — the double nearest to a decimal;
* `readDouble` — reads a whole text.
-/

namespace DebtGauge.Decimal

/-- The number that a run of ASCII digits denotes. -/
def digitsValue (digits : List Char) : Nat :=
  digits.foldl (fun n d => 10 * n + (d.toNat - '0'.toNat)) 0

/-- The double nearest to `d`. Decimals beyond the range of doubles are cut off before
any power of ten is built: they are infinite or zero. -/
def toDouble (d : Decimal) : Float :=
  let point := (toString d.coefficient).length + d.exponent
  if d.coefficient = 0 then 0.0
  else if 310 < point then Float.ofScientific 1 false 400
  else if point < -330 then 0.0
  else Float.ofScientific d.coefficient (d.exponent < 0) d.exponent.natAbs

/-- The sign in front of a number, and what follows it. -/
def takeSign : List Char → Bool × List Char
  | '-' :: rest => (true, rest)
  | '+' :: rest => (false, rest)
  | cs => (false, cs)

/-- A number's exponent: nothing, or a mark, a sign and digits up to the end. -/
def readExponent? : List Char → Option Int
  | [] => some 0
  | mark :: rest =>
    let (negative, digits) := takeSign rest
    if mark.toLower = 'e' && !digits.isEmpty && digits.all Char.isDigit then
      let n : Int := digitsValue digits
      some (if negative then -n else n)
    else none

/-- An unsigned number: digits around an optional point, then an exponent. -/
def readMagnitude? (cs : List Char) : Option Decimal :=
  let whole := cs.takeWhile Char.isDigit
  let (fraction, rest) := match cs.dropWhile Char.isDigit with
    | '.' :: r => (r.takeWhile Char.isDigit, r.dropWhile Char.isDigit)
    | r => ([], r)
  if whole.isEmpty && fraction.isEmpty then none
  else (readExponent? rest).map fun e =>
    ⟨digitsValue (whole ++ fraction), e - fraction.length⟩

/-- The double that a text denotes, if it is a number. -/
def readDouble? (text : String) : Option Float :=
  let (negative, body) := takeSign text.toList
  let magnitude : Option Float :=
    if body.map Char.toLower ∈ ["inf".toList, "infinity".toList] then
      some (Float.ofScientific 1 false 400)
    else if body.map Char.toLower = "nan".toList then some (0.0 / 0.0)
    else (readMagnitude? body).map toDouble
  magnitude.map fun x => if negative then -x else x

end DebtGauge.Decimal
