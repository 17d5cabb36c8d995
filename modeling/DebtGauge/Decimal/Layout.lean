import DebtGauge.Decimal.Shortest

/-!
# How a double is written

A layout holds the decisions that two formats may take differently about the same digits:
where positional notation ends, whether a whole number keeps its point, which of two
equally near digit strings is taken, and the texts of the values that have no digits.

Main definitions:

* `Layout.plain` — the layout of numbers in messages;
* `Layout.json` — the layout of numbers in JSON texts;
* `Layout.text` — a double written in a layout.
-/

namespace DebtGauge.Decimal

/-- The decisions of a number format. The exponent they speak of is that of the first
digit: it is zero for numbers from one up to ten. -/
structure Layout where
  /-- Exponents written in positional notation, both ends included; `none` is all of them. -/
  positional : Option (Int × Int)
  /-- Whether a number without a fraction ends in `.0`. -/
  keepsPoint : Bool
  /-- Which of two equally near digit strings is taken. -/
  tie : Tie
  /-- Texts of the values that have no digits. -/
  notANumber : String
  infinity : String
  negativeInfinity : String

/-- Numbers in messages: never an exponent, no fraction on whole numbers. -/
def Layout.plain : Layout where
  positional := none
  keepsPoint := false
  tie := .up
  notANumber := "NaN"
  infinity := "inf"
  negativeInfinity := "-inf"

/-- Numbers in JSON texts: positional from `0.00001` up to sixteen digits before the
point, always with a point there; JSON has no infinities. -/
def Layout.json : Layout where
  positional := some (-5, 15)
  keepsPoint := true
  tie := .toEven
  notANumber := "null"
  infinity := "null"
  negativeInfinity := "null"

/-- A number of zeros. -/
def zeros (n : Nat) : List Char := List.replicate n '0'

/-- Digits with a point after the first `point` of them, filled up with zeros on the side
where digits are missing. -/
def positionalText (keepsPoint : Bool) (digits : List Char) (point : Int) : List Char :=
  if point ≤ 0 then '0' :: '.' :: zeros (-point).toNat ++ digits
  else if point < digits.length then
    digits.take point.toNat ++ '.' :: digits.drop point.toNat
  else
    digits ++ zeros (point - digits.length).toNat ++ if keepsPoint then ['.', '0'] else []

/-- The first digit, the others behind a point, and the exponent with its sign. -/
def scientificText (digits : List Char) (exponent : Int) : List Char :=
  let fraction := match digits.drop 1 with
    | [] => []
    | rest => '.' :: rest
  let sign := if exponent < 0 then '-' else '+'
  digits.take 1 ++ fraction ++ 'e' :: sign :: (toString exponent.natAbs).toList

/-- The magnitude of a decimal in a layout. -/
def Layout.magnitude (layout : Layout) (d : Decimal) : List Char :=
  let digits := (toString d.coefficient).toList
  let point := digits.length + d.exponent
  let inRange := layout.positional.all fun (low, high) => low ≤ point - 1 && point - 1 ≤ high
  if inRange then positionalText layout.keepsPoint digits point
  else scientificText digits (point - 1)

/-- The magnitude of the finite double `m · 2 ^ q`; zero has the one digit zero. -/
def Layout.finiteText (layout : Layout) (m : Nat) (q : Int) : List Char :=
  if m = 0 then positionalText layout.keepsPoint ['0'] 1
  else layout.magnitude (shortest layout.tie m q)

/-- A double in a layout. The sign of zero is written. -/
def Layout.text (layout : Layout) (x : Float) : String :=
  match Reading.ofFloat x with
  | .notANumber => layout.notANumber
  | .infinite negative => if negative then layout.negativeInfinity else layout.infinity
  | .finite negative m q =>
    let magnitude := layout.finiteText m q
    String.ofList (if negative then '-' :: magnitude else magnitude)

/-- A double as messages show it. -/
def plainText (x : Float) : String := Layout.plain.text x

/-- A double as JSON texts show it. -/
def jsonText (x : Float) : String := Layout.json.text x

end DebtGauge.Decimal
