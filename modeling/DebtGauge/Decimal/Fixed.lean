import DebtGauge.Decimal.Layout

/-!
# A fixed number of decimal places

The exact value of a double is rounded to the grid of the last place, a half going to
the even neighbour. The sign of the double is written even if only zeros remain.

Main definitions:

* `roundDiv` — a quotient rounded to the nearest integer, ties to even;
* `fixedText` — a double with a given number of places.
-/

namespace DebtGauge.Decimal

/-- `num / den` rounded to the nearest integer, a half to the even one. -/
def roundDiv (num den : Nat) : Nat :=
  let quotient := num / den
  match compare (2 * (num % den)) den with
  | .lt => quotient
  | .gt => quotient + 1
  | .eq => if quotient % 2 = 0 then quotient else quotient + 1

/-- The digits of `n · 10 ^ (-places)`, at least one of them before the point. -/
def placesText (places n : Nat) : List Char :=
  let digits := (toString n).toList
  let padded := zeros (places + 1 - digits.length) ++ digits
  let whole := padded.length - places
  if places = 0 then padded else padded.take whole ++ '.' :: padded.drop whole

/-- A double with `places` digits behind the point. -/
def fixedText (places : Nat) (x : Float) : String :=
  match Reading.ofFloat x with
  | .notANumber => Layout.plain.notANumber
  | .infinite negative =>
    if negative then Layout.plain.negativeInfinity else Layout.plain.infinity
  | .finite negative m q =>
    let n := roundDiv (m * (powerOfTwo q).1 * Nat.pow 10 places) (powerOfTwo q).2
    let magnitude := placesText places n
    String.ofList (if negative then '-' :: magnitude else magnitude)

end DebtGauge.Decimal
