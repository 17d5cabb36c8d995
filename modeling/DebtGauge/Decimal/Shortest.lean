import DebtGauge.Decimal.Binary

/-!
# The fewest digits that read back

A decimal reads back as a double if it lies in the double's rounding interval: the reals
that are nearer to it than to any other double, the two ends included when the
significand is even. Among the powers of ten the coarsest grid with a point in the
interval fixes the number of digits, and if a point of a grid lies in the interval then
so does one of the value's two neighbours on that grid. Two neighbours at the same
distance are a tie, which each format breaks in its own way.

Main definitions:

* `Decimal` — a coefficient with a power of ten;
* `inInterval` — whether a decimal reads back as `m · 2^q`;
* `shortest` — the decimal of the coarsest grid, the nearer of two neighbours first.
-/

namespace DebtGauge

/-- The number `coefficient · 10 ^ exponent`. -/
structure Decimal where
  coefficient : Nat
  exponent : Int
deriving DecidableEq

namespace Decimal

/-- Which of two neighbours at the same distance is taken. -/
inductive Tie where
  | up
  | toEven
deriving DecidableEq

/-- The lower end of the rounding interval of `m · 2^q`, in units of `2 ^ (q - 2)`: half
way to the double below, which at a power of two is only half as far away. -/
def lowerEnd (m : Nat) (q : Int) : Nat :=
  if m = hiddenBit ∧ leastExponent < q then 4 * m - 1 else 4 * m - 2

/-- The upper end of the rounding interval, in the same units. -/
def upperEnd (m : Nat) : Nat := 4 * m + 2

/-- Whether `c · 10 ^ k` lies in the rounding interval of `m · 2 ^ q`. -/
def inInterval (m : Nat) (q : Int) (c : Nat) (k : Int) : Bool :=
  let closed := m % 2 = 0
  let fromBelow := comparePowers c k (lowerEnd m q) (q - 2)
  let fromAbove := comparePowers c k (upperEnd m) (q - 2)
  (fromBelow = .gt || (fromBelow = .eq && closed)) &&
    (fromAbove = .lt || (fromAbove = .eq && closed))

/-- The greatest `c` with `c · 10 ^ k ≤ m · 2 ^ q`. -/
def gridFloor (m : Nat) (q k : Int) : Nat :=
  m * (powerOfTwo q).1 * (powerOfTen k).2 / ((powerOfTen k).1 * (powerOfTwo q).2)

/-- The neighbour of `m · 2 ^ q` on the grid of `10 ^ k` that is taken when both of them,
`c` and `c + 1`, read back: the nearer one. -/
def nearer (tie : Tie) (m : Nat) (q : Int) (c : Nat) (k : Int) : Nat :=
  -- the middle of the two is `(2 * c + 1) · 10 ^ k`, in units of one half
  match comparePowers (2 * c + 1) k (2 * m) q with
  | .lt => c + 1
  | .gt => c
  | .eq => match tie with
    | .up => c + 1
    | .toEven => if c % 2 = 0 then c else c + 1

/-- The point of the grid of `10 ^ k` that reads back as `m · 2 ^ q`, if there is one. -/
def onGrid (tie : Tie) (m : Nat) (q k : Int) : Option Nat :=
  let c := gridFloor m q k
  match inInterval m q c k, inInterval m q (c + 1) k with
  | true, true => some (nearer tie m q c k)
  | true, false => some c
  | false, true => some (c + 1)
  | false, false => none

/-- Looks for a point on the grids of `10 ^ k`, `10 ^ (k - 1)`, … in this order. -/
def searchGrids (tie : Tie) (m : Nat) (q : Int) : Nat → Int → Decimal
  | 0, k => ⟨gridFloor m q k, k⟩
  | steps + 1, k =>
    match onGrid tie m q k with
    | some c => ⟨c, k⟩
    | none => searchGrids tie m q steps (k - 1)

/-- A power of ten above `2 ^ bits`, from `8 < 10 < 16`. -/
def gridAbove (bits : Int) : Int :=
  if 0 ≤ bits then bits / 3 + 1 else 1 - (-bits) / 4

/-- The decimal with the fewest digits that reads back as the positive double
`m · 2 ^ q`, and the nearest of those. The finest grid needed is the one on which the
value itself lies. -/
def shortest (tie : Tie) (m : Nat) (q : Int) : Decimal :=
  let top := gridAbove (q + m.log2 + 2)
  searchGrids tie m q (top - min q 0).toNat top

end Decimal

end DebtGauge
