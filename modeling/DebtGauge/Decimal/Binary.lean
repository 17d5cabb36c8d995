/-!
# The exact value of a double

A double is not a number, an infinity, or a sign with a magnitude `m · 2^q`. Everything
that prints, rounds or compares a double in decimal starts from this reading and goes on
in exact integer arithmetic.

Main definitions:

* `Reading` — the three kinds of double;
* `Reading.ofFloat` — decodes the sixty-four bits;
* `roundHalfAway` — the nearest integer, a half going away from zero;
* `comparePowers` — compares `c · 10^k` with `m · 2^q`.
-/

namespace DebtGauge.Decimal

/-- What a double stands for; the value of `finite` is `± significand · 2 ^ exponent`. -/
inductive Reading where
  | notANumber
  | infinite (negative : Bool)
  | finite (negative : Bool) (significand : Nat) (exponent : Int)
deriving DecidableEq

/-- The exponent of the smallest positive double. -/
def leastExponent : Int := -1074

/-- The bit that belongs to the significand of a double without being stored, above the
fifty-two bits that are. -/
def hiddenBit : Nat := Nat.pow 2 52

/-- The field layout of a double: a sign bit, eleven exponent bits, fifty-two fraction bits. -/
def Reading.ofBits (bits : Nat) : Reading :=
  let negative := decide (Nat.pow 2 11 ≤ bits / hiddenBit % Nat.pow 2 12)
  let exponent := bits / hiddenBit % Nat.pow 2 11
  let fraction := bits % hiddenBit
  if exponent = 2047 then
    if fraction = 0 then .infinite negative else .notANumber
  else if exponent = 0 then .finite negative fraction leastExponent
  else .finite negative (fraction + hiddenBit) (leastExponent + (exponent - 1 : Nat))

@[inherit_doc Reading.ofBits]
def Reading.ofFloat (x : Float) : Reading :=
  .ofBits x.toBits.toNat

/-- `2 ^ q` as a pair of a factor and a divisor, one of which is one. -/
def powerOfTwo (q : Int) : Nat × Nat :=
  (Nat.pow 2 q.toNat, Nat.pow 2 (-q).toNat)

@[inherit_doc powerOfTwo]
def powerOfTen (k : Int) : Nat × Nat :=
  (Nat.pow 10 k.toNat, Nat.pow 10 (-k).toNat)

/-- How `c · 10 ^ k` compares with `m · 2 ^ q`. -/
def comparePowers (c : Nat) (k : Int) (m : Nat) (q : Int) : Ordering :=
  compare (c * (powerOfTen k).1 * (powerOfTwo q).2) (m * (powerOfTwo q).1 * (powerOfTen k).2)

/-- The nearest integer as a double, a half going away from zero. The sign stays, also on
zero; infinities and values that are no number stay as they are. -/
def roundHalfAway (x : Float) : Float :=
  match Reading.ofFloat x with
  | .finite negative m q =>
    if 0 ≤ q then x
    else
      let half := Nat.pow 2 ((-q).toNat - 1)
      let nearest := Float.ofNat ((m + half) / Nat.pow 2 (-q).toNat)
      if negative then -nearest else nearest
  | _ => x

end DebtGauge.Decimal
