/-!
# Tallies

The sum of a count over the items of a list.
-/

namespace DebtGauge

/-- The sum of `count` over the items of a list. -/
def tally (count : α → Nat) : List α → Nat
  | [] => 0
  | x :: xs => count x + tally count xs

theorem tally_append (count : α → Nat) (xs ys : List α) :
    tally count (xs ++ ys) = tally count xs + tally count ys := by
  induction xs with
  | nil => simp [tally]
  | cons x xs ih => simp only [List.cons_append, tally, ih, Nat.add_assoc]

end DebtGauge
