/-!
# Edit distance

The least number of insertions, deletions and substitutions of single characters that
turn one text into another. It is computed row by row: a row holds the distances of one
beginning of the first text from all beginnings of the second.

Main definitions:

* `nextRow` — the row of a beginning that is one character longer;
* `editDistance` — the distance of two texts.
-/

namespace DebtGauge.Text

/-- The least of three numbers. -/
def leastOf (a b c : Nat) : Nat := min a (min b c)

/-- Goes on with a row: `corner` and `left` are the entries above and in the row itself
for the beginning of the second text that was reached last. -/
def extendRow (c : Char) : Nat → Nat → List Char → List Nat → List Nat
  | corner, left, d :: ds, above :: row =>
    let entry := leastOf (above + 1) (left + 1) (corner + if c = d then 0 else 1)
    entry :: extendRow c above entry ds row
  | _, _, _, _ => []

/-- The row of a beginning of the first text that is longer by the character `c`. -/
def nextRow (text : List Char) (row : List Nat) (c : Char) : List Nat :=
  match row with
  | [] => []
  | first :: rest => (first + 1) :: extendRow c first (first + 1) text rest

/-- The edit distance of two texts. -/
def editDistance (a b : List Char) : Nat :=
  (a.foldl (nextRow b) (List.range (b.length + 1))).getLast?.getD 0

end DebtGauge.Text
