import DebtGauge.FilePath.Basic

/-!
# The order of paths

Paths are ordered component by component, not as texts, so a directory's files stay
together: `a/z` comes before `a-b`. Names are ordered by their code points, which is the
order of their bytes.

Main definitions:

* `FilePath.Component.rank`, `FilePath.key` — the sort key of a path;
* `FilePath.precedes` — the order, as a test for sorting.
-/

namespace DebtGauge.FilePath

/-- The place of a component's kind among the kinds. -/
def Component.rank : Component → Nat
  | .root => 0
  | .current => 1
  | .parent => 2
  | .name _ => 3

/-- The sort key of a component: its kind, then its code points. -/
def Component.key : Component → List Nat
  | .name text => 3 :: text.toList.map Char.toNat
  | component => [component.rank]

/-- The sort key of a path: the keys of its components. -/
def key (path : FilePath) : List (List Nat) :=
  path.components.map Component.key

/-- Whether a list of numbers is at most another in the lexicographic order. -/
def compareLists (compareItems : α → α → Ordering) : List α → List α → Ordering
  | [], [] => .eq
  | [], _ :: _ => .lt
  | _ :: _, [] => .gt
  | x :: xs, y :: ys => (compareItems x y).then (compareLists compareItems xs ys)

/-- How two paths compare, component by component. -/
def comparePaths (a b : FilePath) : Ordering :=
  compareLists (compareLists compare) a.key b.key

/-- A path precedes those that come after it, and itself. -/
def precedes (a b : FilePath) : Bool :=
  comparePaths a b != .gt

/-- The paths in their order. -/
def sort (paths : List FilePath) : List FilePath :=
  paths.mergeSort precedes

end DebtGauge.FilePath
