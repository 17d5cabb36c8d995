import DebtGauge.SyntaxTree.Traversal

/-!
# The walk with an agenda and the recursion on the tree

The agenda of a walk holds the trees that are still to be visited. Visiting them one after
the other, each by recursion, gives the same result.

Main results:

* `walkAgenda_eq_foldl` — a walk visits the entries of its agenda one after the other.
* `walk_eq_descend` — the walk over a tree is the recursion on it.
-/

namespace DebtGauge.SyntaxTree

variable {σ ι : Type} (visit : Visitor σ ι)

/-- Visits an entry of an agenda by recursion on its tree. -/
def descendEntry (result : σ) (entry : SyntaxTree × ι) : σ :=
  descend visit result entry.2 entry.1

theorem foldl_entries (result : σ) (handed : ι) (trees : List SyntaxTree) :
    (entries handed trees).foldl (descendEntry visit) result =
      descendAll visit result handed trees := by
  induction trees generalizing result with
  | nil => rfl
  | cons tree rest ih => exact ih (descend visit result handed tree)

/-- A walk visits the entries of its agenda one after the other. -/
theorem walkAgenda_eq_foldl (result : σ) (agenda : List (SyntaxTree × ι)) :
    walkAgenda visit result agenda = agenda.foldl (descendEntry visit) result := by
  induction result, agenda using walkAgenda.induct visit with
  | case1 result => rw [walkAgenda, List.foldl_nil]
  | case2 result info children handed rest after hVisit ih =>
    rw [walkAgenda, List.foldl_cons, descendEntry, descend]
    simp only [hVisit]
    exact ih
  | case3 result info children handed rest after below hVisit ih =>
    rw [walkAgenda, List.foldl_cons, descendEntry, descend]
    simp only [hVisit]
    -- the children stand in front of the rest of the agenda
    rw [ih, List.foldl_append, foldl_entries]

/-- The walk over a tree is the recursion on it. -/
theorem walk_eq_descend (result : σ) (tree : SyntaxTree) (handed : ι) :
    walk visit result tree handed = descend visit result handed tree :=
  walkAgenda_eq_foldl visit result [(tree, handed)]

end DebtGauge.SyntaxTree
