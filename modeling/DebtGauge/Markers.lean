import DebtGauge.SyntaxTree.Traversal
import DebtGauge.Tally
import DebtGauge.Text.Occurrences

/-!
# Comments and the markers in them

Main definitions:

* `SyntaxTree.comments` — the comments of a tree;
* `SyntaxTree.markerCount` — how often a marker such as `TODO` stands in them, in any
  case.
-/

namespace DebtGauge.SyntaxTree

/-- Whether a node is a comment. -/
def isComment (tree : SyntaxTree) : Bool := tree.kind = "comment"

/-- The guide into everything but comments. -/
def outsideComments : Guide Unit := fun tree _ => if tree.isComment then none else some ()

/-- The comments of a tree, in source order. -/
def comments (tree : SyntaxTree) : List SyntaxTree :=
  ((visited outsideComments tree ()).map Prod.fst).filter (·.isComment)

/-- How often a marker, given in upper case, stands in the comments of a tree. -/
def markerCount (source : Source) (marker : String) (tree : SyntaxTree) : Nat :=
  tally (fun comment => Text.occurrences marker (Text.asciiUpper (comment.text source)))
    tree.comments

end DebtGauge.SyntaxTree
