import DebtGauge.SyntaxTree.Basic

/-!
# Syntax trees as lists

A tree can be given as the list of its nodes in source order, parents first, each with
the number of its children. Such a list is planted from its end: a node takes as many of
the trees grown so far as it has children.

Main definitions:

* `ListedNode` — an entry of such a list, with the span in bytes;
* `SyntaxTree.ofListing?` — the tree that a list describes.
-/

namespace DebtGauge

/-- A node of a listing; its span is given in bytes of the source. -/
structure ListedNode where
  kind : String
  field : Option String
  isNamed : Bool
  isError : Bool
  isMissing : Bool
  hasError : Bool
  startByte : Nat
  stopByte : Nat
  childCount : Nat

namespace SyntaxTree

/-- The node that an entry describes, if its span lies in the source. -/
def infoOf? (points : Array Point) (entry : ListedNode) : Option NodeInfo := do
  let start ← points[entry.startByte]?
  let stop ← points[entry.stopByte]?
  return { kind := entry.kind, field := entry.field, isNamed := entry.isNamed,
           isError := entry.isError, isMissing := entry.isMissing,
           hasError := entry.hasError, start, stop }

/-- Puts a node in front of the trees grown from the entries behind it. -/
def plant? (points : Array Point) (entry : ListedNode) (grown : List SyntaxTree) :
    Option (List SyntaxTree) := do
  let info ← infoOf? points entry
  let children := grown.take entry.childCount
  if children.length < entry.childCount then none
  else return node info children :: grown.drop entry.childCount

/-- The tree over `source` that a listing describes; a list that is no listing of one
tree describes none. -/
def ofListing? (source : Source) (entries : List ListedNode) : Option SyntaxTree :=
  let points := source.points
  match entries.foldr (fun entry grown => grown.bind (plant? points entry)) (some []) with
  | some [tree] => some tree
  | _ => none

end SyntaxTree

end DebtGauge
