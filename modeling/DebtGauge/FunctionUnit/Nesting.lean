import DebtGauge.FunctionUnit.Basic

/-!
# Nesting depth

The greatest number of nesting constructs around a node below a function's body. A
construct nests if it is a branch, a loop, a switch or a try, and also if it is a bare
block inside another block. The body itself does not count, and the walk stops at nested
functions.

Main definitions:

* `SyntaxTree.nests` — whether a node is a nesting construct;
* `SyntaxTree.nestingDepth` — the depth below a body.
-/

namespace DebtGauge.SyntaxTree

/-- The kinds of node that nest wherever they stand. -/
def nestingKinds : List String :=
  ["if_statement", "for_statement", "for_in_statement", "while_statement", "do_statement",
   "switch_statement", "try_statement"]

/-- The kind of a block of statements. -/
def blockKind : String := "statement_block"

/-- Where a node stands: how many nesting constructs are around it, and whether its parent
is a block. -/
structure Surroundings where
  depth : Nat
  inBlock : Bool
deriving DecidableEq

/-- Whether a node is a nesting construct. -/
def nests (surroundings : Surroundings) (tree : SyntaxTree) : Bool :=
  tree.kind ∈ nestingKinds || (tree.kind = blockKind && surroundings.inBlock)

/-- The number of nesting constructs around and at a node. -/
def depthAt (surroundings : Surroundings) (tree : SyntaxTree) : Nat :=
  surroundings.depth + if tree.nests surroundings then 1 else 0

/-- The guide that hands down the surroundings, and stops at nested functions. -/
def withSurroundings : Guide Surroundings := fun tree surroundings =>
  if tree.isFunction then none
  else some ⟨tree.depthAt surroundings, tree.kind = blockKind⟩

/-- The nodes below a body that belong to no nested function, each with its depth. -/
def depthsBelow (body : SyntaxTree) : List Nat :=
  body.children.flatMap fun child =>
    ((visited withSurroundings child ⟨0, body.kind = blockKind⟩).filter
      (!·.1.isFunction)).map fun (below, surroundings) => below.depthAt surroundings

/-- The greatest depth below a body. -/
def nestingDepth (body : SyntaxTree) : Nat :=
  body.depthsBelow.foldl max 0

end DebtGauge.SyntaxTree
