import DebtGauge.FunctionUnit.Basic

/-!
# Cyclomatic complexity

One more than the number of decisions in a function's body. Functions nested in it have a
complexity of their own, and their decisions are not counted here.

Main definitions:

* `SyntaxTree.isDecision` — whether a node is a decision;
* `SyntaxTree.cyclomaticComplexity` — the complexity of a body.
-/

namespace DebtGauge.SyntaxTree

/-- The kinds of node that are decisions. The default branch of a switch is none. -/
def decisionKinds : List String :=
  ["if_statement", "for_statement", "for_in_statement", "while_statement", "do_statement",
   "switch_case", "catch_clause", "ternary_expression"]

/-- A binary expression whose operator may leave its right side unevaluated. -/
def isShortCircuit (source : Source) (tree : SyntaxTree) : Bool :=
  tree.kind = "binary_expression" &&
    (tree.field? "operator").any fun operator =>
      operator.text source = ['&', '&'] || operator.text source = ['|', '|']

/-- Whether a node is a decision. -/
def isDecision (source : Source) (tree : SyntaxTree) : Bool :=
  tree.kind ∈ decisionKinds || tree.isShortCircuit source

/-- The decisions in a body, in source order, without those of nested functions. -/
def ownDecisions (source : Source) (body : SyntaxTree) : List SyntaxTree :=
  ((visited ownNodes body ()).map Prod.fst).filter fun node =>
    !node.isFunction && node.isDecision source

/-- The cyclomatic complexity of a body. -/
def cyclomaticComplexity (source : Source) (body : SyntaxTree) : Nat :=
  (body.ownDecisions source).length + 1

end DebtGauge.SyntaxTree
