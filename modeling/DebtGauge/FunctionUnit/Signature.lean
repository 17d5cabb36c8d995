import DebtGauge.FunctionUnit.Basic
import DebtGauge.Tally

/-!
# Signatures of functions

Main definitions:

* `SyntaxTree.parameterCount` — the number of parameters of a function;
* `SyntaxTree.anyCount` — how often its parameters and its result are of type `any`.
-/

namespace DebtGauge.SyntaxTree

/-- The number of parameters: those in parentheses, comments among them aside, or the bare
one of an arrow function. -/
def parameterCount (tree : SyntaxTree) : Nat :=
  match tree.field? "parameters" with
  | some parameters => (parameters.namedChildren.filter (·.kind ≠ "comment")).length
  | none => if (tree.field? "parameter").isSome then 1 else 0

/-- A node that is the type `any`. -/
def isAnyType (source : Source) (tree : SyntaxTree) : Bool :=
  tree.kind = "predefined_type" && tree.text source = "any".toList

/-- How often `any` stands in a type. -/
def anyTypes (source : Source) (tree : SyntaxTree) : Nat :=
  (tree.nodes.filter (·.isAnyType source)).length

/-- The type annotations of a signature: those of the parameters, then that of the
result. -/
def signatureTypes (tree : SyntaxTree) : List SyntaxTree :=
  ((tree.field? "parameters").toList.flatMap fun parameters =>
    parameters.namedChildren.filterMap (·.field? "type")) ++
    (tree.field? "return_type").toList

/-- How often `any` stands in the signature of a function. -/
def anyCount (source : Source) (tree : SyntaxTree) : Nat :=
  tally (·.anyTypes source) tree.signatureTypes

end DebtGauge.SyntaxTree
