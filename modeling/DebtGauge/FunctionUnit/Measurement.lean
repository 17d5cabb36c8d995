import DebtGauge.FunctionUnit.Complexity
import DebtGauge.FunctionUnit.Nesting
import DebtGauge.FunctionUnit.Signature

/-!
# Measurements of functions

Main definitions:

* `FunctionUnit` — what is measured of one function;
* `FunctionUnit.label` — how a function is called in messages;
* `SyntaxTree.functionUnits` — the measurements of all functions of a tree.
-/

namespace DebtGauge

/-- What is measured of one function. -/
structure FunctionUnit where
  name : Option String
  kind : FunctionKind
  location : Location
  cyclomatic : Nat
  nesting : Nat
  /-- The number of lines from the first to the last, both included. -/
  length : Nat
  parameters : Nat
  anyUses : Nat
deriving DecidableEq

namespace FunctionUnit

/-- How a function without a name is called. -/
def anonymousLabel : String := "anonymous function"

/-- How a function is called in messages. -/
def label (unit : FunctionUnit) : String :=
  if unit.kind = .constructor then "constructor" else unit.name.getD anonymousLabel

/-- The kind of a function: a method with the name of constructors is one. -/
def kindOf (nodeKind : FunctionKind) (name : Option String) : FunctionKind :=
  if nodeKind = .method ∧ name = some "constructor" then .constructor else nodeKind

/-- Measures a function of the given kind below the given parent. A function without a
body has complexity one and no nesting. -/
def measure (source : Source) (nodeKind : FunctionKind) (parent : Option SyntaxTree)
    (tree : SyntaxTree) : FunctionUnit :=
  let name := tree.functionName? source parent
  { name
    kind := kindOf nodeKind name
    location := tree.location
    cyclomatic := (tree.body?.map (·.cyclomaticComplexity source)).getD 1
    nesting := (tree.body?.map (·.nestingDepth)).getD 0
    length := tree.info.stop.row - tree.info.start.row + 1
    parameters := tree.parameterCount
    anyUses := tree.anyCount source }

end FunctionUnit

/-- The measurements of all functions of a tree, in source order. -/
def SyntaxTree.functionUnits (source : Source) (tree : SyntaxTree) : List FunctionUnit :=
  tree.functions.filterMap fun (found, parent) =>
    (FunctionKind.ofNodeKind? found.kind).map fun kind =>
      FunctionUnit.measure source kind parent found

end DebtGauge
