import DebtGauge.SyntaxTree.Traversal

/-!
# Functions of a syntax tree

The node kinds that start a function of their own, and the name a function goes by. A
function without a name of its own takes the name of what it is assigned to.

Main definitions:

* `functionKinds`, `SyntaxTree.isFunction` — which nodes start a function;
* `FunctionKind.ofNodeKind?` — the kind of function that a node starts;
* `SyntaxTree.functionName?` — the name of a function below a given parent;
* `SyntaxTree.functions` — all functions of a tree with their parents.
-/

namespace DebtGauge

/-- The kinds of node that start a function. -/
def functionKinds : List String :=
  ["function_declaration", "generator_function_declaration", "function_expression", "function",
   "generator_function", "arrow_function", "method_definition"]

/-- The kinds of function. -/
inductive FunctionKind where
  | declaration
  | expression
  | arrow
  | method
  | constructor
  | generator
deriving DecidableEq

namespace FunctionKind

/-- The name of a kind of function. -/
def name : FunctionKind → String
  | declaration => "Declaration"
  | expression => "Expression"
  | arrow => "Arrow"
  | method => "Method"
  | constructor => "Constructor"
  | generator => "Generator"

/-- The kinds of function that nodes start, by the kinds of the nodes. -/
def ofNode : List (String × FunctionKind) :=
  [("function_declaration", declaration), ("generator_function_declaration", generator),
   ("function_expression", expression), ("function", expression),
   ("generator_function", generator), ("arrow_function", arrow), ("method_definition", method)]

/-- The kind of function that a node of the given kind starts. -/
def ofNodeKind? (kind : String) : Option FunctionKind :=
  ofNode.lookup kind

end FunctionKind

namespace SyntaxTree

/-- A node starts a function if its kind says so and it is no mere keyword. -/
def isFunction (tree : SyntaxTree) : Bool :=
  tree.info.isNamed && tree.kind ∈ functionKinds

/-- The node that names what is assigned in an assignment: the property of a member
access, and otherwise the whole left side. -/
def assignedName? (assignment : SyntaxTree) : Option SyntaxTree :=
  (assignment.field? "left").map fun left =>
    if left.kind = "member_expression" then (left.field? "property").getD left else left

/-- The node that names what a parent binds its children to. -/
def boundName? (parent : SyntaxTree) : Option SyntaxTree :=
  match parent.kind with
  | "variable_declarator" => parent.field? "name"
  | "pair" => parent.field? "key"
  | "public_field_definition" => parent.field? "name"
  | "field_definition" => parent.field? "property"
  | "assignment_expression" => parent.assignedName?
  | _ => none

/-- The node that names a function: its own name, or for a function without one the name
that its parent binds it to. A method is never named by its parent. -/
def nameNode? (parent : Option SyntaxTree) (tree : SyntaxTree) : Option SyntaxTree :=
  if tree.kind = "method_definition" then tree.field? "name"
  else (tree.field? "name").or (parent.bind boundName?)

/-- The name of a function. -/
def functionName? (source : Source) (parent : Option SyntaxTree) (tree : SyntaxTree) :
    Option String :=
  (tree.nameNode? parent).map fun node => String.ofList (node.text source)

/-- The guide that hands each node its parent. -/
def withParent : Guide (Option SyntaxTree) := fun tree _ => some (some tree)

/-- The functions of a tree in source order, nested ones included, each with the parent of
its node. -/
def functions (tree : SyntaxTree) : List (SyntaxTree × Option SyntaxTree) :=
  (visited withParent tree none).filter (·.1.isFunction)

/-- The guide into the nodes of a function that belong to no function nested in it. -/
def ownNodes : Guide Unit := fun tree _ => if tree.isFunction then none else some ()

/-- The body of a function. -/
def body? (tree : SyntaxTree) : Option SyntaxTree := tree.field? "body"

end SyntaxTree

end DebtGauge
