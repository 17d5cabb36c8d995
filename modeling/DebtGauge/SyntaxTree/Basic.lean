import DebtGauge.Source

/-!
# Syntax trees

A concrete syntax tree: every node has a kind, covers a span of the source and may be
named by a field of its parent. Tokens such as operators are nodes too, but not named
ones.

Main definitions:

* `SyntaxTree` — a node with its children;
* `SyntaxTree.field?` — the child that a field names;
* `SyntaxTree.text` — the characters that a node covers.
-/

namespace DebtGauge

/-- What is known of a node apart from its children. -/
structure NodeInfo where
  kind : String
  /-- The field of the parent that names the node. -/
  field : Option String
  /-- Nodes of the grammar's rules are named, literal tokens are not. -/
  isNamed : Bool
  /-- The node stands for text that the grammar does not allow. -/
  isError : Bool
  /-- The node stands for a token that the grammar requires and the text lacks. -/
  isMissing : Bool
  /-- The parser's mark on a node with an error in or below it. -/
  hasError : Bool
  start : Point
  stop : Point
deriving DecidableEq

/-- A node and its children from left to right. -/
inductive SyntaxTree where
  | node (info : NodeInfo) (children : List SyntaxTree)

namespace SyntaxTree

/-- What is known of the root. -/
def info : SyntaxTree → NodeInfo
  | node info _ => info

/-- The subtrees below the root. -/
def children : SyntaxTree → List SyntaxTree
  | node _ children => children

/-- The kind of the root. -/
def kind (tree : SyntaxTree) : String := tree.info.kind

/-- The first child that the field names. -/
def field? (tree : SyntaxTree) (name : String) : Option SyntaxTree :=
  tree.children.find? (·.info.field = some name)

/-- The children that are no mere tokens. -/
def namedChildren (tree : SyntaxTree) : List SyntaxTree :=
  tree.children.filter (·.info.isNamed)

/-- The characters that a node covers. -/
def text (tree : SyntaxTree) (source : Source) : List Char :=
  source.slice tree.info.start.offset tree.info.stop.offset

/-- The span that a node covers. -/
def location (tree : SyntaxTree) : Location :=
  .between tree.info.start tree.info.stop

mutual

/-- The number of nodes of a tree. -/
def size : SyntaxTree → Nat
  | node _ children => sizeAll children + 1

/-- The number of nodes of several trees. -/
def sizeAll : List SyntaxTree → Nat
  | [] => 0
  | tree :: rest => tree.size + sizeAll rest

end

theorem size_node (info : NodeInfo) (children : List SyntaxTree) :
    (node info children).size = sizeAll children + 1 := by
  rw [size]

theorem sizeAll_cons (tree : SyntaxTree) (rest : List SyntaxTree) :
    sizeAll (tree :: rest) = tree.size + sizeAll rest := by
  rw [sizeAll]

end SyntaxTree

end DebtGauge
