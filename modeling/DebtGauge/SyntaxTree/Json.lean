import DebtGauge.Json.Basic
import DebtGauge.SyntaxTree.Listing
import DebtGauge.SyntaxTree.Parsing

/-!
# Syntax trees as JSON

A tree is handed over as the list of its nodes. A node is itself a list: its kind, the
name of the field it fills (or an empty text), its marks, the bytes where it starts and
ends, and the number of its children. The marks are a sum of 1 for a named node, 2 for an
error, 4 for a missing token and 8 for a node that has an error in it.

Main definitions:

* `SyntaxTree.ofJson?` — the tree over a source that a value describes;
* `Parser.ofTrees` — the parser that knows the trees of given texts.
-/

namespace DebtGauge

/-- The node that a value describes. -/
def ListedNode.ofJson? : Json → Option ListedNode
  | .array [.string kind, .string field, marks, start, stop, children] => do
    let marks ← marks.nat?
    return { kind, field := if field = "" then none else some field
             isNamed := marks.testBit 0, isError := marks.testBit 1
             isMissing := marks.testBit 2, hasError := marks.testBit 3
             startByte := ← start.nat?, stopByte := ← stop.nat?, childCount := ← children.nat? }
  | _ => none

/-- The tree over a source that a value describes. -/
def SyntaxTree.ofJson? (source : Source) (json : Json) : Option SyntaxTree := do
  ofListing? source (← (← json.array?).mapM ListedNode.ofJson?)

/-- A text in a language with its tree. -/
structure KnownTree where
  language : Language
  text : String
  tree : SyntaxTree

/-- The parser that knows the trees of some texts and has none for the others. -/
def Parser.ofTrees (known : List KnownTree) : Parser := fun language text =>
  (known.find? fun entry => entry.language = language && entry.text = text).map (·.tree)

end DebtGauge
