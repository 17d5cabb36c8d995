import DebtGauge.Failure
import DebtGauge.Language
import DebtGauge.SyntaxTree.Traversal

/-!
# Parsed files

A parser gives a tree for every text, with errors marked in it. A file whose tree is
marked counts as not parsed, and the failure points at the first node in source order
that is an error or stands for a missing token.

Main definitions:

* `Parser` — what gives trees for texts;
* `SyntaxTree.firstOffending?` — the node that a failure points at;
* `ParsedFile.parse` — a file's tree, or the failure.
-/

namespace DebtGauge

/-- Gives the tree of a text in a language. -/
abbrev Parser := Language → String → Option SyntaxTree

namespace SyntaxTree

/-- A node that is an error or stands for a missing token. -/
def isOffending (tree : SyntaxTree) : Bool :=
  tree.info.isError || tree.info.isMissing

/-- A node that may have an offending node in or below it, as its marks say. -/
def isMarked (tree : SyntaxTree) : Bool :=
  tree.info.hasError || tree.info.isMissing

/-- The guide into marked nodes, down to the first offending ones. -/
def markedNodes : Guide Unit :=
  fun tree _ => if tree.isMarked && !tree.isOffending then some () else none

/-- The first offending node in source order; nodes without a mark are not searched. -/
def firstOffending? (tree : SyntaxTree) : Option SyntaxTree :=
  ((visited markedNodes tree ()).map Prod.fst).find? fun node =>
    node.isMarked && node.isOffending

/-- The parse problem of an offending node. -/
def problem (tree : SyntaxTree) : ParseProblem :=
  if tree.info.isMissing then .missing tree.kind else .unexpectedText

/-- The failure to parse a file with a marked tree. -/
def failure (path : FilePath) (tree : SyntaxTree) : Failure :=
  match tree.firstOffending? with
  | some found =>
    .parse path (found.info.start.row + 1) (found.info.start.column + 1) found.problem
  | none => .parse path 1 1 .unexpectedText

end SyntaxTree

/-- A file with the tree of its text. -/
structure ParsedFile where
  path : FilePath
  source : Source
  language : Language
  tree : SyntaxTree

namespace ParsedFile

/-- Parses a file in a given language. -/
def parseAs (parser : Parser) (language : Language) (path : FilePath) (text : String) :
    Except Failure ParsedFile :=
  match parser language text with
  | none => .error (.parse path 0 0 .noTree)
  | some tree =>
    if tree.info.hasError then .error (tree.failure path)
    else .ok { path, source := .ofString text, language, tree }

/-- Parses a file in the language that its name selects. -/
def parse (parser : Parser) (path : FilePath) (text : String) : Except Failure ParsedFile :=
  match Language.ofPath? path with
  | none => .error (.parse path 0 0 .unsupportedExtension)
  | some language => parseAs parser language path text

end ParsedFile

end DebtGauge
