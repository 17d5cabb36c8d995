import DebtGauge.Failure
import DebtGauge.Glob

/-!
# Which files to look at

A file is selected if its path, seen from the root of the run, matches an include pattern
and no ignore pattern. A root that is itself a file is seen by its name.

Main definitions:

* `FileSelection` — the patterns as texts, with `FileSelection.standard` for projects
  without settings;
* `FileSelection.patterns` — the patterns read, or the first fault in them;
* `SelectionPatterns.selects` — whether patterns select a path.
-/

namespace DebtGauge

/-- Which files of a tree a run looks at. -/
structure FileSelection where
  /-- The patterns of which a file must match one. -/
  included : List String
  /-- The patterns of which a file must match none. -/
  ignored : List String

/-- The source files of a project, without dependencies, built files and declarations. -/
def FileSelection.standard : FileSelection where
  included :=
    ["**/*.ts", "**/*.tsx", "**/*.js", "**/*.jsx", "**/*.mts", "**/*.cts", "**/*.mjs",
     "**/*.cjs"]
  ignored := ["**/node_modules/**", "**/dist/**", "**/build/**", "**/*.d.ts"]

/-- The patterns of a selection, read. -/
structure SelectionPatterns where
  included : List Glob.Pattern
  ignored : List Glob.Pattern

/-- Reads the patterns of a selection; fails on the first faulty one. -/
def FileSelection.patterns (selection : FileSelection) : Except Failure SelectionPatterns := do
  let read (texts : List String) := (texts.mapM Glob.parse).mapError Failure.pattern
  return { included := ← read selection.included, ignored := ← read selection.ignored }

/-- Whether patterns select a path, which is seen from the root. -/
def SelectionPatterns.selects (patterns : SelectionPatterns) (path : FilePath) : Bool :=
  patterns.included.any (Glob.matchesPath · path) &&
    !patterns.ignored.any (Glob.matchesPath · path)

/-- A path as patterns see it: from the root, and for the root itself by its name. -/
def FilePath.seenFrom (root path : FilePath) : FilePath :=
  match path.stripRoot? root with
  | some below => if below.text = "" then ⟨path.displayName⟩ else below
  | none => ⟨path.displayName⟩

end DebtGauge
