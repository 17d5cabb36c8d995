import DebtGauge.Duplication.Similarity
import DebtGauge.Metric

/-!
# Groups of near duplicates

Blocks are grouped greedily in the order in which they were added: the first block that
is in no group leads the next one, and it absorbs all later blocks in no group that are
near duplicates of it. A group without absorbed blocks is none.

Main definitions:

* `Group`, `greedyGroups` — the grouping of a list by any test;
* `DuplicateDetector` — the blocks of a run;
* `DuplicateDetector.metrics` — one metric for each group.
-/

namespace DebtGauge

/-- A leader and what it absorbed. -/
structure Group (α : Type) where
  leader : α
  absorbed : List α
deriving DecidableEq

/-- The items that a leader absorbs. -/
def absorbedBy {α : Type} (near : α → α → Bool) (leader : α) (items : List α) : List α :=
  items.filter fun item => near leader item

/-- The items that a leader leaves to others. -/
def leftBy {α : Type} (near : α → α → Bool) (leader : α) (items : List α) : List α :=
  items.filter fun item => !near leader item

theorem length_leftBy_le {α : Type} (near : α → α → Bool) (leader : α) (items : List α) :
    (leftBy near leader items).length ≤ items.length :=
  List.length_filter_le _ _

/-- The groups of a list, those without absorbed items included. -/
def leaders {α : Type} (near : α → α → Bool) : List α → List (Group α)
  | [] => []
  | first :: rest => ⟨first, absorbedBy near first rest⟩ :: leaders near (leftBy near first rest)
termination_by items => items.length
decreasing_by
  have := length_leftBy_le near first rest
  simp only [List.length_cons]
  omega

/-- The groups of a list. -/
def greedyGroups {α : Type} (near : α → α → Bool) (items : List α) : List (Group α) :=
  (leaders near items).filter (!·.absorbed.isEmpty)

/-- The blocks of a run, in the order in which they were added. -/
structure DuplicateDetector where
  blocks : List CodeBlock

namespace DuplicateDetector

/-- A detector without blocks. -/
def empty : DuplicateDetector := ⟨[]⟩

/-- Adds blocks; those too short to be compared are left out. -/
def add (detector : DuplicateDetector) (blocks : List CodeBlock) : DuplicateDetector :=
  ⟨detector.blocks ++ blocks.filter (·.isComparable)⟩

/-- Adds the blocks of a file. -/
def addFile (detector : DuplicateDetector) (file : ParsedFile) : DuplicateDetector :=
  detector.add file.codeBlocks

/-- The number of blocks. -/
def count (detector : DuplicateDetector) : Nat := detector.blocks.length

/-- The groups of near duplicates. -/
def groups (detector : DuplicateDetector) : List (Group CodeBlock) :=
  greedyGroups CodeBlock.isDuplicate detector.blocks

/-- How a function without a name is called. -/
def unnamedLabel : String := "code block"

/-- The metric of a group: how many blocks its leader absorbed. -/
def groupMetric (group : Group CodeBlock) : Except Failure Metric :=
  let block := group.leader
  Metric.create .codeDuplication (Float.ofNat group.absorbed.length) block.path
    (some (.lines block.startLine block.endLine)) (some (block.name.getD unnamedLabel))

/-- The metrics of all groups, by their leaders. -/
def metrics (detector : DuplicateDetector) : Except Failure (List Metric) :=
  detector.groups.mapM groupMetric

end DuplicateDetector

end DebtGauge
