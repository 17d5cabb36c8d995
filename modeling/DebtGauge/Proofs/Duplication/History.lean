import DebtGauge.Duplication.Grouping
import DebtGauge.Proofs.Sequence
import Mathlib.Data.List.Induction

/-!
# Histories of a detector

A detector starts without blocks. Blocks are added step by step, those of a parsed file or
others, until the detector is cleared.

Main definitions and results:

* `DetectorStep` — a change of a detector;
* `DuplicateDetector.after` — the detector that a sequence of changes leads to;
* `addedSinceClear` — the blocks that were added since the last clearing;
* `blocks_after` — a detector keeps those of them that are long enough.
-/

namespace DebtGauge

/-- A change of a detector. -/
inductive DetectorStep where
  | add (blocks : List CodeBlock)
  | addFile (file : ParsedFile)
  | clear

namespace DetectorStep

/-- The blocks that a change brings. -/
def added : DetectorStep → List CodeBlock
  | add blocks => blocks
  | addFile file => file.codeBlocks
  | clear => []

/-- Whether a change leaves nothing of what was there. -/
def isClear : DetectorStep → Bool
  | clear => true
  | _ => false

end DetectorStep

/-- The blocks that the changes after the last clearing bring, in their order. -/
def addedSinceClear (steps : List DetectorStep) : List CodeBlock :=
  (afterLast DetectorStep.isClear steps).flatMap DetectorStep.added

theorem addedSinceClear_concat (steps : List DetectorStep) (step : DetectorStep) :
    addedSinceClear (steps ++ [step]) =
      if step.isClear then [] else addedSinceClear steps ++ step.added := by
  unfold addedSinceClear
  rw [afterLast_concat]
  cases step.isClear with
  | true => rfl
  | false => simp

namespace DuplicateDetector

/-- Makes a change. -/
def change (detector : DuplicateDetector) : DetectorStep → DuplicateDetector
  | .add blocks => detector.add blocks
  | .addFile file => detector.addFile file
  | .clear => empty

/-- The detector after a sequence of changes, which starts from the empty one. -/
def after (steps : List DetectorStep) : DuplicateDetector :=
  steps.foldl change empty

/-- One more change clears the detector or adds the blocks that are long enough. -/
theorem blocks_change (detector : DuplicateDetector) (step : DetectorStep) :
    (detector.change step).blocks =
      if step.isClear then [] else detector.blocks ++ step.added.filter (·.isComparable) := by
  cases step with
  | add blocks => rfl
  | addFile file => rfl
  | clear => rfl

/-- A detector holds the blocks added since the last clearing that are long enough. -/
theorem blocks_after (steps : List DetectorStep) :
    (after steps).blocks = (addedSinceClear steps).filter (·.isComparable) := by
  induction steps using List.reverseRecOn with
  | nil => rfl
  | append_singleton steps step ih =>
    have hLast : after (steps ++ [step]) = (after steps).change step := by
      rw [after, List.foldl_append]
      rfl
    rw [hLast, blocks_change, addedSinceClear_concat, ih]
    cases step.isClear with
    | true => rfl
    | false => exact (List.filter_append ..).symm

end DuplicateDetector

end DebtGauge
