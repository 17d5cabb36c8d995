import DebtGauge.Duplication.Block
import DebtGauge.FunctionUnit.Measurement
import DebtGauge.Imports
import DebtGauge.Metric

/-!
# The analysis of one file

Everything that a run needs of a file: its metrics, its code blocks and its imports. The
metrics of the file come first, then those of its functions in source order. Metrics that
may be zero are left out if they are.

Main definitions:

* `ParsedFile.metrics` — the metrics of a file;
* `ParsedFile.analyze` — all that is extracted from a file.
-/

namespace DebtGauge

/-- What is extracted from a file. -/
structure FileAnalysis where
  path : FilePath
  metrics : List Metric
  blocks : List CodeBlock
  imports : List FilePath

/-- The measurements of a function as pairs of a kind and a value. -/
def FunctionUnit.measurements (unit : FunctionUnit) : List (MetricKind × Nat) :=
  let unlessZero (kind : MetricKind) (value : Nat) :=
    if 0 < value then [(kind, value)] else []
  (.functionLength, unit.length) :: unlessZero .parameterCount unit.parameters ++
    (.cyclomaticComplexity, unit.cyclomatic) :: unlessZero .nestingDepth unit.nesting ++
    unlessZero .anyUsage unit.anyUses

/-- The metrics of a function of a file. -/
def FunctionUnit.metrics (path : FilePath) (unit : FunctionUnit) :
    Except Failure (List Metric) :=
  unit.measurements.mapM fun (kind, value) =>
    Metric.create kind (Float.ofNat value) path (some unit.location) (some unit.label)

namespace ParsedFile

/-- The measurements of a function of a file. -/
def functionUnits (file : ParsedFile) : List FunctionUnit :=
  file.tree.functionUnits file.source

/-- How often a marker stands in the comments of a file. -/
def markerCount (file : ParsedFile) (marker : String) : Nat :=
  file.tree.markerCount file.source marker

/-- The markers that are counted, and the kinds of their metrics. -/
def markers : List (MetricKind × String) :=
  [(.todoComments, "TODO"), (.fixmeComments, "FIXME")]

/-- The metrics of a file as a whole. -/
def fileMetrics (file : ParsedFile) : Except Failure (List Metric) := do
  let lines := file.source.lineCount
  let length ← Metric.create .fileLength (Float.ofNat lines) file.path
    (some (.lines 1 (max lines 1))) none
  let found := (markers.map fun (kind, marker) => (kind, marker, file.markerCount marker)).filter
    fun (_, _, count) => 0 < count
  let markerMetrics ← found.mapM fun (kind, marker, count) =>
    Metric.create kind (Float.ofNat count) file.path (some (.lines 1 1)) (some marker)
  return length :: markerMetrics

/-- The metrics of a file. -/
def metrics (file : ParsedFile) : Except Failure (List Metric) := do
  let ofFile ← file.fileMetrics
  let ofFunctions ← file.functionUnits.mapM (FunctionUnit.metrics file.path)
  return ofFile ++ ofFunctions.flatten

/-- Everything that a run needs of a file. -/
def analyze (file : ParsedFile) : Except Failure FileAnalysis := do
  let metrics ← file.metrics
  return { path := file.path, metrics, blocks := file.codeBlocks, imports := file.imports }

end ParsedFile

end DebtGauge
