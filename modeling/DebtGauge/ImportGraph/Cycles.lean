import DebtGauge.ImportGraph.Basic
import DebtGauge.ImportGraph.Search
import DebtGauge.Metric

/-!
# Import cycles

The loops that a depth-first search over the import graph closes, each reported once: of
loops over the same files the first one counts.

Main definitions:

* `Cycle` — a loop of imports;
* `ImportGraph.cycles` — the cycles of a graph;
* `ImportGraph.cycleMetrics` — one metric for each cycle.
-/

namespace DebtGauge

/-- A loop of imports: each file imports the next one, and the last imports the first. -/
structure Cycle where
  files : List FilePath
deriving DecidableEq

namespace Cycle

/-- The names of the files, with arrows between them. -/
def chain (cycle : Cycle) : String :=
  " → ".intercalate (cycle.files.map FilePath.displayName)

/-- The paths of the files, sorted and joined: the same for loops over the same files. -/
def key (cycle : Cycle) : String :=
  "|".intercalate ((cycle.files.map (·.text)).mergeSort fun a b => a ≤ b)

/-- The metric of a cycle: its number of files, at its first file. -/
def metric (cycle : Cycle) : Except Failure Metric :=
  Metric.create .circularDependency (Float.ofNat cycle.files.length)
    (cycle.files.head?.getD ⟨""⟩) none (some cycle.chain)

end Cycle

/-- The items whose key no earlier item has; `seen` holds keys met before. -/
def distinctBy {α β : Type} [DecidableEq β] (key : α → β) (seen : List β) : List α → List α
  | [] => []
  | x :: xs =>
    if key x ∈ seen then distinctBy key seen xs else x :: distinctBy key (key x :: seen) xs

namespace ImportGraph

/-- The loops that the search closes, in the order in which it closes them. -/
def loops (graph : ImportGraph) : List Cycle :=
  (closedLoops graph.dependencies graph.paths).map Cycle.mk

/-- The cycles of a graph. -/
def cycles (graph : ImportGraph) : List Cycle :=
  distinctBy Cycle.key [] graph.loops

/-- One metric for each cycle. -/
def cycleMetrics (graph : ImportGraph) : Except Failure (List Metric) :=
  graph.cycles.mapM Cycle.metric

end ImportGraph

end DebtGauge
