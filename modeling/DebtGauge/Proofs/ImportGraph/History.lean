import DebtGauge.ImportGraph.Basic
import Mathlib.Data.List.Induction

/-!
# Histories of an import graph

A graph starts empty and is changed step by step: a module is added with its imports, a
parsed file is added, or the graph is cleared.

Main definitions:

* `ImportStep` — a change of a graph;
* `ModuleTable.after` — the table that a sequence of changes leads to;
* `ImportGraph.after` — the graph that a sequence of changes leads to.

Main results:

* `ModuleTable.inStep_after` — the two parts of a table stay in step.
* `ImportGraph.after_toModuleTable` — a graph has the table of its history.
-/

namespace DebtGauge

/-- A change of an import graph. -/
inductive ImportStep where
  | add (path : FilePath) (imports : List FilePath)
  | addFile (file : ParsedFile)
  | clear

namespace ModuleTable

/-- Makes a change. -/
def change (table : ModuleTable) : ImportStep → ModuleTable
  | .add path imports => table.add path imports
  | .addFile file => table.addFile file
  | .clear => table.clear

/-- The table after a sequence of changes, which starts from the empty one. -/
def after (steps : List ImportStep) : ModuleTable :=
  steps.foldl change empty

theorem after_concat (steps : List ImportStep) (step : ImportStep) :
    after (steps ++ [step]) = (after steps).change step := by
  rw [after, List.foldl_append]
  rfl

/-- A change leaves the two parts of a table in step. -/
theorem InStep.change {table : ModuleTable} (h : table.InStep) (step : ImportStep) :
    (table.change step).InStep := by
  cases step with
  | add path imports => exact h.add path imports
  | addFile file => exact h.add file.path file.imports
  | clear => exact inStep_clear table

/-- The two parts of a table are in step after any changes. -/
theorem inStep_after (steps : List ImportStep) : (after steps).InStep := by
  induction steps using List.reverseRecOn with
  | nil => exact inStep_empty
  | append_singleton steps step ih =>
    rw [after_concat]
    exact ih.change step

end ModuleTable

namespace ImportGraph

/-- A graph is its table. -/
theorem eq_of_toModuleTable {graph other : ImportGraph}
    (h : graph.toModuleTable = other.toModuleTable) : graph = other := by
  obtain ⟨table, hInStep⟩ := graph
  cases h
  rfl

/-- Makes a change. -/
def change (graph : ImportGraph) : ImportStep → ImportGraph
  | .add path imports => graph.add path imports
  | .addFile file => graph.addFile file
  | .clear => graph.clear

/-- The graph after a sequence of changes, which starts from the empty one. -/
def after (steps : List ImportStep) : ImportGraph :=
  steps.foldl change empty

theorem change_toModuleTable (graph : ImportGraph) (step : ImportStep) :
    (graph.change step).toModuleTable = graph.toModuleTable.change step := by
  cases step <;> rfl

/-- A graph has the table that the same changes lead to. -/
theorem after_toModuleTable (steps : List ImportStep) :
    (after steps).toModuleTable = .after steps := by
  induction steps using List.reverseRecOn with
  | nil => rfl
  | append_singleton steps step ih =>
    have hLast : after (steps ++ [step]) = (after steps).change step := by
      rw [after, List.foldl_append]
      rfl
    rw [hLast, change_toModuleTable, ih, ModuleTable.after_concat]

end ImportGraph

end DebtGauge
