import DebtGauge.FilePath.Normal
import DebtGauge.Imports
import DebtGauge.Tally
import Std.Data.ExtTreeMap

/-!
# The import graph

The modules of a run with the paths they import. A path is known once a module of this
path was added. An import that names no known module may lack an extension, or name a
directory with an index file.

What is recorded of the modules has two parts: a map from paths to modules, and a list of the
paths in the order in which they came first. Each addition changes both, so that they stay in
step.

Main definitions:

* `ModuleTable` — the map and the list;
* `ModuleTable.add` — adds a module, or more imports of a known one;
* `ModuleTable.InStep` — how the two parts fit together;
* `ImportGraph` — a table whose parts are in step;
* `ImportGraph.resolve?` — the known module that an import refers to;
* `ImportGraph.dependencies` — the known modules that a module imports.

Main results:

* `ModuleTable.InStep.add` — an addition leaves the two parts in step.
-/

namespace DebtGauge

namespace FilePath

/-- The order of the map from paths to modules, by their texts; nothing else depends on it. -/
def compareTexts (a b : FilePath) : Ordering :=
  compare a.text b.text

instance : Std.TransCmp compareTexts where
  eq_swap {a b} := String.instTransOrd.eq_swap (a := a.text) (b := b.text)
  isLE_trans {a b c} := String.instTransOrd.isLE_trans (a := a.text) (b := b.text) (c := c.text)

instance : Std.LawfulEqCmp compareTexts where
  compare_self {a} := String.instLawfulEqOrd.compare_self (a := a.text)
  eq_of_compare h := congrArg FilePath.mk (String.instLawfulEqOrd.eq_of_compare h)

end FilePath

/-- A module and what it imports; all paths are in normal form. -/
structure ModuleNode where
  path : FilePath
  imports : List FilePath
deriving DecidableEq

/-- What is recorded of the modules of a run. -/
structure ModuleTable where
  /-- The module of each path that was added. -/
  nodes : Std.ExtTreeMap FilePath ModuleNode FilePath.compareTexts
  /-- The paths in the order in which they were first added. -/
  paths : List FilePath

namespace ModuleTable

/-- A table without modules. -/
def empty : ModuleTable := ⟨∅, []⟩

/-- Adds imports to the module of a path that is in normal form already. -/
def addNormal (table : ModuleTable) (path : FilePath) (imports : List FilePath) : ModuleTable :=
  match table.nodes[path]? with
  | some known =>
    { table with
      nodes := table.nodes.insert path { known with imports := known.imports ++ imports } }
  | none =>
    { nodes := table.nodes.insert path ⟨path, imports⟩
      paths := table.paths ++ [path] }

/-- Adds a module with its imports, or more imports of a known module. -/
def add (table : ModuleTable) (path : FilePath) (imports : List FilePath) : ModuleTable :=
  table.addNormal path.normalize (imports.map FilePath.normalize)

/-- Adds a parsed file with its imports. -/
def addFile (table : ModuleTable) (file : ParsedFile) : ModuleTable :=
  table.add file.path file.imports

/-- Empties both parts. -/
def clear (table : ModuleTable) : ModuleTable :=
  { table with
    nodes := ∅
    paths := [] }

/-- The map has the paths of the list as its keys, each of them once in the list, and keeps each
module under its own path. -/
structure InStep (table : ModuleTable) : Prop where
  paths_nodup : table.paths.Nodup
  mem_nodes_iff : ∀ path, path ∈ table.nodes ↔ path ∈ table.paths
  path_eq : ∀ (path : FilePath) (node : ModuleNode),
    table.nodes[path]? = some node → node.path = path

variable {table : ModuleTable}

theorem inStep_empty : empty.InStep where
  paths_nodup := List.nodup_nil
  mem_nodes_iff _ := iff_of_false Std.ExtTreeMap.not_mem_empty List.not_mem_nil
  path_eq _ _ hNode := by
    rw [empty, Std.ExtTreeMap.getElem?_empty] at hNode
    cases hNode

theorem inStep_clear (table : ModuleTable) : table.clear.InStep :=
  inStep_empty

/-- A module that was known before keeps its place, and a new one comes last. -/
theorem paths_addNormal (table : ModuleTable) (path : FilePath) (imports : List FilePath) :
    (table.addNormal path imports).paths =
      if path ∈ table.nodes then table.paths else table.paths ++ [path] := by
  unfold addNormal
  split
  case h_1 known hKnown =>
    have hKey : path ∈ table.nodes := by rw [Std.ExtTreeMap.mem_iff_isSome_getElem?, hKnown]; rfl
    rw [if_pos hKey]
  case h_2 hNew =>
    have hNoKey : path ∉ table.nodes := by simp [Std.ExtTreeMap.mem_iff_isSome_getElem?, hNew]
    rw [if_neg hNoKey]

/-- The module of the path gets the imports behind those it has, and no other one changes. -/
theorem InStep.getElem?_addNormal (h : table.InStep) (path : FilePath) (imports : List FilePath)
    (other : FilePath) : (table.addNormal path imports).nodes[other]? =
      if path = other then
        some ⟨path, (table.nodes[path]?.elim [] (·.imports)) ++ imports⟩
      else table.nodes[other]? := by
  unfold addNormal
  split
  case h_1 known hKnown =>
    rw [Std.ExtTreeMap.getElem?_insert, hKnown, Option.elim_some, h.path_eq path known hKnown]
    simp only [Std.LawfulEqCmp.compare_eq_iff_eq]
  case h_2 hNew =>
    rw [Std.ExtTreeMap.getElem?_insert, hNew, Option.elim_none, List.nil_append]
    simp only [Std.LawfulEqCmp.compare_eq_iff_eq]

theorem InStep.mem_addNormal (h : table.InStep) (path : FilePath) (imports : List FilePath)
    (other : FilePath) :
    other ∈ (table.addNormal path imports).nodes ↔ path = other ∨ other ∈ table.nodes := by
  rw [Std.ExtTreeMap.mem_iff_isSome_getElem?, Std.ExtTreeMap.mem_iff_isSome_getElem?,
    h.getElem?_addNormal]
  by_cases hSame : path = other <;> simp [hSame]

theorem InStep.addNormal (h : table.InStep) (path : FilePath) (imports : List FilePath) :
    (table.addNormal path imports).InStep where
  paths_nodup := by
    rw [paths_addNormal]
    split
    case isTrue => exact h.paths_nodup
    case isFalse hNew =>
      -- a path that is no key is not in the list yet
      rw [h.mem_nodes_iff] at hNew
      refine List.nodup_append.mpr ⟨h.paths_nodup, List.pairwise_singleton .., ?_⟩
      intro known hKnown added hAdded hSame
      exact hNew (List.mem_singleton.mp hAdded ▸ hSame ▸ hKnown)
  mem_nodes_iff other := by
    rw [h.mem_addNormal, paths_addNormal, h.mem_nodes_iff]
    by_cases hKnown : path ∈ table.nodes
    · have hListed := (h.mem_nodes_iff path).mp hKnown
      rw [if_pos hKnown]
      exact or_iff_right_of_imp fun hSame => hSame ▸ hListed
    · rw [if_neg hKnown, List.mem_append, List.mem_singleton, or_comm, eq_comm]
  path_eq other node hNode := by
    rw [h.getElem?_addNormal] at hNode
    by_cases hSame : path = other
    · rw [if_pos hSame] at hNode
      obtain rfl := Option.some.inj hNode
      exact hSame
    · rw [if_neg hSame] at hNode
      exact h.path_eq other node hNode

/-- An addition leaves the two parts in step. -/
theorem InStep.add (h : table.InStep) (path : FilePath) (imports : List FilePath) :
    (table.add path imports).InStep :=
  h.addNormal ..

end ModuleTable

/-- The modules of a run: what is recorded of them, with both parts in step. -/
structure ImportGraph extends ModuleTable where
  inStep : toModuleTable.InStep

namespace ImportGraph

/-- A graph without modules. -/
def empty : ImportGraph := ⟨.empty, ModuleTable.inStep_empty⟩

/-- Adds a module with its imports, or more imports of a known module. -/
def add (graph : ImportGraph) (path : FilePath) (imports : List FilePath) : ImportGraph :=
  ⟨graph.toModuleTable.add path imports, graph.inStep.add path imports⟩

/-- Adds a parsed file with its imports. -/
def addFile (graph : ImportGraph) (file : ParsedFile) : ImportGraph :=
  ⟨graph.toModuleTable.addFile file, graph.inStep.add file.path file.imports⟩

/-- Empties a graph. -/
def clear (graph : ImportGraph) : ImportGraph :=
  ⟨graph.toModuleTable.clear, ModuleTable.inStep_clear _⟩

theorem mem_nodes_iff (graph : ImportGraph) (path : FilePath) :
    path ∈ graph.nodes ↔ path ∈ graph.paths :=
  graph.inStep.mem_nodes_iff path

/-- A module that was known before keeps its place, and a new one comes last. -/
theorem paths_add (graph : ImportGraph) (path : FilePath) (imports : List FilePath) :
    (graph.add path imports).paths = if path.normalize ∈ graph.paths then graph.paths
      else graph.paths ++ [path.normalize] := by
  have hPaths := graph.toModuleTable.paths_addNormal path.normalize (imports.map FilePath.normalize)
  simp only [mem_nodes_iff] at hPaths
  exact hPaths

/-- The number of modules. -/
def moduleCount (graph : ImportGraph) : Nat := graph.paths.length

/-- The number of imports, known or not. -/
def importCount (graph : ImportGraph) : Nat :=
  tally (·.2.imports.length) graph.nodes.toList

/-- The extensions that an import may lack, in the order in which they are tried. -/
def extensions : List String := ["ts", "tsx", "mts", "cts", "js", "jsx", "mjs", "cjs"]

/-- The paths that an import without an extension may stand for, in the order in which
they are tried; a path without a file name stands for none. -/
def candidates (target : FilePath) : List FilePath :=
  match target.fileName? with
  | none => []
  | some name =>
    (extensions.map fun extension => target.withFileName s!"{name}.{extension}") ++
      extensions.map fun extension => target.join ⟨s!"index.{extension}"⟩

/-- The known module that an import refers to. -/
def resolve? (graph : ImportGraph) (target : FilePath) : Option FilePath :=
  (target :: candidates target).find? (· ∈ graph.nodes)

/-- The known modules that a module imports, in the order of its imports; a module that
is not known imports none. -/
def dependencies (graph : ImportGraph) (path : FilePath) : List FilePath :=
  match graph.nodes[path.normalize]? with
  | some known => known.imports.filterMap graph.resolve?
  | none => []

end ImportGraph

end DebtGauge
