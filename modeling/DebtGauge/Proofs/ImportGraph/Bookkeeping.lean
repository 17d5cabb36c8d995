import DebtGauge.Proofs.ImportGraph.Cycles
import DebtGauge.Proofs.Sequence
import DebtGauge.Proofs.Tally
import Mathlib.Data.Finset.Card

/-!
# What an import graph remembers

Of all that was done to a graph, it remembers what was added since it was last cleared, and of
this no more than two things: in which order the modules came first, and what was imported by
each of them, one addition after the other. The answers of a graph depend on nothing else.

Main definitions and results:

* `addedSinceClear` — what was added since the last clearing, in normal form;
* `nodesOf` — the modules of such a list, each with all its imports;
* `Records` — when the map and the list of a table record what was added;
* `records_after` — they record what was added since the last clearing;
* `remembers_additions` — map, list and counts of a graph, and what its answers depend on.
-/

namespace DebtGauge

namespace ImportStep

/-- What a change adds: a module and imports of it, in normal form. -/
def added : ImportStep → List ModuleNode
  | add path imports => [⟨path.normalize, imports.map FilePath.normalize⟩]
  | addFile file => [⟨file.path.normalize, file.imports.map FilePath.normalize⟩]
  | clear => []

/-- Whether a change leaves nothing of what was there. -/
def isClear : ImportStep → Bool
  | clear => true
  | _ => false

end ImportStep

namespace ImportGraph

/-- What was added since the last clearing, in order. -/
def addedSinceClear (steps : List ImportStep) : List ModuleNode :=
  (afterLast ImportStep.isClear steps).flatMap ImportStep.added

/-- The different paths of a list of additions, in the order in which they come first. -/
def firstPaths (added : List ModuleNode) : List FilePath :=
  (added.map (·.path)).eraseDups

/-- All imports that are added for a path, in order. -/
def importsOf (added : List ModuleNode) (path : FilePath) : List FilePath :=
  (added.filter (·.path = path)).flatMap (·.imports)

/-- The modules of a list of additions, each with all its imports. -/
def nodesOf (added : List ModuleNode) : List ModuleNode :=
  (firstPaths added).map fun path => ⟨path, importsOf added path⟩

/-! ## One more addition -/

theorem eraseDups_concat {α : Type} [DecidableEq α] (xs : List α) (x : α) :
    (xs ++ [x]).eraseDups = if x ∈ xs then xs.eraseDups else xs.eraseDups ++ [x] := by
  rw [List.eraseDups_append]
  split
  case isTrue hOld => simp [List.removeAll, hOld]
  case isFalse hNew => simp [List.removeAll, hNew, List.eraseDups_cons]

theorem nodup_eraseDups {α : Type} [DecidableEq α] (xs : List α) : xs.eraseDups.Nodup := by
  induction xs using List.reverseRecOn with
  | nil => simp
  | append_singleton xs x ih =>
    rw [eraseDups_concat]
    split
    case isTrue => exact ih
    case isFalse hNew =>
      refine List.nodup_append.mpr ⟨ih, by simp, ?_⟩
      intro y hy z hz hEq
      -- the new item would have been there before
      obtain rfl := List.mem_singleton.mp hz
      exact hNew (List.mem_eraseDups.mp (hEq ▸ hy))

theorem mem_firstPaths {added : List ModuleNode} {path : FilePath} :
    path ∈ firstPaths added ↔ ∃ node ∈ added, node.path = path := by
  rw [firstPaths, List.mem_eraseDups, List.mem_map]

theorem firstPaths_concat (added : List ModuleNode) (node : ModuleNode) :
    firstPaths (added ++ [node]) =
      if node.path ∈ firstPaths added then firstPaths added
      else firstPaths added ++ [node.path] := by
  have hMem : node.path ∈ firstPaths added ↔ node.path ∈ added.map (·.path) :=
    List.mem_eraseDups
  unfold firstPaths at hMem ⊢
  rw [List.map_append, List.map_singleton, eraseDups_concat]
  simp only [hMem]

theorem mem_firstPaths_concat {added : List ModuleNode} {node : ModuleNode} {path : FilePath} :
    path ∈ firstPaths (added ++ [node]) ↔ node.path = path ∨ path ∈ firstPaths added := by
  simp only [mem_firstPaths, List.mem_append, List.mem_singleton, or_and_right, exists_or,
    exists_eq_left, or_comm]

theorem importsOf_concat (added : List ModuleNode) (node : ModuleNode) (path : FilePath) :
    importsOf (added ++ [node]) path =
      importsOf added path ++ if node.path = path then node.imports else [] := by
  unfold importsOf
  rw [List.filter_append, List.flatMap_append]
  by_cases hPath : node.path = path <;> simp [hPath]

theorem importsOf_eq_nil {added : List ModuleNode} {path : FilePath}
    (hNew : path ∉ firstPaths added) : importsOf added path = [] := by
  have hNone : added.filter (·.path = path) = [] := by
    refine List.filter_eq_nil_iff.mpr fun node hNode => ?_
    intro hPath
    exact hNew (mem_firstPaths.mpr ⟨node, hNode, of_decide_eq_true hPath⟩)
  rw [importsOf, hNone, List.flatMap_nil]

/-- One more addition to a module that is there gives it the imports, and every other module stays
as it is. -/
theorem nodesOf_concat (added : List ModuleNode) (node : ModuleNode) :
    nodesOf (added ++ [node]) = if node.path ∈ firstPaths added then
      (nodesOf added).map fun known =>
        if known.path = node.path then { known with imports := known.imports ++ node.imports }
        else known
      else nodesOf added ++ [node] := by
  rw [nodesOf, firstPaths_concat]
  split
  case isTrue hOld =>
    rw [nodesOf, List.map_map]
    refine List.map_congr_left fun path _ => ?_
    rw [Function.comp_apply, importsOf_concat]
    by_cases hPath : path = node.path
    · simp [hPath]
    · simp [hPath, Ne.symm hPath]
  case isFalse hNew =>
    rw [List.map_append, List.map_singleton, importsOf_concat, importsOf_eq_nil hNew]
    congr 1
    · refine List.map_congr_left fun path hPath => ?_
      have hne : node.path ≠ path := fun h => hNew (h ▸ hPath)
      rw [importsOf_concat, if_neg hne, List.append_nil]
    · simp

theorem map_path_nodesOf (added : List ModuleNode) :
    (nodesOf added).map (·.path) = firstPaths added := by
  rw [nodesOf, List.map_map]
  exact (List.map_congr_left fun _ _ => rfl).trans (List.map_id _)

/-! ## What a table records -/

/-- The map and the list of a table record what was added: the list has the different paths, and
the map has the module of each of them, with all its imports. -/
structure Records (table : ModuleTable) (added : List ModuleNode) : Prop where
  paths_eq : table.paths = firstPaths added
  getElem?_eq : ∀ path : FilePath, table.nodes[path]? =
    if path ∈ firstPaths added then some ⟨path, importsOf added path⟩ else none

section Records

variable {table other : ModuleTable} {added others : List ModuleNode}

theorem records_empty : Records .empty [] where
  paths_eq := rfl
  getElem?_eq _ := Std.ExtTreeMap.getElem?_empty

/-- What the map has for a path are all imports that were added for it. -/
theorem Records.imports_eq (h : Records table added) (path : FilePath) :
    (table.nodes[path]?.elim [] (·.imports)) = importsOf added path := by
  rw [h.getElem?_eq]
  split
  case isTrue => rfl
  case isFalse hNew => exact (importsOf_eq_nil hNew).symm

/-- One more addition is recorded in both parts. -/
theorem Records.addNormal (h : Records table added) (hInStep : table.InStep) (node : ModuleNode) :
    Records (table.addNormal node.path node.imports) (added ++ [node]) where
  paths_eq := by
    rw [ModuleTable.paths_addNormal, firstPaths_concat]
    simp only [hInStep.mem_nodes_iff, h.paths_eq]
  getElem?_eq path := by
    rw [hInStep.getElem?_addNormal, h.imports_eq, importsOf_concat, h.getElem?_eq]
    by_cases hPath : node.path = path
    · -- the path is known by now, whether or not it was before
      have hMem : path ∈ firstPaths (added ++ [node]) := mem_firstPaths_concat.mpr (.inl hPath)
      rw [if_pos hPath, if_pos hMem, if_pos hPath, hPath]
    · have hMem : path ∈ firstPaths (added ++ [node]) ↔ path ∈ firstPaths added :=
        mem_firstPaths_concat.trans (or_iff_right hPath)
      simp only [if_neg hPath, hMem, List.append_nil]

/-- Tables that record the same paths and the same imports for each of them are the same. -/
theorem Records.eq (h : Records table added) (hOther : Records other others)
    (hPaths : firstPaths added = firstPaths others)
    (hImports : ∀ path, importsOf added path = importsOf others path) : table = other := by
  obtain ⟨nodes, paths⟩ := table
  obtain ⟨otherNodes, otherPaths⟩ := other
  have hNodes : nodes = otherNodes := by
    refine Std.ExtTreeMap.ext_getElem? fun path => ?_
    have hHere := h.getElem?_eq path
    have hThere := hOther.getElem?_eq path
    rw [← hPaths, ← hImports] at hThere
    exact hHere.trans hThere.symm
  have hList : paths = otherPaths := h.paths_eq.trans (hPaths.trans hOther.paths_eq.symm)
  rw [hNodes, hList]

/-- The entries of the map are the modules of what was added, in some order. -/
theorem Records.toList_perm (h : Records table added) :
    table.nodes.toList.Perm ((nodesOf added).map fun node => (node.path, node)) := by
  have hKeys : table.nodes.toList.Nodup :=
    Std.ExtTreeMap.distinct_keys_toList.imp fun hNe hSame => hNe (by rw [hSame]; simp)
  have hPaths : ((nodesOf added).map fun node => (node.path, node)).Nodup := by
    refine List.Nodup.of_map Prod.fst ?_
    rw [List.map_map]
    exact map_path_nodesOf added ▸ nodup_eraseDups _
  refine (List.perm_ext_iff_of_nodup hKeys hPaths).mpr fun (path, node) => ?_
  rw [Std.ExtTreeMap.mem_toList_iff_getElem?_eq_some, h.getElem?_eq, nodesOf, List.map_map,
    List.mem_map]
  constructor
  · intro hNode
    split at hNode
    case isTrue hMem => exact ⟨path, hMem, congrArg (path, ·) (Option.some.inj hNode)⟩
    case isFalse => cases hNode
  · rintro ⟨known, hMem, hNode⟩
    obtain ⟨rfl, rfl⟩ := Prod.mk.inj hNode
    exact if_pos hMem

end Records

/-! ## Whole runs -/

theorem addedSinceClear_concat (steps : List ImportStep) (step : ImportStep) :
    addedSinceClear (steps ++ [step]) =
      if step.isClear then [] else addedSinceClear steps ++ step.added := by
  unfold addedSinceClear
  rw [afterLast_concat]
  cases step.isClear with
  | true => rfl
  | false => simp

/-- After a change, a table records what was there before and what was added, or nothing. -/
theorem Records.change {table : ModuleTable} {added : List ModuleNode} (h : Records table added)
    (hInStep : table.InStep) (step : ImportStep) :
    Records (table.change step) (if step.isClear then [] else added ++ step.added) := by
  cases step with
  | add path imports =>
    exact h.addNormal hInStep ⟨path.normalize, imports.map FilePath.normalize⟩
  | addFile file =>
    exact h.addNormal hInStep ⟨file.path.normalize, file.imports.map FilePath.normalize⟩
  | clear => exact records_empty

/-- Both parts of a table record what was added since it was last cleared. -/
theorem records_after (steps : List ImportStep) :
    Records (.after steps) (addedSinceClear steps) := by
  induction steps using List.reverseRecOn with
  | nil => exact records_empty
  | append_singleton steps step ih =>
    rw [ModuleTable.after_concat, addedSinceClear_concat]
    exact ih.change (ModuleTable.inStep_after steps) step

/-! ## Counts -/

/-- No import is lost or counted twice when it goes to a module that is known. -/
theorem tally_addImports {path : FilePath} (imports : List FilePath) {nodes : List ModuleNode}
    (hNodup : (nodes.map (·.path)).Nodup) (hKnown : path ∈ nodes.map (·.path)) :
    tally (·.imports.length) (nodes.map fun known =>
        if known.path = path then { known with imports := known.imports ++ imports } else known) =
      tally (·.imports.length) nodes + imports.length := by
  induction nodes with
  | nil => simp at hKnown
  | cons node nodes ih =>
    rw [List.map_cons, List.nodup_cons] at hNodup
    by_cases hPath : node.path = path
    · -- no other module of this path follows, so the others are left alone
      have hRest : nodes.map (fun known =>
          if known.path = path then { known with imports := known.imports ++ imports } else known) =
            nodes := by
        refine (List.map_congr_left fun known hMem => if_neg fun hSame => ?_).trans (List.map_id _)
        exact hNodup.1 (List.mem_map.mpr ⟨known, hMem, hSame.trans hPath.symm⟩)
      rw [List.map_cons, hRest, if_pos hPath, tally, tally, List.length_append]
      omega
    · have hKnown' : path ∈ nodes.map (·.path) :=
        (List.mem_cons.mp hKnown).resolve_left (Ne.symm hPath)
      have hRest := ih hNodup.2 hKnown'
      rw [List.map_cons, if_neg hPath, tally, tally, hRest]
      omega

theorem tally_nodesOf (added : List ModuleNode) :
    tally (·.imports.length) (nodesOf added) = tally (·.imports.length) added := by
  induction added using List.reverseRecOn with
  | nil => rfl
  | append_singleton added node ih =>
    rw [nodesOf_concat, tally_append, ← ih]
    split
    case isTrue hOld =>
      have hPaths := map_path_nodesOf added
      have hNodup : ((nodesOf added).map (·.path)).Nodup := hPaths ▸ nodup_eraseDups _
      exact tally_addImports node.imports hNodup (hPaths ▸ hOld)
    case isFalse => exact tally_append ..

theorem importCount_after (steps : List ImportStep) :
    (after steps).importCount = tally (·.imports.length) (addedSinceClear steps) := by
  have hPerm := (records_after steps).toList_perm
  rw [importCount, after_toModuleTable, tally_perm _ hPerm, tally_map, tally_nodesOf]

theorem moduleCount_after (steps : List ImportStep) :
    (after steps).moduleCount = ((addedSinceClear steps).map (·.path)).toFinset.card := by
  -- the paths are the different ones of the additions, each of them once
  have hNodup : (firstPaths (addedSinceClear steps)).Nodup := nodup_eraseDups _
  have hCard : ((addedSinceClear steps).map (·.path)).toFinset =
      (firstPaths (addedSinceClear steps)).toFinset := by
    ext path
    simp [mem_firstPaths]
  rw [moduleCount, after_toModuleTable, (records_after steps).paths_eq, hCard,
    List.toFinset_card_of_nodup hNodup]

/-! ## Main result -/

/-- After any changes the map and the list of a table are in step: the paths of the list are the
keys of the map, no path is listed twice, and each module is kept under its own path. The list has
the different paths that were added since the last clearing, in the order in which they came first,
and the map has all that was added for each of them. A graph has this table; it counts the different
paths and all imports. Two runs that agree in the order of the paths and in the imports of each lead
to the same dependencies, cycles and metrics. -/
theorem remembers_additions (steps : List ImportStep) :
    (ModuleTable.after steps).InStep ∧
      (ModuleTable.after steps).paths = firstPaths (addedSinceClear steps) ∧
      (∀ path : FilePath, (ModuleTable.after steps).nodes[path]? =
        if path ∈ firstPaths (addedSinceClear steps) then
          some ⟨path, importsOf (addedSinceClear steps) path⟩ else none) ∧
      (after steps).toModuleTable = .after steps ∧
      (after steps).moduleCount = ((addedSinceClear steps).map (·.path)).toFinset.card ∧
      (after steps).importCount = tally (·.imports.length) (addedSinceClear steps) ∧
      ∀ other : List ImportStep,
        firstPaths (addedSinceClear other) = firstPaths (addedSinceClear steps) →
        (∀ path, importsOf (addedSinceClear other) path = importsOf (addedSinceClear steps) path) →
        (∀ path, (after other).dependencies path = (after steps).dependencies path) ∧
          (after other).cycles = (after steps).cycles ∧
          (after other).cycleMetrics = (after steps).cycleMetrics := by
  have hRecords := records_after steps
  refine ⟨ModuleTable.inStep_after steps, hRecords.paths_eq, hRecords.getElem?_eq,
    after_toModuleTable steps, moduleCount_after steps, importCount_after steps, ?_⟩
  intro other hPaths hImports
  have hTables : ModuleTable.after other = ModuleTable.after steps :=
    (records_after other).eq hRecords hPaths hImports
  have hSame : after other = after steps := by
    refine eq_of_toModuleTable ?_
    rw [after_toModuleTable, after_toModuleTable, hTables]
  rw [hSame]
  exact ⟨fun _ => rfl, rfl, rfl⟩

/-- A module whose imports come in two parts, under two spellings of its path. -/
def inParts : List ImportStep :=
  [.add ⟨"old.ts"⟩ [⟨"a"⟩], .clear, .add ⟨"a.ts"⟩ [⟨"b"⟩], .add ⟨"b.ts"⟩ [⟨"a"⟩],
    .add ⟨"./lib/../a.ts"⟩ [⟨"./a"⟩]]

/-- The same modules with all their imports at once. -/
def atOnce : List ImportStep :=
  [.add ⟨"a.ts"⟩ [⟨"b"⟩, ⟨"a"⟩], .add ⟨"b.ts"⟩ [⟨"a"⟩]]

theorem remembers_additions_inParts :
    firstPaths (addedSinceClear atOnce) = firstPaths (addedSinceClear inParts) ∧
      (∀ path, importsOf (addedSinceClear atOnce) path =
        importsOf (addedSinceClear inParts) path) ∧
      (after atOnce).cycles = (after inParts).cycles := by
  have hAtOnce : addedSinceClear atOnce =
      [⟨⟨"a.ts"⟩, [⟨"b"⟩, ⟨"a"⟩]⟩, ⟨⟨"b.ts"⟩, [⟨"a"⟩]⟩] := by decide +kernel
  have hInParts : addedSinceClear inParts =
      [⟨⟨"a.ts"⟩, [⟨"b"⟩]⟩, ⟨⟨"b.ts"⟩, [⟨"a"⟩]⟩, ⟨⟨"a.ts"⟩, [⟨"a"⟩]⟩] := by decide +kernel
  have hImports : ∀ path, importsOf (addedSinceClear atOnce) path =
      importsOf (addedSinceClear inParts) path := by
    intro path
    rw [hAtOnce, hInParts]
    -- only two paths have imports at all
    by_cases ha : (⟨"a.ts"⟩ : FilePath) = path
    · subst ha
      decide
    · by_cases hb : (⟨"b.ts"⟩ : FilePath) = path
      · subst hb
        decide
      · simp [importsOf, ha, hb]
  have hPaths : firstPaths (addedSinceClear atOnce) = firstPaths (addedSinceClear inParts) := by
    rw [hAtOnce, hInParts]
    decide
  have hSame := (remembers_additions inParts).2.2.2.2.2.2 atOnce hPaths hImports
  exact ⟨hPaths, hImports, hSame.2.1⟩

end ImportGraph

end DebtGauge
