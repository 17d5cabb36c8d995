import DebtGauge.Proofs.FunctionUnit.Ownership
import DebtGauge.Proofs.Run.FileStage
import Mathlib.Data.List.Forall2

/-!
# The functions that are measured and the blocks that are compared

The functions of a file are found twice: once to be measured and once to be compared with
others. Both walks come through the same places, those where a node of a function's kind
stands, in the order of the source. A function is measured at each of these places, and a
block is made at those where its text is long enough.

Main definitions:

* `SyntaxTree.functionPlaces` — the places where a function starts;
* `ParsedFile.MeasuredAt`, `ParsedFile.BlockOf` — what stands for the function at a place.

Main results:

* `SyntaxTree.mem_functionPlaces` — where functions start, by the kinds of the nodes;
* `ParsedFile.forall₂_functionUnits` — one measurement for each place;
* `ParsedFile.functionUnits_and_codeBlocks` — the blocks are those of the measured functions
  that are long enough.
-/

namespace DebtGauge

/-- The values of a partial function that is defined on all items of a list. -/
theorem forall₂_filterMap {α β : Type} {f : α → Option β} {R : α → β → Prop} {xs : List α}
    (h : ∀ x ∈ xs, ∃ y, f x = some y ∧ R x y) : List.Forall₂ R xs (xs.filterMap f) := by
  induction xs with
  | nil => exact .nil
  | cons x xs ih =>
    obtain ⟨⟨y, hy, hR⟩, h⟩ := List.forall_mem_cons.mp h
    rw [List.filterMap_cons_some hy]
    exact .cons hR (ih h)

/-- If one partial function is defined on all items of a list and another one on those that
pass a test, then each value of the other one has a value of the first beside it. -/
theorem forall₂_zip_filterMap {α β γ : Type} {f : α → Option β} {g : α → Option γ}
    {p : α → Bool} {R : α × β → γ → Prop} {xs : List α}
    (h : ∀ x ∈ xs, ∃ y, f x = some y ∧
      ((p x = true ∧ ∃ z, g x = some z ∧ R (x, y) z) ∨ (p x = false ∧ g x = none))) :
    List.Forall₂ R ((xs.zip (xs.filterMap f)).filter fun entry => p entry.1) (xs.filterMap g) := by
  induction xs with
  | nil => exact .nil
  | cons x xs ih =>
    obtain ⟨⟨y, hy, hCases⟩, h⟩ := List.forall_mem_cons.mp h
    rw [List.filterMap_cons_some hy, List.zip_cons_cons, List.filter_cons]
    obtain ⟨hp, z, hz, hR⟩ | ⟨hp, hz⟩ := hCases
    · rw [if_pos hp, List.filterMap_cons_some hz]
      exact .cons hR (ih h)
    · rw [if_neg (Bool.eq_false_iff.mp hp), List.filterMap_cons_none hz]
      exact ih h

namespace SyntaxTree

/-! ## Where functions start -/

/-- The parent of the node at a place. -/
def parentAt? (tree : SyntaxTree) (place : Place) : Option SyntaxTree :=
  if place = [] then none else tree.at? place.dropLast

/-- The places where a function starts, in source order. -/
def functionPlaces (tree : SyntaxTree) : List Place :=
  tree.places.filter fun place => tree.FunctionAt place

/-- Functions start where named nodes of their kinds stand. -/
theorem mem_functionPlaces {tree : SyntaxTree} {place : Place} :
    place ∈ tree.functionPlaces ↔
      ∃ found, tree.at? place = some found ∧ found.info.isNamed = true ∧
        found.kind ∈ functionKinds := by
  simp only [functionPlaces, List.mem_filter, decide_eq_true_eq, FunctionAt, isFunction_iff]
  constructor
  · rintro ⟨-, hFound⟩
    exact hFound
  · rintro ⟨found, hFound, hFunction⟩
    exact ⟨mem_places_of_at? hFound, found, hFound, hFunction⟩

example : arrowChain.functionPlaces = [[0, 0], [0, 0, 2]] := by decide

theorem pairwise_lt_functionPlaces (tree : SyntaxTree) :
    tree.functionPlaces.Pairwise (· < ·) :=
  (pairwise_lt_places tree).filter _

/-- Every node but the root is handed its parent. -/
theorem reach?_withParent (tree : SyntaxTree) (handed : Option SyntaxTree) (place : Place) :
    tree.reach? withParent handed place =
      (tree.at? place).map fun found =>
        (found, if place = [] then handed else tree.at? place.dropLast) := by
  induction place generalizing tree handed with
  | nil => rfl
  | cons index place ih =>
    -- a child of the root is handed the root, and what is deeper has its parent in the child
    rw [reach?, at?, withParent, Option.bind_some, if_neg (List.cons_ne_nil _ _)]
    cases hChild : tree.children[index]? with
    | none => rfl
    | some child =>
      rw [Option.bind_some, Option.bind_some, ih]
      congr 1
      funext found
      cases place with
      | nil => rfl
      | cons next place =>
        rw [if_neg (List.cons_ne_nil _ _), List.dropLast_cons_cons, at?, hChild, Option.bind_some]

theorem reach?_of_at? {tree found : SyntaxTree} {place : Place}
    (hFound : tree.at? place = some found) :
    tree.reach? withParent none place = some (found, tree.parentAt? place) := by
  rw [reach?_withParent, hFound, Option.map_some, parentAt?]

/-- A list of all places can be made of those where a function starts, if there is nothing to
be found at the others. -/
theorem filterMap_functionPlaces {α : Type} {tree : SyntaxTree} {f : Place → Option α}
    (h : ∀ place, (f place).isSome → tree.FunctionAt place) :
    tree.functionPlaces.filterMap f = tree.places.filterMap f := by
  rw [functionPlaces, List.filterMap_filter]
  refine List.filterMap_congr fun place _ => ?_
  by_cases hFunction : tree.FunctionAt place
  · rw [if_pos (decide_eq_true hFunction)]
  · rw [if_neg (by simpa using hFunction)]
    exact (Option.not_isSome_iff_eq_none.mp fun hSome => hFunction (h place hSome)).symm

theorem functions_eq_filterMap (tree : SyntaxTree) :
    tree.functions = tree.functionPlaces.filterMap fun place =>
      (tree.reach? withParent none place).filter (·.1.isFunction) := by
  rw [filterMap_functionPlaces, functions, visited_eq_filterMap, List.filter_filterMap]
  intro place hSome
  obtain ⟨⟨found, parent⟩, hFilter⟩ := Option.isSome_iff_exists.mp hSome
  obtain ⟨hReach, hFunction⟩ := Option.filter_eq_some_iff.mp hFilter
  exact ⟨found, at?_of_reach? hReach, hFunction⟩

end SyntaxTree

namespace ParsedFile

/-! ## One function of a file -/

/-- The measurement of the function at a place: that of the node that stands there, named by
itself or by the node above it. -/
def MeasuredAt (file : ParsedFile) (place : Place) (unit : FunctionUnit) : Prop :=
  ∃ found kind, file.tree.at? place = some found ∧
    FunctionKind.ofNodeKind? found.kind = some kind ∧
    unit = .measure file.source kind (file.tree.parentAt? place) found

/-- Whether the text of the function at a place is long enough to be compared. -/
def isLongAt (file : ParsedFile) (place : Place) : Bool :=
  (file.tree.at? place).any fun found =>
    CodeBlock.leastLength ≤ (found.normalizedText file.source).length

/-- The block of a measured function: the text at its place, under its name and with its lines;
and the metrics of the function are of the file that the block is of. -/
structure BlockOf (file : ParsedFile) (entry : Place × FunctionUnit) (block : CodeBlock) :
    Prop where
  tokens : (file.tree.at? entry.1).map (·.normalizedText file.source) = some block.tokens
  name : block.name = entry.2.name
  startLine : block.startLine = entry.2.location.startLine
  endLine : block.endLine = entry.2.location.endLine
  path : block.path = file.path
  metricPath : ∀ metrics, entry.2.metrics file.path = .ok metrics →
    ∀ metric ∈ metrics, metric.path = block.path

/-- The block of the function at a place, if it is long enough. -/
def blockAt? (file : ParsedFile) (place : Place) : Option CodeBlock :=
  (((file.tree.reach? SyntaxTree.withParent none place).filter (·.1.isFunction)).map fun entry =>
    file.codeBlock entry.2 entry.1).filter (·.isComparable)

/-- The blocks of a file are those of the places where functions start, in source order. -/
theorem codeBlocks_eq_filterMap (file : ParsedFile) :
    file.codeBlocks = file.tree.functionPlaces.filterMap file.blockAt? := by
  unfold codeBlocks
  rw [SyntaxTree.functions_eq_filterMap, List.map_filterMap, List.filter_filterMap]
  rfl

theorem functionUnits_eq_filterMap_functionPlaces (file : ParsedFile) :
    file.functionUnits =
      file.tree.functionPlaces.filterMap (file.tree.unitAt? file.source) := by
  rw [SyntaxTree.filterMap_functionPlaces, functionUnits, SyntaxTree.functionUnits_eq_filterMap]
  exact fun place hSome => (SyntaxTree.unitAt?_isSome_iff file.source).mp hSome

section Place

variable {file : ParsedFile} {place : Place}

/-- At each place where a function starts there is a measurement of it. -/
theorem exists_unitAt? (h : place ∈ file.tree.functionPlaces) :
    ∃ unit, file.tree.unitAt? file.source place = some unit ∧ file.MeasuredAt place unit := by
  obtain ⟨found, hFound, hNamed, hKind⟩ := SyntaxTree.mem_functionPlaces.mp h
  have hFunction := SyntaxTree.isFunction_iff.mpr ⟨hNamed, hKind⟩
  obtain ⟨kind, hKind⟩ :=
    Option.isSome_iff_exists.mp ((SyntaxTree.ofNodeKind?_isSome_iff found.kind).mpr hKind)
  refine ⟨_, ?_, found, kind, hFound, hKind, rfl⟩
  rw [SyntaxTree.unitAt?, SyntaxTree.reach?_of_at? hFound, Option.filter_some, if_pos hFunction,
    Option.bind_some]
  dsimp only
  rw [hKind, Option.map_some]

theorem blockAt?_of_isFunction {found : SyntaxTree} (hFound : file.tree.at? place = some found)
    (hFunction : found.isFunction = true) :
    file.blockAt? place =
      if file.isLongAt place then some (file.codeBlock (file.tree.parentAt? place) found)
      else none := by
  rw [blockAt?, SyntaxTree.reach?_of_at? hFound, Option.filter_some, if_pos hFunction,
    Option.map_some, Option.filter_some, isLongAt, hFound, Option.any_some]
  rfl

/-- At each place where a function starts there is a block of it if it is long enough, and
otherwise none. -/
theorem blockAt?_cases {unit : FunctionUnit} (h : place ∈ file.tree.functionPlaces)
    (hUnit : file.MeasuredAt place unit) :
    (file.isLongAt place = true ∧
      ∃ block, file.blockAt? place = some block ∧ file.BlockOf (place, unit) block) ∨
    (file.isLongAt place = false ∧ file.blockAt? place = none) := by
  -- the measurement and the block are of the same node
  obtain ⟨found, kind, hFound, -, rfl⟩ := hUnit
  obtain ⟨_, hFound', hFunction⟩ := SyntaxTree.mem_functionPlaces.mp h
  obtain rfl := Option.some.inj (hFound.symm.trans hFound')
  have hBlock := blockAt?_of_isFunction hFound (SyntaxTree.isFunction_iff.mpr hFunction)
  cases hLong : file.isLongAt place with
  | false =>
    rw [hLong, if_neg Bool.false_ne_true] at hBlock
    exact Or.inr ⟨rfl, hBlock⟩
  | true =>
    rw [hLong, if_pos rfl] at hBlock
    refine Or.inl ⟨rfl, _, hBlock, ?_⟩
    exact
      { tokens := by rw [hFound]; rfl
        name := rfl
        startLine := rfl
        endLine := rfl
        path := rfl
        metricPath := fun _ hMetrics metric hMetric =>
          (metrics_of_functionUnit hMetrics metric hMetric).1 }

end Place

/-! ## All functions of a file -/

/-- One measurement for each place where a function starts, in their order. -/
theorem forall₂_functionUnits (file : ParsedFile) :
    List.Forall₂ file.MeasuredAt file.tree.functionPlaces file.functionUnits := by
  rw [functionUnits_eq_filterMap_functionPlaces]
  exact forall₂_filterMap fun _ hPlace => exists_unitAt? hPlace

/-- The functions of a file that are measured and those that are compared are the same: one
measurement for each named node of a function's kind, parents before their children and
siblings from left to right; and of those whose text is long enough one block each, in the same
order, with the same name, the same lines and the same path. -/
theorem functionUnits_and_codeBlocks (file : ParsedFile) :
    file.tree.functionPlaces.Pairwise (· < ·) ∧
    (∀ place, place ∈ file.tree.functionPlaces ↔
      ∃ found, file.tree.at? place = some found ∧ found.info.isNamed = true ∧
        found.kind ∈ functionKinds) ∧
    List.Forall₂ file.MeasuredAt file.tree.functionPlaces file.functionUnits ∧
    List.Forall₂ file.BlockOf
      ((file.tree.functionPlaces.zip file.functionUnits).filter fun entry => file.isLongAt entry.1)
      file.codeBlocks := by
  refine ⟨SyntaxTree.pairwise_lt_functionPlaces _, fun _ => SyntaxTree.mem_functionPlaces,
    file.forall₂_functionUnits, ?_⟩
  rw [functionUnits_eq_filterMap_functionPlaces, codeBlocks_eq_filterMap]
  refine forall₂_zip_filterMap fun place hPlace => ?_
  obtain ⟨unit, hUnit, hMeasured⟩ := exists_unitAt? hPlace
  exact ⟨unit, hUnit, blockAt?_cases hPlace hMeasured⟩

end ParsedFile

end DebtGauge
