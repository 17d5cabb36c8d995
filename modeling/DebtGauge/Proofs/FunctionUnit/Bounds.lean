import DebtGauge.FileAnalysis
import DebtGauge.Proofs.FunctionUnit.Nesting
import DebtGauge.Proofs.SyntaxTree.Size
import DebtGauge.Proofs.Tally
import Mathlib.Algebra.Order.Ring.Nat

/-!
# How large measurements can get

What is measured of a function or counted in comments is bounded by the size of the tree, by the
length of the source and by its rows. So a machine that can hold a file can also count in it.

Main definitions and results:

* `ParsedFile.FitsMachine` — machine words count the nodes, the rows and the characters;
* `measurement_le` — no measurement of a function exceeds its tree and the rows of it;
* `measurement_lt`, `markerCount_lt` — no measurement of such a file is out of all proportion.
-/

namespace DebtGauge

theorem Text.occurrencesAfter_le (word : List Char) (skip : Nat) (cs : List Char) :
    occurrencesAfter word skip cs ≤ cs.length := by
  induction cs generalizing skip with
  | nil => cases skip <;> exact Nat.le_refl _
  | cons c cs ih =>
    cases skip with
    | succ skip => exact Nat.le_trans (ih skip) (Nat.le_succ _)
    | zero =>
      rw [occurrencesAfter, List.length_cons]
      split
      · exact Nat.succ_le_succ (ih _)
      · exact Nat.le_trans (ih 0) (Nat.le_succ _)

theorem Text.lineCount_le (cs : List Char) : lineCount cs ≤ cs.length := by
  have hBreaks : cs.count '\n' ≤ cs.length := List.count_le_length
  unfold lineCount
  split
  case isFalse => exact hBreaks
  case isTrue hLast =>
    -- the last character does not end a line, so the line breaks are not all there is
    cases hSome : cs.getLast? with
    | none => rw [hSome] at hLast; cases hLast
    | some last =>
      rw [hSome] at hLast
      have hOther : last ≠ '\n' := by simpa using hLast
      obtain ⟨start, rfl⟩ := List.getLast?_eq_some_iff.mp hSome
      have hStart : start.count '\n' ≤ start.length := List.count_le_length
      have hEnd : [last].count '\n' = 0 := List.count_eq_zero.mpr (by simpa using hOther.symm)
      rw [List.count_append, hEnd, List.length_append, List.length_singleton]
      omega

namespace SyntaxTree

theorem mem_children_of_field? {tree child : SyntaxTree} {name : String}
    (h : tree.field? name = some child) : child ∈ tree.children :=
  List.mem_of_find?_eq_some h

theorem size_field?_lt {tree child : SyntaxTree} {name : String}
    (h : tree.field? name = some child) : child.size < tree.size :=
  size_lt_of_mem_children (mem_children_of_field? h)

/-! ## Measurements of a function -/

theorem cyclomaticComplexity_le (source : Source) (body : SyntaxTree) :
    body.cyclomaticComplexity source ≤ body.size + 1 := by
  have hVisited := length_visited_le ownNodes body ()
  have hOwn : (body.ownDecisions source).length ≤ (visited ownNodes body ()).length := by
    unfold ownDecisions
    exact Nat.le_trans (List.length_filter_le _ _) (Nat.le_of_eq (List.length_map _))
  -- decisions stand at nodes that the walk reaches, and one is counted besides
  unfold cyclomaticComplexity
  omega

/-- Nesting constructs stand on the way to a node, and that is no longer than the tree is large. -/
theorem nestingDepth_le (body : SyntaxTree) : body.nestingDepth ≤ body.size := by
  refine foldl_max_le_iff.mpr ⟨Nat.zero_le _, fun depth hDepth => ?_⟩
  have hTop : body.at? [] = some body := rfl
  obtain ⟨index, child, below, hChild, hSome, -, rfl⟩ := (mem_depthsBelow hTop).mp hDepth
  obtain ⟨found, hFound⟩ := Option.isSome_iff_exists.mp hSome
  have hAt : body.at? (index :: below) = some found := by
    rw [at?, hChild]
    exact hFound
  have hSize := length_add_size_le hAt
  have hWay : (index :: below).inits.tail.length = (index :: below).length := by
    rw [List.length_tail, List.length_inits, Nat.add_sub_cancel]
  rw [nestingBetween_append]
  -- at the nodes on the way, and at no others, the nesting can grow
  calc _ ≤ (index :: below).inits.tail.length := List.countP_le_length
    _ = (index :: below).length := hWay
    _ ≤ body.size := by omega

theorem parameterCount_le (tree : SyntaxTree) : tree.parameterCount ≤ tree.size := by
  unfold parameterCount
  split
  case h_1 parameters hParameters =>
    -- the parameters are children of a child
    have hNamed : (parameters.namedChildren.filter (·.kind ≠ "comment")).length ≤
        parameters.children.length :=
      Nat.le_trans (List.length_filter_le _ _) (List.length_filter_le _ _)
    have hChildren := length_children_lt parameters
    have hSize := size_field?_lt hParameters
    omega
  case h_2 =>
    have hSize := size_eq tree
    split <;> omega

theorem anyTypes_le (source : Source) (tree : SyntaxTree) : tree.anyTypes source ≤ tree.size := by
  have hNodes : tree.nodes.length ≤ tree.size := by
    unfold nodes
    rw [List.length_map]
    exact length_visited_le everywhere tree ()
  exact Nat.le_trans (List.length_filter_le _ _) hNodes

theorem sizeAll_eq_tally (trees : List SyntaxTree) : sizeAll trees = tally size trees := by
  induction trees with
  | nil => rw [sizeAll, tally]
  | cons tree rest ih => rw [sizeAll_cons, tally, ih]

/-- Two children that different fields name have room side by side. -/
theorem size_add_size_field?_lt {tree first second : SyntaxTree} {name other : String}
    (hNames : name ≠ other) (hFirst : tree.field? name = some first)
    (hSecond : tree.field? other = some second) : first.size + second.size < tree.size := by
  let isSecond : SyntaxTree → Bool := (·.info.field = some other)
  have hSecondField : isSecond second = true := List.find?_some hSecond
  have hFirstField : isSecond first = false := by
    have hField := List.find?_some hFirst
    rw [decide_eq_true_eq] at hField
    exact decide_eq_false fun hEq => hNames (Option.some.inj (hField.symm.trans hEq))
  -- the first child is one of those that the filter leaves out
  have hRest := tally_filter_add_le size (q := fun _ => true) (fun _ _ => rfl) hFirstField rfl
    (mem_children_of_field? hFirst)
  have hKept := count_le_tally size
    (List.mem_filter.mpr ⟨mem_children_of_field? hSecond, hSecondField⟩)
  rw [List.filter_true, ← sizeAll_eq_tally tree.children] at hRest
  have hTree := size_eq tree
  omega

/-- The types of the parameters are parts of the parameters. -/
theorem tally_parameterTypes_le (source : Source) (parameters : SyntaxTree) :
    tally (·.anyTypes source) (parameters.namedChildren.filterMap (·.field? "type")) ≤
      parameters.size := by
  have hEach : ∀ parameter ∈ parameters.namedChildren,
      (parameter.field? "type").elim 0 (·.anyTypes source) ≤ parameter.size := by
    intro parameter _
    cases hType : parameter.field? "type" with
    | none => exact Nat.zero_le _
    | some annotation =>
      exact Nat.le_trans (anyTypes_le source annotation) (Nat.le_of_lt (size_field?_lt hType))
  have hNamed := tally_le_of_sublist size
    (List.filter_sublist : parameters.namedChildren.Sublist parameters.children)
  have hSize := size_eq parameters
  rw [tally_filterMap]
  calc _ ≤ tally size parameters.namedChildren := tally_le_tally hEach
    _ ≤ tally size parameters.children := hNamed
    _ = sizeAll parameters.children := (sizeAll_eq_tally _).symm
    _ ≤ parameters.size := by omega

/-- The parameters and the result stand in different parts of the tree. -/
theorem anyCount_le (source : Source) (tree : SyntaxTree) : tree.anyCount source ≤ tree.size := by
  unfold anyCount signatureTypes
  rw [tally_append]
  cases hParameters : tree.field? "parameters" with
  | none =>
    cases hResult : tree.field? "return_type" with
    | none => exact Nat.zero_le _
    | some result =>
      have hTypes := result.anyTypes_le source
      have hSize := size_field?_lt hResult
      simp only [Option.toList_none, Option.toList_some, List.flatMap_nil, tally]
      omega
  | some parameters =>
    have hFirst := tally_parameterTypes_le source parameters
    rw [Option.toList_some, List.flatMap_singleton]
    cases hResult : tree.field? "return_type" with
    | none =>
      have hSize := size_field?_lt hParameters
      simp only [Option.toList_none, tally]
      omega
    | some result =>
      have hTypes := result.anyTypes_le source
      have hSizes := size_add_size_field?_lt (by decide) hParameters hResult
      simp only [Option.toList_some, tally]
      omega

/-! ## Markers -/

theorem length_text_le (source : Source) (tree : SyntaxTree) :
    (tree.text source).length ≤ source.chars.size := by
  unfold text Source.slice
  rw [Array.length_toList, Array.size_extract]
  omega

theorem markerCount_le (source : Source) (marker : String) (tree : SyntaxTree) :
    tree.markerCount source marker ≤ tree.size * source.chars.size := by
  have hComments : tree.comments.length ≤ tree.size := by
    unfold comments
    refine Nat.le_trans (List.length_filter_le _ _) ?_
    rw [List.length_map]
    exact length_visited_le outsideComments tree ()
  have hEach : ∀ comment ∈ tree.comments,
      Text.occurrences marker (Text.asciiUpper (comment.text source)) ≤ source.chars.size := by
    intro comment _
    refine Nat.le_trans (Text.occurrencesAfter_le _ 0 _) ?_
    rw [Text.asciiUpper, List.length_map]
    exact comment.length_text_le source
  have hTally := tally_le_mul hEach
  exact Nat.le_trans hTally (Nat.mul_le_mul_right _ hComments)

end SyntaxTree

/-! ## Files that fit a machine -/

theorem mul_lt_two_pow_128 {m n : Nat} (hm : m < 2 ^ 64) (hn : n < 2 ^ 64) : m * n < 2 ^ 128 :=
  calc m * n < 2 ^ 64 * 2 ^ 64 := Nat.mul_lt_mul'' hm hn
    _ = 2 ^ 128 := (Nat.pow_add 2 64 64).symm

/-- Machine words count the nodes of a tree and its rows. -/
structure SyntaxTree.FitsMachine (tree : SyntaxTree) : Prop where
  size_lt : tree.size < 2 ^ 64
  row_lt : ∀ node ∈ tree.nodes, node.info.stop.row < 2 ^ 64

/-- Machine words count the nodes of a file, its rows and its characters. -/
structure ParsedFile.FitsMachine (file : ParsedFile) : Prop where
  tree_fits : file.tree.FitsMachine
  characters_lt : file.source.chars.size < 2 ^ 64

namespace ParsedFile

variable {file : ParsedFile}

theorem FitsMachine.lineCount_lt (h : file.FitsMachine) : file.source.lineCount < 2 ^ 64 := by
  refine Nat.lt_of_le_of_lt (Text.lineCount_le _) ?_
  rw [Array.length_toList]
  exact h.characters_lt

theorem FitsMachine.markerCount_lt (h : file.FitsMachine) (marker : String) :
    file.markerCount marker < 2 ^ 128 := by
  refine Nat.lt_of_le_of_lt (file.tree.markerCount_le file.source marker) ?_
  exact mul_lt_two_pow_128 h.tree_fits.size_lt h.characters_lt

/-- A function of a file is measured at a node of its tree. -/
theorem exists_of_mem_functionUnits {unit : FunctionUnit} (h : unit ∈ file.functionUnits) :
    ∃ kind parent node, node ∈ file.tree.nodes ∧
      unit = FunctionUnit.measure file.source kind parent node := by
  unfold functionUnits SyntaxTree.functionUnits at h
  obtain ⟨⟨node, parent⟩, hFunction, hUnit⟩ := List.mem_filterMap.mp h
  obtain ⟨kind, -, rfl⟩ := Option.map_eq_some_iff.mp hUnit
  have hVisited := List.mem_of_mem_filter hFunction
  exact ⟨kind, parent, node,
    SyntaxTree.mem_nodes.mpr (SyntaxTree.exists_place_of_mem_visited hVisited), rfl⟩

/-- No measurement of a function is larger than its tree and the rows of it. -/
theorem measurement_le {bound : Nat} (hSize : file.tree.size ≤ bound)
    (hRows : ∀ node ∈ file.tree.nodes, node.info.stop.row < bound) {unit : FunctionUnit}
    (hUnit : unit ∈ file.functionUnits) {kind : MetricKind} {value : Nat}
    (hMeasured : (kind, value) ∈ unit.measurements) : value ≤ bound := by
  obtain ⟨functionKind, parent, node, hNode, rfl⟩ := exists_of_mem_functionUnits hUnit
  have hPart : node.size ≤ bound := Nat.le_trans (SyntaxTree.size_le_of_mem_nodes hNode) hSize
  have hBody : ∀ body, node.body? = some body → body.size < node.size :=
    fun body hBody => SyntaxTree.size_field?_lt hBody
  have hNonzero := SyntaxTree.size_eq node
  set unit := FunctionUnit.measure file.source functionKind parent node with hUnitEq
  have hLength : unit.length ≤ bound := by
    have hRow := hRows node hNode
    show node.info.stop.row - node.info.start.row + 1 ≤ bound
    omega
  have hParameters : unit.parameters ≤ bound := Nat.le_trans node.parameterCount_le hPart
  have hCyclomatic : unit.cyclomatic ≤ bound := by
    show (node.body?.map (·.cyclomaticComplexity file.source)).getD 1 ≤ bound
    cases hSome : node.body? with
    | none =>
      rw [Option.map_none, Option.getD_none]
      omega
    | some body =>
      have hCount := body.cyclomaticComplexity_le file.source
      have hSmaller := hBody body hSome
      rw [Option.map_some, Option.getD_some]
      omega
  have hNesting : unit.nesting ≤ bound := by
    show (node.body?.map (·.nestingDepth)).getD 0 ≤ bound
    cases hSome : node.body? with
    | none => exact Nat.zero_le _
    | some body =>
      have hCount := body.nestingDepth_le
      have hSmaller := hBody body hSome
      rw [Option.map_some, Option.getD_some]
      omega
  have hAny : unit.anyUses ≤ bound := Nat.le_trans (node.anyCount_le file.source) hPart
  -- each measurement is one of the five
  have hFive : value = unit.length ∨ value = unit.parameters ∨ value = unit.cyclomatic ∨
      value = unit.nesting ∨ value = unit.anyUses := by
    unfold FunctionUnit.measurements at hMeasured
    dsimp only at hMeasured
    split_ifs at hMeasured <;> simp at hMeasured <;> tauto
  rcases hFive with rfl | rfl | rfl | rfl | rfl <;> assumption

/-- No measurement of a function is out of all proportion to its file. -/
theorem FitsMachine.measurement_lt (h : file.FitsMachine) {unit : FunctionUnit}
    (hUnit : unit ∈ file.functionUnits) {kind : MetricKind} {value : Nat}
    (hMeasured : (kind, value) ∈ unit.measurements) : value < 2 ^ 128 := by
  have hValue := measurement_le h.tree_fits.size_lt.le h.tree_fits.row_lt hUnit hMeasured
  exact Nat.lt_of_le_of_lt hValue (Nat.pow_lt_pow_right (by decide) (by decide))

end ParsedFile

end DebtGauge
