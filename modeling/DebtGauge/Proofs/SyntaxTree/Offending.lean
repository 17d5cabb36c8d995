import DebtGauge.Proofs.SyntaxTree.Span
import DebtGauge.SyntaxTree.Parsing

/-!
# Where a parse failure points

A parser marks the nodes with an error in or below them, and the search for the node that a
failure points at only goes into marked nodes. If the marks are complete, a node that is left out
has nothing offending in or below it. So the search finds the first offending node of the whole
tree, and it does not matter whether it stops there or goes on with what is left on its agenda.

Main definitions:

* `IsFullyMarked` — the parser has marked all errors and what is above them;
* `IsFirstOffending` — the first place of an error or a missing token, in source order;
* `keepFirst` — the search as a visitor that keeps what it has found.

Main results:

* `firstOffending?_eq` — the search, child by child;
* `walk_keepFirst` — a search that goes on with its agenda finds the same node;
* `firstOffending?_eq_some_iff` — with complete marks, the search finds the first node there is;
* `parse_failure_located` — when a text is refused, and where the failure points.
-/

namespace DebtGauge

namespace SyntaxTree

/-- The marks of a parser are complete: each error carries one, and so does each node with an
error or a missing token below it. -/
structure IsFullyMarked (tree : SyntaxTree) : Prop where
  errors : ∀ node ∈ tree.nodes, node.info.isError = true → node.info.hasError = true
  above : ∀ node ∈ tree.nodes, ∀ child ∈ node.children, ∀ below ∈ child.nodes,
    below.isOffending = true → node.info.hasError = true

/-- An error or a missing token stands at the place, and none at any place before it. -/
structure IsFirstOffending (tree : SyntaxTree) (place : Place) (node : SyntaxTree) : Prop where
  stands : tree.at? place = some node
  offends : node.isOffending = true
  first : ∀ earlier other, earlier < place → tree.at? earlier = some other →
    other.isOffending = false

/-- The visitor that keeps the first offending node it comes to. From there on it still sees what
is left on the agenda, but goes into nothing. -/
def keepFirst : Visitor (Option SyntaxTree) Unit := fun found node _ =>
  if found.isSome || !node.isMarked then (found, none)
  else if node.isOffending then (some node, none)
  else (found, some ())

/-! ## The search, child by child -/

/-- Below a marked node that is not offending itself, the children are searched from left to
right; below any other node nothing is. -/
theorem firstOffending?_eq (tree : SyntaxTree) :
    tree.firstOffending? =
      if !tree.isMarked then none
      else if tree.isOffending then some tree
      else tree.children.findSome? firstOffending? := by
  unfold firstOffending?
  rw [visited_eq_cons, List.map_cons, List.find?_cons]
  cases hMarked : tree.isMarked with
  | false => simp [markedNodes, hMarked]
  | true =>
    cases hOffending : tree.isOffending with
    | true => simp
    | false =>
      have hGuide : markedNodes tree () = some () := by simp [markedNodes, hMarked, hOffending]
      rw [hGuide, Option.elim_some, List.map_flatMap, List.find?_flatMap]
      simp

mutual

/-- A visitor that keeps what it has found adds to it what the search finds. -/
theorem descend_keepFirst (found : Option SyntaxTree) :
    (tree : SyntaxTree) → descend keepFirst found () tree = found.or tree.firstOffending?
  | node info children => by
    rw [descend, firstOffending?_eq]
    cases found with
    | some first => rfl
    | none =>
      unfold keepFirst
      cases hMarked : (node info children).isMarked with
      | false => simp
      | true =>
        cases hOffending : (node info children).isOffending with
        | true => simp
        | false =>
          simp only [Option.isSome_none, Bool.not_true, Bool.or_self, Bool.false_eq_true, if_false]
          exact descendAll_keepFirst none children

theorem descendAll_keepFirst (found : Option SyntaxTree) :
    (trees : List SyntaxTree) →
      descendAll keepFirst found () trees = found.or (trees.findSome? firstOffending?)
  | [] => by simp [descendAll]
  | tree :: rest => by
    rw [descendAll, descend_keepFirst found tree, descendAll_keepFirst _ rest, Option.or_assoc,
      List.findSome?_cons]
    cases tree.firstOffending? <;> rfl

end

/-- Whether the walk stops at its find or goes on with its agenda makes no difference. -/
theorem walk_keepFirst (tree : SyntaxTree) : walk keepFirst none tree () = tree.firstOffending? := by
  rw [walk_eq_descend, descend_keepFirst, Option.none_or]

/-! ## Complete marks -/

theorem IsFullyMarked.child {tree child : SyntaxTree} (h : tree.IsFullyMarked)
    (hChild : child ∈ tree.children) : child.IsFullyMarked where
  errors node hNode := h.errors node (mem_nodes_of_mem_children hChild hNode)
  above node hNode := h.above node (mem_nodes_of_mem_children hChild hNode)

/-- The nodes that are left out have nothing offending in or below them. -/
theorem firstOffending?_eq_find? {tree : SyntaxTree} (h : tree.IsFullyMarked) :
    tree.firstOffending? = tree.nodes.find? isOffending := by
  induction tree using induction_children with
  | step tree ih =>
    have hBelow : tree.children.findSome? firstOffending? =
        (tree.children.flatMap nodes).find? isOffending := by
      rw [List.find?_flatMap, ← List.head?_filterMap, ← List.head?_filterMap,
        List.filterMap_congr fun child hChild => ih child hChild (h.child hChild)]
    rw [firstOffending?_eq, nodes_eq_cons, List.find?_cons, hBelow]
    cases hOffending : tree.isOffending with
    | true =>
      -- an offending node is marked: a missing token as such, an error by the parser
      have hMarked : tree.isMarked = true := by
        rw [isOffending, Bool.or_eq_true] at hOffending
        rw [isMarked, Bool.or_eq_true]
        exact hOffending.imp_left (h.errors tree (self_mem_nodes tree))
      simp [hMarked]
    | false =>
      cases hMarked : tree.isMarked with
      | true => simp
      | false =>
        rw [isMarked, Bool.or_eq_false_iff] at hMarked
        -- something offending below would have marked the node
        have hNone : (tree.children.flatMap nodes).find? isOffending = none := by
          rw [List.find?_eq_none]
          intro below hMem hBelow
          obtain ⟨child, hChild, hMem⟩ := List.mem_flatMap.mp hMem
          have hError := h.above tree (self_mem_nodes tree) child hChild below hMem hBelow
          rw [hMarked.1] at hError
          cases hError
        simp [hNone]

/-! ## The first place -/

theorem nodes_eq_filterMap (tree : SyntaxTree) : tree.nodes = tree.places.filterMap tree.at? := by
  rw [nodes, visited_eq_filterMap, List.map_filterMap]
  refine List.filterMap_congr fun place _ => ?_
  exact map_fst_reach? everywhere (fun _ _ => rfl) tree () place

/-- The places are listed in source order, so the first node of the list that is offending stands
at the first place of this kind. -/
theorem find?_nodes_eq_some_iff {tree node : SyntaxTree} :
    tree.nodes.find? isOffending = some node ↔ ∃ place, tree.IsFirstOffending place node := by
  rw [nodes_eq_filterMap, List.find?_filterMap, Option.bind_eq_some_iff]
  refine exists_congr fun place => ?_
  rw [List.find?_eq_some_iff_append]
  constructor
  · rintro ⟨⟨hOffends, before, after, hSplit, hBefore⟩, hStands⟩
    refine ⟨hStands, by simpa [hStands] using hOffends, ?_⟩
    intro earlier other hLt hOther
    have hSorted := tree.pairwise_lt_places
    have hMem := mem_places_of_at? hOther
    rw [hSplit] at hSorted hMem
    rcases List.mem_append.mp hMem with hMem | hMem
    · simpa [hOther] using hBefore earlier hMem
    · -- what stands from the place on is not before it
      rcases List.mem_cons.mp hMem with rfl | hMem
      · exact absurd hLt (List.lt_irrefl _)
      · have hGt := (List.pairwise_cons.mp (List.pairwise_append.mp hSorted).2.1).1 earlier hMem
        exact absurd hLt (List.lt_asymm hGt)
  · rintro ⟨hStands, hOffends, hFirst⟩
    obtain ⟨before, after, hSplit⟩ := List.append_of_mem (mem_places_of_at? hStands)
    refine ⟨⟨by simp [hStands, hOffends], before, after, hSplit, ?_⟩, hStands⟩
    intro earlier hEarlier
    have hSorted := tree.pairwise_lt_places
    rw [hSplit] at hSorted
    have hLt := (List.pairwise_append.mp hSorted).2.2 earlier hEarlier place List.mem_cons_self
    cases hOther : tree.at? earlier with
    | none => simp
    | some other => simp [hFirst earlier other hLt hOther]

/-- With complete marks, the search finds the first offending node of the whole tree. -/
theorem firstOffending?_eq_some_iff {tree node : SyntaxTree} (h : tree.IsFullyMarked) :
    tree.firstOffending? = some node ↔ ∃ place, tree.IsFirstOffending place node := by
  rw [firstOffending?_eq_find? h, find?_nodes_eq_some_iff]

/-- With complete marks, the search only finds nothing where nothing is offending. -/
theorem firstOffending?_eq_none_iff {tree : SyntaxTree} (h : tree.IsFullyMarked) :
    tree.firstOffending? = none ↔
      ∀ place node, tree.at? place = some node → node.isOffending = false := by
  rw [firstOffending?_eq_find? h, List.find?_eq_none]
  constructor
  · intro hNone place node hStands
    simpa using hNone node (mem_nodes.mpr ⟨place, hStands⟩)
  · intro hNone node hNode
    obtain ⟨place, hStands⟩ := mem_nodes.mp hNode
    simp [hNone place node hStands]

end SyntaxTree

/-! ## Failures -/

/-- A failure to parse a file points at a line and a column of it, and its text names both and the
problem. -/
structure Failure.PointsAt (failure : Failure) (path : FilePath) (line column : Nat)
    (problem : String) : Prop where
  cause : ∃ cause, failure = .parse path line column cause
  text : failure.message = s!"Parse error in {path.text}:{line}:{column}: " ++ problem

open SyntaxTree

theorem ParsedFile.parseAs_eq {parser : Parser} {language : Language} {text : String}
    {tree : SyntaxTree} (hTree : parser language text = some tree) (path : FilePath) :
    parseAs parser language path text =
      if tree.info.hasError then .error (tree.failure path)
      else .ok { path, source := .ofString text, language, tree } := by
  rw [parseAs, hTree]

theorem pointsAt_of_firstOffending? {tree node : SyntaxTree}
    (h : tree.firstOffending? = some node) (path : FilePath) :
    (tree.failure path).PointsAt path (node.info.start.row + 1) (node.info.start.column + 1)
      (if node.info.isMissing then "missing " ++ node.kind else "syntax error") := by
  have hProblem : node.problem.message =
      if node.info.isMissing then "missing " ++ node.kind else "syntax error" := by
    unfold problem
    split <;> rfl
  rw [SyntaxTree.failure, h, ← hProblem]
  exact ⟨⟨_, rfl⟩, rfl⟩

theorem pointsAt_start {tree : SyntaxTree} (h : tree.firstOffending? = none) (path : FilePath) :
    (tree.failure path).PointsAt path 1 1 "syntax error" := by
  rw [SyntaxTree.failure, h]
  exact ⟨⟨_, rfl⟩, rfl⟩

/-! ## Main result -/

/-- A text is refused just if the root of its tree is marked. With complete marks, the failure then
points at the first offending node of the tree in source order, by its line and column counted
from one, and names the kind of the node if this is a missing token; it points at the very start if
there is no such node. The search finds this node whether it stops there or goes on with its
agenda. -/
theorem parse_failure_located {parser : Parser} {language : Language} {text : String}
    {tree : SyntaxTree} (hTree : parser language text = some tree) (hMarks : tree.IsFullyMarked)
    (path : FilePath) :
    ((∃ failure, ParsedFile.parseAs parser language path text = .error failure) ↔
      tree.info.hasError = true) ∧
    (∀ node, tree.firstOffending? = some node ↔ ∃ place, tree.IsFirstOffending place node) ∧
    walk keepFirst none tree () = tree.firstOffending? ∧
    (tree.info.hasError = true →
      ∃ failure, ParsedFile.parseAs parser language path text = .error failure ∧
        ((∃ place node, tree.IsFirstOffending place node ∧
          failure.PointsAt path (node.info.start.row + 1) (node.info.start.column + 1)
            (if node.info.isMissing then "missing " ++ node.kind else "syntax error")) ∨
        ((∀ place node, tree.at? place = some node → node.isOffending = false) ∧
          failure.PointsAt path 1 1 "syntax error"))) := by
  have hParse := ParsedFile.parseAs_eq hTree path
  refine ⟨?_, fun node => firstOffending?_eq_some_iff hMarks, walk_keepFirst tree, ?_⟩
  · rw [hParse]
    cases tree.info.hasError <;> simp
  · intro hError
    refine ⟨tree.failure path, by rw [hParse, if_pos hError], ?_⟩
    cases hFound : tree.firstOffending? with
    | some node =>
      obtain ⟨place, hFirst⟩ := (firstOffending?_eq_some_iff hMarks).mp hFound
      exact .inl ⟨place, node, hFirst, pointsAt_of_firstOffending? hFound path⟩
    | none =>
      exact .inr ⟨(firstOffending?_eq_none_iff hMarks).mp hFound, pointsAt_start hFound path⟩

/-- A token or a node of a rule that covers the characters from `start` up to `stop` of the first
line. -/
def nodeAt (kind : String) (start stop : Nat) : NodeInfo where
  kind := kind
  field := none
  isNamed := true
  isError := false
  isMissing := false
  hasError := false
  start := ⟨start, 0, start⟩
  stop := ⟨stop, 0, stop⟩

/-- The tree of `a; let b )`: an unmarked statement, a declaration that lacks its semicolon, and an
error behind it. -/
def lackingTree : SyntaxTree :=
  .node { nodeAt "program" 0 10 with hasError := true } [
    .node (nodeAt "expression_statement" 0 2) [.node (nodeAt "identifier" 0 1) []],
    .node { nodeAt "lexical_declaration" 3 8 with hasError := true } [
      .node (nodeAt "let" 3 6) [],
      .node { nodeAt ";" 8 8 with isMissing := true } []],
    .node { nodeAt "ERROR" 9 10 with isError := true, hasError := true } []]

/-- The parser that knows this tree alone. -/
def lackingParser : Parser := fun _ _ => some lackingTree

theorem nodes_node (info : NodeInfo) (children : List SyntaxTree) :
    (node info children).nodes = node info children :: children.flatMap nodes :=
  nodes_eq_cons _

theorem isFullyMarked_lackingTree : lackingTree.IsFullyMarked where
  errors := by simp [lackingTree, nodeAt, nodes_node, info]
  above := by simp [lackingTree, nodeAt, nodes_node, info, children, isOffending]

/-- The failure points at the missing semicolon: the statement before it is not searched, and the
error behind it comes too late. -/
theorem parse_failure_located_lackingSemicolon :
    lackingTree.IsFullyMarked ∧ lackingTree.info.hasError = true ∧
    ∃ failure, ParsedFile.parseAs lackingParser .javaScript ⟨"a.js"⟩ "a; let b )" =
      .error failure ∧ failure.PointsAt ⟨"a.js"⟩ 1 9 "missing ;" := by
  have hTree : lackingParser .javaScript "a; let b )" = some lackingTree := rfl
  obtain ⟨-, hSearch, -, hFailure⟩ :=
    parse_failure_located hTree isFullyMarked_lackingTree ⟨"a.js"⟩
  obtain ⟨failure, hParse, hPoints⟩ := hFailure rfl
  refine ⟨isFullyMarked_lackingTree, rfl, failure, hParse, ?_⟩
  have hSemicolon : lackingTree.IsFirstOffending [1, 1]
      (.node { nodeAt ";" 8 8 with isMissing := true } []) := by
    refine ⟨rfl, rfl, fun earlier other hLt hOther => ?_⟩
    have hAll : ∀ earlier ∈ lackingTree.places, earlier < [1, 1] →
        (lackingTree.at? earlier).any isOffending = false := by decide
    simpa [hOther] using hAll earlier (mem_places_of_at? hOther) hLt
  rcases hPoints with ⟨place, node, hFirst, hPoints⟩ | ⟨hNone, -⟩
  · -- there is one node that the search can find
    have hFound := (hSearch node).mpr ⟨place, hFirst⟩
    rw [(hSearch _).mpr ⟨_, hSemicolon⟩] at hFound
    obtain rfl := Option.some.inj hFound
    exact hPoints
  · exact absurd (hNone [1, 1] _ rfl) (by decide)

end DebtGauge
