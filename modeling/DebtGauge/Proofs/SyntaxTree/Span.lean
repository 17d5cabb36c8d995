import DebtGauge.Markers
import DebtGauge.Proofs.SyntaxTree.Size
import Mathlib.Data.List.Flatten
import Mathlib.Data.List.Pairwise

/-!
# Spans of nodes

A parser lays a tree over its source: the children of a node lie inside it, one after the
other. Then all nodes below a node lie inside it, and the comments that a walk gathers stand
one after the other and hold all comment nodes there are.

Main definitions:

* `Span`, `span` — the characters that a node covers;
* `IsOver` — a tree that is laid over a source.

Main results:

* `visited_eq_cons` — what a walk reaches, child by child;
* `IsOver.of_mem_nodes` — every node of a tree over a source is itself one;
* `IsOver.pairwise_comments` — the comments stand one after the other;
* `IsOver.exists_comment` — every comment node lies in one of them.
-/

namespace DebtGauge

/-- The characters from one position up to another. -/
structure Span where
  start : Nat
  stop : Nat
deriving DecidableEq

namespace Span

/-- Whether a span lies in another one. -/
def Within (inner outer : Span) : Prop :=
  outer.start ≤ inner.start ∧ inner.stop ≤ outer.stop

theorem Within.refl (span : Span) : span.Within span := ⟨Nat.le_refl _, Nat.le_refl _⟩

theorem Within.trans {a b c : Span} (hab : a.Within b) (hbc : b.Within c) : a.Within c :=
  ⟨Nat.le_trans hbc.1 hab.1, Nat.le_trans hab.2 hbc.2⟩

theorem Within.antisymm {a b : Span} (hab : a.Within b) (hba : b.Within a) : a = b := by
  cases a
  cases b
  rw [Span.mk.injEq]
  exact ⟨Nat.le_antisymm hba.1 hab.1, Nat.le_antisymm hab.2 hba.2⟩

/-- Whether a span ends before another one starts. -/
def Before (left right : Span) : Prop := left.stop ≤ right.start

/-- What lies in two spans is in the same order. -/
theorem Before.of_within {a b left right : Span} (h : left.Before right) (ha : a.Within left)
    (hb : b.Within right) : a.Before b :=
  Nat.le_trans ha.2 (Nat.le_trans h hb.1)

end Span

namespace SyntaxTree

/-- The characters that a node covers. -/
def span (tree : SyntaxTree) : Span := ⟨tree.info.start.offset, tree.info.stop.offset⟩

/-- The children of a node lie inside it, in order and without overlap. -/
structure HoldsChildren (tree : SyntaxTree) : Prop where
  ordered : tree.span.start ≤ tree.span.stop
  inside : ∀ child ∈ tree.children, child.span.Within tree.span
  apart : (tree.children.map span).Pairwise Span.Before

instance (tree : SyntaxTree) : Decidable tree.HoldsChildren :=
  decidable_of_iff
    (tree.span.start ≤ tree.span.stop ∧
      (∀ child ∈ tree.children,
        tree.span.start ≤ child.span.start ∧ child.span.stop ≤ tree.span.stop) ∧
      (tree.children.map span).Pairwise fun left right => left.stop ≤ right.start)
    ⟨fun h => ⟨h.1, h.2.1, h.2.2⟩, fun h => ⟨h.ordered, h.inside, h.apart⟩⟩

/-- A tree that is laid over a source. -/
structure IsOver (tree : SyntaxTree) (source : Source) : Prop where
  nested : ∀ node ∈ tree.nodes, node.HoldsChildren
  inText : tree.span.stop ≤ source.chars.size

/-! ## Walks, child by child -/

section Children

variable {ι : Type} (guide : Guide ι)

theorem filterMap_reachAll? (trees : List SyntaxTree) (handed : ι) :
    (placesAll trees).filterMap (reachAll? guide trees handed) =
      trees.flatMap fun tree => visited guide tree handed := by
  induction trees with
  | nil => rfl
  | cons tree rest ih =>
    rw [filterMap_reachAll?_cons, ih, List.flatMap_cons, visited_eq_filterMap]

/-- A walk reaches a node, and then what it reaches from its children, if it goes on. -/
theorem visited_eq_cons (tree : SyntaxTree) (handed : ι) :
    visited guide tree handed =
      (tree, handed) :: ((guide tree handed).elim [] fun below =>
        tree.children.flatMap fun child => visited guide child below) := by
  obtain ⟨info, children⟩ := tree
  rw [visited_eq_filterMap, filterMap_reach?_node]
  congr 2
  funext below
  exact filterMap_reachAll? guide children below

end Children

theorem nodes_eq_cons (tree : SyntaxTree) : tree.nodes = tree :: tree.children.flatMap nodes := by
  rw [nodes, visited_eq_cons, List.map_cons, everywhere, Option.elim_some, List.map_flatMap]
  rfl

theorem comments_of_isComment {tree : SyntaxTree} (h : tree.isComment = true) :
    tree.comments = [tree] := by
  rw [comments, visited_eq_cons, outsideComments, if_pos h, Option.elim_none, List.map_cons,
    List.map_nil, List.filter_cons_of_pos h, List.filter_nil]

theorem comments_of_not_isComment {tree : SyntaxTree} (h : tree.isComment = false) :
    tree.comments = tree.children.flatMap comments := by
  rw [comments, visited_eq_cons, outsideComments, if_neg (by rw [h]; exact Bool.false_ne_true),
    Option.elim_some, List.map_cons, List.filter_cons_of_neg (by rw [h]; exact Bool.false_ne_true),
    List.map_flatMap, List.filter_flatMap]
  rfl

/-- What holds of a node as soon as it holds of its children, holds of every tree. -/
theorem induction_children {motive : SyntaxTree → Prop}
    (step : ∀ tree, (∀ child ∈ tree.children, motive child) → motive tree) (tree : SyntaxTree) :
    motive tree :=
  step tree fun child _ => induction_children step child
termination_by tree.size
decreasing_by exact size_lt_of_mem_children ‹_›

theorem self_mem_nodes (tree : SyntaxTree) : tree ∈ tree.nodes := by
  rw [nodes_eq_cons]
  exact List.mem_cons_self

theorem mem_nodes_of_mem_children {tree child found : SyntaxTree} (hChild : child ∈ tree.children)
    (hFound : found ∈ child.nodes) : found ∈ tree.nodes := by
  rw [nodes_eq_cons]
  exact List.mem_cons_of_mem _ (List.mem_flatMap_of_mem hChild hFound)

theorem mem_nodes_trans {tree node found : SyntaxTree} (hNode : node ∈ tree.nodes)
    (hFound : found ∈ node.nodes) : found ∈ tree.nodes := by
  obtain ⟨above, hAbove⟩ := mem_nodes.mp hNode
  obtain ⟨below, hBelow⟩ := mem_nodes.mp hFound
  exact mem_nodes.mpr ⟨above ++ below, by rw [at?_append, hAbove, Option.bind_some, hBelow]⟩

/-- Below a node whose children have none there are its children alone. -/
theorem nodes_of_leaves {tree : SyntaxTree}
    (h : ∀ child ∈ tree.children, child.children.length = 0) :
    tree.nodes = tree :: tree.children := by
  rw [nodes_eq_cons, List.flatMap_congr (g := fun child => [child]), List.flatMap_singleton']
  intro child hChild
  rw [nodes_eq_cons, List.eq_nil_of_length_eq_zero (h child hChild), List.flatMap_nil]

/-! ## Nodes of a tree over a source -/

namespace IsOver

variable {tree : SyntaxTree} {source : Source}

theorem holdsChildren (h : tree.IsOver source) : tree.HoldsChildren :=
  h.nested tree (self_mem_nodes tree)

theorem child (h : tree.IsOver source) {child : SyntaxTree} (hChild : child ∈ tree.children) :
    child.IsOver source where
  nested node hNode := h.nested node (mem_nodes_of_mem_children hChild hNode)
  inText := Nat.le_trans (h.holdsChildren.inside child hChild).2 h.inText

/-- All nodes lie inside the root. -/
theorem within (h : tree.IsOver source) {node : SyntaxTree} (hNode : node ∈ tree.nodes) :
    node.span.Within tree.span := by
  induction tree using induction_children with
  | step tree ih =>
    rw [nodes_eq_cons, List.mem_cons, List.mem_flatMap] at hNode
    obtain rfl | ⟨child, hChild, hNode⟩ := hNode
    · exact Span.Within.refl _
    · exact (ih child hChild (h.child hChild) hNode).trans (h.holdsChildren.inside child hChild)

/-- Every node of a tree over a source is itself laid over it. -/
theorem of_mem_nodes (h : tree.IsOver source) {node : SyntaxTree} (hNode : node ∈ tree.nodes) :
    node.IsOver source where
  nested _ hFound := h.nested _ (mem_nodes_trans hNode hFound)
  inText := Nat.le_trans (h.within hNode).2 h.inText

end IsOver

/-- A node whose children have none is a tree over a source as soon as its nodes are nested. -/
theorem isOver_of_leaves {tree : SyntaxTree} {source : Source}
    (hLeaves : ∀ child ∈ tree.children, child.children.length = 0)
    (hNested : ∀ node ∈ tree :: tree.children, node.HoldsChildren)
    (hSize : tree.span.stop ≤ source.chars.size) : tree.IsOver source where
  nested := by rwa [nodes_of_leaves hLeaves]
  inText := hSize

/-! ## Comments -/

theorem mem_nodes_of_mem_comments {tree comment : SyntaxTree} (h : comment ∈ tree.comments) :
    comment ∈ tree.nodes ∧ comment.isComment = true := by
  obtain ⟨hReached, hComment⟩ := List.mem_filter.mp h
  obtain ⟨⟨found, handed⟩, hVisited, rfl⟩ := List.mem_map.mp hReached
  exact ⟨mem_nodes.mpr (exists_place_of_mem_visited hVisited), hComment⟩

namespace IsOver

variable {tree : SyntaxTree} {source : Source}

/-- The comments that a walk gathers stand one after the other. -/
theorem pairwise_comments (h : tree.IsOver source) :
    (tree.comments.map span).Pairwise Span.Before := by
  induction tree using induction_children with
  | step tree ih =>
    cases hComment : tree.isComment with
    | true =>
      rw [comments_of_isComment hComment]
      exact List.pairwise_singleton ..
    | false =>
      rw [comments_of_not_isComment hComment, List.map_flatMap, List.pairwise_flatMap]
      refine ⟨fun child hChild => ih child hChild (h.child hChild), ?_⟩
      -- the comments of two children lie in the children, which are apart
      have inChild {child : SyntaxTree} (hChild : child ∈ tree.children) :
          ∀ gap ∈ child.comments.map span, gap.Within child.span := by
        intro gap hGap
        obtain ⟨comment, hMem, rfl⟩ := List.mem_map.mp hGap
        exact (h.child hChild).within (mem_nodes_of_mem_comments hMem).1
      refine (List.pairwise_map.mp h.holdsChildren.apart).imp_of_mem ?_
      intro left right hLeft hRight hBefore a ha b hb
      exact hBefore.of_within (inChild hLeft a ha) (inChild hRight b hb)

/-- A comment node below another one is not gathered, but lies in one that is. -/
theorem exists_comment (h : tree.IsOver source) {found : SyntaxTree} (hFound : found ∈ tree.nodes)
    (hComment : found.isComment = true) :
    ∃ comment ∈ tree.comments, found.span.Within comment.span := by
  induction tree using induction_children with
  | step tree ih =>
    cases hRoot : tree.isComment with
    | true =>
      rw [comments_of_isComment hRoot]
      exact ⟨tree, List.mem_singleton_self _, h.within hFound⟩
    | false =>
      rw [nodes_eq_cons, List.mem_cons, List.mem_flatMap] at hFound
      obtain rfl | ⟨child, hChild, hFound⟩ := hFound
      · rw [hRoot] at hComment
        exact absurd hComment Bool.false_ne_true
      · obtain ⟨comment, hMem, hWithin⟩ := ih child hChild (h.child hChild) hFound
        rw [comments_of_not_isComment hRoot]
        exact ⟨comment, List.mem_flatMap_of_mem hChild hMem, hWithin⟩

end IsOver

end SyntaxTree

end DebtGauge
