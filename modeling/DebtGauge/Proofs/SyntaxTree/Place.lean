import DebtGauge.Proofs.SyntaxTree.Walk
import Mathlib.Data.List.Infix
import Mathlib.Data.List.Nodup

/-!
# Places of a syntax tree

Equal subtrees may stand at several places of a tree. A place tells them apart: it is the
way from the root to a node, each step the number of a child. What a walk does with a node
depends on its place alone, so the nodes that a walk reaches can be found place by place.

Main definitions:

* `at?` — the subtree at a place;
* `places` — the places of a tree in source order;
* `reach?` — what a walk hands down to the node at a place, if it gets there.

Main results:

* `mem_places`, `nodup_places` — each place that has a subtree is listed, and once.
* `pairwise_lt_places` — the places are listed in lexicographic order.
* `visited_eq_filterMap` — a walk reaches the nodes of the places that it gets to, in order.
-/

namespace DebtGauge

/-- The way from the root of a tree to a node: the number of a child for each step. -/
abbrev Place := List Nat

namespace SyntaxTree

/-- The subtree at a place. -/
def at? (tree : SyntaxTree) : Place → Option SyntaxTree
  | [] => some tree
  | index :: place => tree.children[index]?.bind fun child => child.at? place

theorem at?_append (tree : SyntaxTree) (above below : Place) :
    tree.at? (above ++ below) = (tree.at? above).bind fun found => found.at? below := by
  induction above generalizing tree with
  | nil => rfl
  | cons index above ih =>
    show (tree.children[index]?.bind fun child => child.at? (above ++ below)) =
      (tree.children[index]?.bind fun child => child.at? above).bind fun found => found.at? below
    cases tree.children[index]? with
    | none => rfl
    | some child => exact ih child

/-- The children of the node at a place stand one step further. -/
theorem at?_concat {tree found child : SyntaxTree} {above : Place} {index : Nat}
    (hFound : tree.at? above = some found) (hChild : found.children[index]? = some child) :
    tree.at? (above ++ [index]) = some child := by
  rw [at?_append, hFound, Option.bind_some, at?, hChild]
  rfl

/-- The place of a node in the tree of its next sibling on the left becomes its own place. -/
def pastSibling : Place → Place
  | [] => []
  | index :: place => (index + 1) :: place

mutual

/-- The places of a tree, in source order. -/
def places : SyntaxTree → List Place
  | node _ children => [] :: placesAll children

/-- The places of the nodes in and below several siblings. -/
def placesAll : List SyntaxTree → List Place
  | [] => []
  | tree :: rest => (places tree).map (0 :: ·) ++ (placesAll rest).map pastSibling

end

/-! ## Which places are listed -/

/-- The places in and below siblings are those of each with its number in front. -/
theorem mem_placesAll {trees : List SyntaxTree} {place : Place} :
    place ∈ placesAll trees ↔
      ∃ index below tree, place = index :: below ∧ trees[index]? = some tree ∧
        below ∈ places tree := by
  induction trees generalizing place with
  | nil => simp [placesAll]
  | cons tree rest ih =>
    rw [placesAll, List.mem_append, List.mem_map, List.mem_map]
    constructor
    · rintro (⟨below, hBelow, rfl⟩ | ⟨other, hOther, rfl⟩)
      · exact ⟨0, below, tree, rfl, rfl, hBelow⟩
      · obtain ⟨index, below, found, rfl, hFound, hBelow⟩ := ih.mp hOther
        exact ⟨index + 1, below, found, rfl, hFound, hBelow⟩
    · rintro ⟨index, below, found, rfl, hFound, hBelow⟩
      cases index with
      | zero =>
        obtain rfl : tree = found := Option.some.inj hFound
        exact Or.inl ⟨below, hBelow, rfl⟩
      | succ index =>
        exact Or.inr ⟨index :: below, ih.mpr ⟨index, below, found, rfl, hFound, hBelow⟩, rfl⟩

theorem mem_places {tree : SyntaxTree} {place : Place} :
    place ∈ tree.places ↔ (tree.at? place).isSome := by
  induction place generalizing tree with
  | nil =>
    cases tree
    simp [places, at?]
  | cons index place ih =>
    obtain ⟨info, children⟩ := tree
    have hTail : index :: place ∈ places (node info children) ↔
        index :: place ∈ placesAll children := by simp [places]
    rw [hTail, mem_placesAll]
    constructor
    · rintro ⟨_, _, child, hEq, hChild, hBelow⟩
      obtain ⟨rfl, rfl⟩ := List.cons.inj hEq
      show (children[index]?.bind fun child => child.at? place).isSome
      rw [hChild]
      exact ih.mp hBelow
    · intro hSome
      change (children[index]?.bind fun child => child.at? place).isSome at hSome
      cases hChild : children[index]? with
      | none => simp [hChild] at hSome
      | some child =>
        rw [hChild] at hSome
        exact ⟨index, place, child, rfl, hChild, ih.mpr hSome⟩

theorem mem_places_of_at? {tree found : SyntaxTree} {place : Place}
    (h : tree.at? place = some found) : place ∈ tree.places := by
  rw [mem_places, h]
  rfl

/-! ## Each place is listed once, in source order -/

theorem pastSibling_lt_pastSibling {place place' : Place} (hne : place ≠ []) (h : place < place') :
    pastSibling place < pastSibling place' := by
  cases place with
  | nil => exact absurd rfl hne
  | cons index below =>
    cases place' with
    | nil => exact absurd h (List.not_lt_nil _)
    | cons index' below' =>
      rw [List.cons_lt_cons_iff] at h
      show (index + 1) :: below < (index' + 1) :: below'
      rw [List.cons_lt_cons_iff, Nat.add_lt_add_iff_right, Nat.add_right_cancel_iff]
      exact h

mutual

/-- A node is listed before those below it, and what is below a child before what is below
the children behind it. -/
theorem pairwise_lt_places : (tree : SyntaxTree) → tree.places.Pairwise (· < ·)
  | node _ children => by
    rw [places, List.pairwise_cons]
    refine ⟨fun place hPlace => ?_, pairwise_lt_placesAll children⟩
    obtain ⟨index, below, _, rfl, _⟩ := mem_placesAll.mp hPlace
    exact List.nil_lt_cons index below

theorem pairwise_lt_placesAll : (trees : List SyntaxTree) → (placesAll trees).Pairwise (· < ·)
  | [] => List.Pairwise.nil
  | tree :: rest => by
    rw [placesAll, List.pairwise_append, List.pairwise_map, List.pairwise_map]
    refine ⟨?_, ?_, ?_⟩
    · refine (pairwise_lt_places tree).imp fun hLt => ?_
      rw [List.cons_lt_cons_iff]
      exact Or.inr ⟨rfl, hLt⟩
    · refine (pairwise_lt_placesAll rest).imp_of_mem fun hPlace _ hLt => ?_
      obtain ⟨index, below, _, rfl, _⟩ := mem_placesAll.mp hPlace
      exact pastSibling_lt_pastSibling (List.cons_ne_nil index below) hLt
    · intro place hZero later hLater
      -- the first sibling has the number zero, and no later one has
      rw [List.mem_map] at hZero hLater
      obtain ⟨_, _, rfl⟩ := hZero
      obtain ⟨other, hOther, rfl⟩ := hLater
      obtain ⟨index, below, _, rfl, _⟩ := mem_placesAll.mp hOther
      rw [pastSibling, List.cons_lt_cons_iff]
      exact Or.inl (Nat.succ_pos index)

end

theorem nodup_places (tree : SyntaxTree) : tree.places.Nodup := by
  refine (pairwise_lt_places tree).imp ?_
  rintro place _ hLt rfl
  exact List.lt_irrefl place hLt

/-! ## What a walk reaches -/

section Reach

variable {ι : Type} (guide : Guide ι)

/-- The node at a place with what a walk hands down to it, unless a node above leaves its
children out. -/
def reach? (tree : SyntaxTree) (handed : ι) : Place → Option (SyntaxTree × ι)
  | [] => some (tree, handed)
  | index :: place =>
    (guide tree handed).bind fun below =>
      tree.children[index]?.bind fun child => child.reach? below place

/-- The same for a place in or below one of several siblings. -/
def reachAll? (trees : List SyntaxTree) (handed : ι) : Place → Option (SyntaxTree × ι)
  | [] => none
  | index :: place => trees[index]?.bind fun tree => tree.reach? guide handed place

variable {guide}

/-- The node that a walk reaches at a place is the one that stands there. -/
theorem at?_of_reach? {tree found : SyntaxTree} {handed handed' : ι} {place : Place}
    (h : tree.reach? guide handed place = some (found, handed')) :
    tree.at? place = some found := by
  induction place generalizing tree handed with
  | nil =>
    obtain ⟨rfl, rfl⟩ := Prod.mk.inj (Option.some.inj h)
    rfl
  | cons index place ih =>
    rw [reach?, Option.bind_eq_some_iff] at h
    obtain ⟨below, _, h⟩ := h
    rw [Option.bind_eq_some_iff] at h
    obtain ⟨child, hChild, h⟩ := h
    rw [at?, hChild, Option.bind_some]
    exact ih h

variable (guide)

/-- A walk that goes everywhere gets to the node at every place. -/
theorem map_fst_reach? (hAll : ∀ tree handed, (guide tree handed).isSome) (tree : SyntaxTree)
    (handed : ι) (place : Place) : (tree.reach? guide handed place).map Prod.fst = tree.at? place := by
  induction place generalizing tree handed with
  | nil => rfl
  | cons index place ih =>
    obtain ⟨below, hBelow⟩ := Option.isSome_iff_exists.mp (hAll tree handed)
    rw [reach?, at?, hBelow, Option.bind_some]
    cases tree.children[index]? with
    | none => rfl
    | some child => exact ih child below

theorem filterMap_reachAll?_cons (tree : SyntaxTree) (rest : List SyntaxTree) (handed : ι) :
    (placesAll (tree :: rest)).filterMap (reachAll? guide (tree :: rest) handed) =
      tree.places.filterMap (tree.reach? guide handed) ++
        (placesAll rest).filterMap (reachAll? guide rest handed) := by
  rw [placesAll, List.filterMap_append, List.filterMap_map, List.filterMap_map]
  congr 1
  refine List.filterMap_congr fun place hPlace => ?_
  obtain ⟨index, below, _, rfl, _⟩ := mem_placesAll.mp hPlace
  rfl

/-- Below a node that hands something down, a walk reaches what it reaches from its
children; below any other node it reaches nothing. -/
theorem filterMap_reach?_node (info : NodeInfo) (children : List SyntaxTree) (handed : ι) :
    (places (node info children)).filterMap (reach? guide (node info children) handed) =
      (node info children, handed) ::
        ((guide (node info children) handed).elim [] fun below =>
          (placesAll children).filterMap (reachAll? guide children below)) := by
  have hRoot : reach? guide (node info children) handed [] =
      some (node info children, handed) := rfl
  rw [places, List.filterMap_cons_some hRoot]
  congr 1
  cases hGuide : guide (node info children) handed with
  | none =>
    -- every other place leads through a child
    rw [Option.elim_none, List.filterMap_eq_nil_iff]
    intro place hPlace
    obtain ⟨index, below, _, rfl, _⟩ := mem_placesAll.mp hPlace
    rw [reach?, hGuide, Option.bind_none]
  | some handedBelow =>
    refine List.filterMap_congr fun place hPlace => ?_
    obtain ⟨index, below, _, rfl, _⟩ := mem_placesAll.mp hPlace
    rw [reach?, hGuide, Option.bind_some]
    rfl

mutual

theorem descend_lister (seen : List (SyntaxTree × ι)) (handed : ι) :
    (tree : SyntaxTree) → descend (lister guide) seen handed tree =
      (tree.places.filterMap (tree.reach? guide handed)).reverse ++ seen
  | node info children => by
    rw [filterMap_reach?_node, descend, lister]
    cases guide (node info children) handed with
    | none => rfl
    | some below =>
      show descendAll (lister guide) ((node info children, handed) :: seen) below children = _
      rw [descendAll_lister, Option.elim_some, List.reverse_cons, List.append_assoc]
      rfl

theorem descendAll_lister (seen : List (SyntaxTree × ι)) (handed : ι) :
    (trees : List SyntaxTree) → descendAll (lister guide) seen handed trees =
      ((placesAll trees).filterMap (reachAll? guide trees handed)).reverse ++ seen
  | [] => rfl
  | tree :: rest => by
    rw [descendAll, descend_lister, descendAll_lister, filterMap_reachAll?_cons,
      List.reverse_append, List.append_assoc]

end

/-- A walk reaches the nodes of the places that it gets to, in source order. -/
theorem visited_eq_filterMap (tree : SyntaxTree) (handed : ι) :
    visited guide tree handed = tree.places.filterMap (tree.reach? guide handed) := by
  rw [visited, walk_eq_descend, descend_lister, List.append_nil, List.reverse_reverse]

end Reach

end SyntaxTree

end DebtGauge
