import DebtGauge.Proofs.SyntaxTree.Place

/-!
# What the size of a tree bounds

A tree has one place for each of its nodes, so a walk reaches no more nodes than the tree has.
A node is as deep as the way to it is long, and the way and the subtree below it take no more
nodes than the tree has.

Main results:

* `length_places` — there are as many places as nodes;
* `length_visited_le` — a walk reaches no more nodes than there are;
* `length_add_size_le` — the way to a subtree and its size, against the size of the tree;
* `mem_nodes` — the nodes of a tree are the subtrees at its places.
-/

namespace DebtGauge.SyntaxTree

mutual

/-- There are as many places as nodes. -/
theorem length_places : (tree : SyntaxTree) → tree.places.length = tree.size
  | node _ children => by
    rw [places, List.length_cons, length_placesAll children, size_node]

theorem length_placesAll : (trees : List SyntaxTree) → (placesAll trees).length = sizeAll trees
  | [] => by rw [placesAll, sizeAll, List.length_nil]
  | tree :: rest => by
    rw [placesAll, List.length_append, List.length_map, List.length_map, length_places tree,
      length_placesAll rest, sizeAll_cons]

end

/-- A walk reaches no more nodes than the tree has. -/
theorem length_visited_le {ι : Type} (guide : Guide ι) (tree : SyntaxTree) (handed : ι) :
    (visited guide tree handed).length ≤ tree.size := by
  rw [visited_eq_filterMap, ← length_places]
  exact List.length_filterMap_le _ _

theorem size_le_sizeAll {child : SyntaxTree} {trees : List SyntaxTree} (h : child ∈ trees) :
    child.size ≤ sizeAll trees := by
  induction trees with
  | nil => exact absurd h List.not_mem_nil
  | cons tree rest ih =>
    rw [sizeAll_cons]
    rcases List.mem_cons.mp h with rfl | h
    · exact Nat.le_add_right _ _
    · exact Nat.le_trans (ih h) (Nat.le_add_left _ _)

theorem length_le_sizeAll (trees : List SyntaxTree) : trees.length ≤ sizeAll trees := by
  induction trees with
  | nil => exact Nat.zero_le _
  | cons tree rest ih =>
    have hPos : 0 < tree.size := by
      cases tree
      rw [size_node]
      exact Nat.succ_pos _
    rw [List.length_cons, sizeAll_cons]
    omega

theorem size_eq (tree : SyntaxTree) : tree.size = sizeAll tree.children + 1 := by
  cases tree
  exact size_node ..

theorem size_lt_of_mem_children {tree child : SyntaxTree} (h : child ∈ tree.children) :
    child.size < tree.size := by
  have hAll := size_le_sizeAll h
  rw [size_eq tree]
  omega

/-- The children of a node are fewer than the nodes at and below it. -/
theorem length_children_lt (tree : SyntaxTree) : tree.children.length < tree.size := by
  have hAll := length_le_sizeAll tree.children
  rw [size_eq tree]
  omega

/-- The way to a subtree and the subtree itself take no more nodes than there are. -/
theorem length_add_size_le {tree found : SyntaxTree} {place : Place}
    (h : tree.at? place = some found) : place.length + found.size ≤ tree.size := by
  induction place generalizing tree with
  | nil =>
    obtain rfl : tree = found := Option.some.inj h
    rw [List.length_nil, Nat.zero_add]
  | cons index place ih =>
    rw [at?, Option.bind_eq_some_iff] at h
    obtain ⟨child, hChild, hFound⟩ := h
    -- one step down costs one node at least
    have hBelow := ih hFound
    have hSize := size_lt_of_mem_children (List.mem_of_getElem? hChild)
    rw [List.length_cons]
    omega

theorem exists_place_of_mem_visited {ι : Type} {guide : Guide ι} {tree found : SyntaxTree}
    {handed handed' : ι} (h : (found, handed') ∈ visited guide tree handed) :
    ∃ place, tree.at? place = some found := by
  rw [visited_eq_filterMap, List.mem_filterMap] at h
  obtain ⟨place, -, hReach⟩ := h
  exact ⟨place, at?_of_reach? hReach⟩

/-- The nodes of a tree are the subtrees at its places. -/
theorem mem_nodes {tree found : SyntaxTree} :
    found ∈ tree.nodes ↔ ∃ place, tree.at? place = some found := by
  unfold nodes
  rw [List.mem_map]
  constructor
  · rintro ⟨⟨_, handed⟩, hVisited, rfl⟩
    exact exists_place_of_mem_visited hVisited
  · rintro ⟨place, hFound⟩
    -- the walk that goes everywhere comes through each place
    have hReach := map_fst_reach? everywhere (fun _ _ => rfl) tree () place
    rw [hFound, Option.map_eq_some_iff] at hReach
    obtain ⟨entry, hReach, rfl⟩ := hReach
    refine ⟨entry, ?_, rfl⟩
    rw [visited_eq_filterMap, List.mem_filterMap]
    exact ⟨place, mem_places_of_at? hFound, hReach⟩

theorem size_le_of_mem_nodes {tree found : SyntaxTree} (h : found ∈ tree.nodes) :
    found.size ≤ tree.size := by
  obtain ⟨place, hFound⟩ := mem_nodes.mp h
  exact Nat.le_trans (Nat.le_add_left _ _) (length_add_size_le hFound)

end DebtGauge.SyntaxTree
