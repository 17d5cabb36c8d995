import DebtGauge.Proofs.FunctionUnit.Ownership

/-!
# Whose nesting is measured

The nesting of a function is measured in walks that start at the children of its body and
stop at functions. They get to the nodes below the body that belong to the function, as
long as the body is no function itself. A body that is one, as in a chain of arrows, is not
looked at, and so the nesting in it is measured for the outer function too.

Main results:

* `nestingDepth_eq` — the nodes at which the nesting below a body is measured.
* `nesting_owned_iff` — when the nesting that is measured for a function is its own.
-/

namespace DebtGauge.SyntaxTree

/-! ## Nesting on the way to a place -/

/-- A nesting construct stands at the place: a branch, a loop, a switch, a try, or a block
whose parent is a block. -/
def nestsAt (tree : SyntaxTree) (place : Place) : Bool :=
  (tree.at? place).any fun found =>
    found.kind ∈ nestingKinds ||
      (found.kind = blockKind && place ≠ [] && (tree.at? place.dropLast).any (·.kind = blockKind))

/-- The number of nesting constructs on the way from `top`, which does not count, to a
place, which does. -/
def nestingBetween (tree : SyntaxTree) (top place : Place) : Nat :=
  place.inits.countP fun above => top <+: above && above ≠ top && tree.nestsAt above

/-- The greatest number of nesting constructs on the way from `top` to a place below it for
which the function at `owner` is the nearest one, and zero if there is no such place. -/
def ownNesting (tree : SyntaxTree) (owner top : Place) : Nat :=
  ((tree.places.filter fun place =>
    top <+: place ∧ place ≠ top ∧ tree.nearestFunction? place = some owner).map
      (tree.nestingBetween top)).foldl max 0

theorem nestsAt_concat {tree body child : SyntaxTree} {top : Place} {index : Nat}
    (hBody : tree.at? top = some body) (hChild : body.children[index]? = some child)
    (depth : Nat) :
    tree.nestsAt (top ++ [index]) = child.nests ⟨depth, body.kind = blockKind⟩ := by
  rw [nestsAt, at?_concat hBody hChild, Option.any_some, List.dropLast_concat, hBody,
    Option.any_some, nests]
  simp

theorem inits_eq_cons (place : Place) : place.inits = [] :: place.inits.tail := by
  cases place <;> rfl

/-- The way to a place below `top` is counted from `top` on. -/
theorem nestingBetween_append (tree : SyntaxTree) (top below : Place) :
    tree.nestingBetween top (top ++ below) =
      below.inits.tail.countP fun way => tree.nestsAt (top ++ way) := by
  -- above the place none of the way to `top` counts, and below `top` all of it does
  have hAbove : top.inits.countP
      (fun above => top <+: above && above ≠ top && tree.nestsAt above) = 0 := by
    rw [List.countP_eq_zero]
    intro above hAbove
    rw [List.mem_inits] at hAbove
    by_cases hTop : top <+: above
    · simp [hAbove.eq_of_length_le hTop.length_le]
    · simp [hTop]
  have hBelow : ∀ way ∈ below.inits.tail, way ≠ [] := by
    intro way hWay hNil
    cases below with
    | nil => simp at hWay
    | cons index below =>
      rw [List.inits_cons, List.tail_cons, List.mem_map] at hWay
      obtain ⟨_, _, rfl⟩ := hWay
      simp at hNil
  unfold nestingBetween
  rw [List.inits_append, List.countP_append, hAbove, Nat.zero_add, List.countP_map]
  refine List.countP_congr fun way hWay => ?_
  simp [hBelow way hWay]

/-- One step further down, the way starts with the child that the step leads to. -/
theorem countP_nestsAt_cons (tree : SyntaxTree) (top : Place) (index : Nat) (below : Place) :
    (index :: below).inits.tail.countP (fun way => tree.nestsAt (top ++ way)) =
      below.inits.tail.countP (fun way => tree.nestsAt (top ++ [index] ++ way)) +
        if tree.nestsAt (top ++ [index]) then 1 else 0 := by
  rw [List.inits_cons, List.tail_cons, List.countP_map, inits_eq_cons below, List.countP_cons]
  congr 1
  refine List.countP_congr fun way _ => ?_
  simp

/-! ## The depths that are measured -/

theorem withSurroundings_stops (found : SyntaxTree) (surroundings : Surroundings) :
    withSurroundings found surroundings = none ↔ found.isFunction = true := by
  unfold withSurroundings
  split <;> simp_all

/-- The depth of a node is the depth at which the walk started, and the nesting constructs
on the way from there. -/
theorem depthAt_of_reach? {tree body child found : SyntaxTree} {top below : Place} {index : Nat}
    {depth : Nat} {surroundings : Surroundings} (hBody : tree.at? top = some body)
    (hChild : body.children[index]? = some child)
    (hReach : child.reach? withSurroundings ⟨depth, body.kind = blockKind⟩ below =
      some (found, surroundings)) :
    found.depthAt surroundings = depth +
      (index :: below).inits.tail.countP fun way => tree.nestsAt (top ++ way) := by
  induction below generalizing body child top index depth with
  | nil =>
    obtain ⟨rfl, rfl⟩ := Prod.mk.inj (Option.some.inj hReach)
    rw [countP_nestsAt_cons, nestsAt_concat hBody hChild depth, depthAt]
    simp
  | cons next below ih =>
    have hAt := at?_concat hBody hChild
    rw [reach?, Option.bind_eq_some_iff] at hReach
    obtain ⟨handed, hHanded, hReach⟩ := hReach
    obtain ⟨grandchild, hGrandchild, hReach⟩ := Option.bind_eq_some_iff.mp hReach
    unfold withSurroundings at hHanded
    split at hHanded
    · simp at hHanded
    · -- the child hands down its own depth, from which the rest of the way is counted
      obtain rfl := Option.some.inj hHanded
      rw [ih hAt hGrandchild hReach, countP_nestsAt_cons tree top index,
        nestsAt_concat hBody hChild depth, depthAt]
      simp only
      omega

/-- A depth is measured at each node below a body to which the way is free. -/
theorem mem_depthsBelow {tree body : SyntaxTree} {top : Place} (hBody : tree.at? top = some body)
    {depth : Nat} :
    depth ∈ body.depthsBelow ↔
      ∃ index child below, body.children[index]? = some child ∧ (child.at? below).isSome ∧
        child.FreeTo below ∧ depth = tree.nestingBetween top (top ++ index :: below) := by
  unfold depthsBelow
  rw [List.mem_flatMap]
  constructor
  · rintro ⟨child, hChild, hDepth⟩
    obtain ⟨index, hIndex⟩ := List.getElem?_of_mem hChild
    obtain ⟨⟨found, surroundings⟩, hVisited, rfl⟩ := List.mem_map.mp hDepth
    obtain ⟨hVisited, hFunction⟩ := List.mem_filter.mp hVisited
    rw [visited_eq_filterMap, List.mem_filterMap] at hVisited
    obtain ⟨below, _, hReach⟩ := hVisited
    obtain ⟨hFound, hFree⟩ := (reach?_iff_freeTo withSurroundings_stops).mp
      ⟨⟨surroundings, hReach⟩, Bool.not_eq_true' _ ▸ hFunction⟩
    refine ⟨index, child, below, hIndex, by rw [hFound]; rfl, hFree, ?_⟩
    rw [nestingBetween_append]
    exact (depthAt_of_reach? hBody hIndex hReach).trans (Nat.zero_add _)
  · rintro ⟨index, child, below, hIndex, hSome, hFree, rfl⟩
    obtain ⟨found, hFound⟩ := Option.isSome_iff_exists.mp hSome
    have hReached : (∃ surroundings, child.reach? withSurroundings
        ⟨0, body.kind = blockKind⟩ below = some (found, surroundings)) ∧
        found.isFunction = false :=
      (reach?_iff_freeTo withSurroundings_stops).mpr ⟨hFound, hFree⟩
    obtain ⟨⟨surroundings, hReach⟩, hFunction⟩ := hReached
    refine ⟨child, List.mem_of_getElem? hIndex, List.mem_map.mpr ⟨(found, surroundings), ?_, ?_⟩⟩
    · rw [List.mem_filter, visited_eq_filterMap, List.mem_filterMap]
      exact ⟨⟨below, mem_places.mpr hSome, hReach⟩, Bool.not_eq_true' _ ▸ hFunction⟩
    · rw [nestingBetween_append]
      exact (depthAt_of_reach? hBody hIndex hReach).trans (Nat.zero_add _)

/-! ## The greatest depth -/

theorem foldl_max_le_iff {xs : List Nat} {least bound : Nat} :
    xs.foldl max least ≤ bound ↔ least ≤ bound ∧ ∀ x ∈ xs, x ≤ bound := by
  induction xs generalizing least with
  | nil => simp
  | cons x xs ih =>
    rw [List.foldl_cons, ih, Nat.max_le, List.forall_mem_cons, and_assoc]

/-- The greatest of some numbers does not depend on how they are listed. -/
theorem foldl_max_congr {xs ys : List Nat} (h : ∀ n, n ∈ xs ↔ n ∈ ys) :
    xs.foldl max 0 = ys.foldl max 0 := by
  refine le_antisymm ?_ ?_
  · refine foldl_max_le_iff.mpr ⟨Nat.zero_le _, fun x hx => ?_⟩
    exact (foldl_max_le_iff.mp le_rfl).2 x ((h x).mp hx)
  · refine foldl_max_le_iff.mpr ⟨Nat.zero_le _, fun x hx => ?_⟩
    exact (foldl_max_le_iff.mp le_rfl).2 x ((h x).mpr hx)

/-- The places strictly below a body are those in and below its children. -/
theorem exists_cons_of_below {tree body found : SyntaxTree} {top place : Place}
    (hBody : tree.at? top = some body) (hFound : tree.at? place = some found)
    (hTop : top <+: place) (hne : place ≠ top) :
    ∃ index child below, place = top ++ index :: below ∧
      body.children[index]? = some child ∧ child.at? below = some found := by
  obtain ⟨below, rfl⟩ := hTop
  cases below with
  | nil => exact absurd (List.append_nil top) hne
  | cons index below =>
    rw [at?_append, hBody, Option.bind_some, at?, Option.bind_eq_some_iff] at hFound
    obtain ⟨child, hChild, hFound⟩ := hFound
    exact ⟨index, child, below, rfl, hChild, hFound⟩

/-! ## The nodes that belong to a function -/

section

variable {tree body : SyntaxTree} {owner top : Place}

/-- Below the body of a function, the nearest function is this one or the body itself, just
if the way from the body is free of functions. -/
theorem nearestFunction?_below_body_iff {bodyIndex index : Nat} {child : SyntaxTree}
    (hOwner : tree.FunctionAt owner) (hTop : top = owner ++ [bodyIndex])
    (hBody : tree.at? top = some body) (hChild : body.children[index]? = some child)
    (below : Place) :
    tree.nearestFunction? (top ++ index :: below) =
        some (if tree.FunctionAt top then top else owner) ↔
      child.FreeTo below := by
  split
  case isTrue hFunction =>
    exact nearestFunction?_below_iff hFunction (at?_concat hBody hChild) below
  case isFalse hFunction =>
    subst hTop
    rw [functionAt_of_at? hBody, Bool.not_eq_true] at hFunction
    rw [List.append_assoc, List.singleton_append, nearestFunction?_below_iff hOwner hBody,
      freeTo_cons_iff hChild, hFunction]
    simp

/-- The nesting below a body is the greatest one at the places that belong to the function
or, if the body is a function itself, to the body. -/
theorem nestingDepth_eq (hTop : tree.bodyPlace? owner = some top)
    (hBody : tree.at? top = some body) :
    body.nestingDepth = tree.ownNesting (if tree.FunctionAt top then top else owner) top := by
  obtain ⟨hOwner, bodyIndex, _, hIndex, _⟩ := bodyPlace?_spec hTop
  refine foldl_max_congr fun depth => ?_
  rw [mem_depthsBelow hBody, List.mem_map]
  constructor
  · rintro ⟨index, child, below, hChild, hSome, hFree, rfl⟩
    refine ⟨top ++ index :: below, ?_, rfl⟩
    rw [List.mem_filter, mem_places, at?_append, hBody, Option.bind_some, at?, hChild,
      decide_eq_true_eq]
    refine ⟨hSome, List.prefix_append .., by simp, ?_⟩
    exact (nearestFunction?_below_body_iff hOwner hIndex hBody hChild below).mpr hFree
  · rintro ⟨place, hPlace, rfl⟩
    rw [List.mem_filter, mem_places, decide_eq_true_eq] at hPlace
    obtain ⟨hSome, hPrefix, hne, hNearest⟩ := hPlace
    obtain ⟨found, hFound⟩ := Option.isSome_iff_exists.mp hSome
    obtain ⟨index, child, below, rfl, hChild, hAt⟩ :=
      exists_cons_of_below hBody hFound hPrefix hne
    refine ⟨index, child, below, hChild, by rw [hAt]; rfl, ?_, rfl⟩
    exact (nearestFunction?_below_body_iff hOwner hIndex hBody hChild below).mp hNearest

/-- If the body of a function is a function, nothing below it belongs to the outer one. -/
theorem ownNesting_of_functionAt (hTop : tree.bodyPlace? owner = some top)
    (hFunction : tree.FunctionAt top) : tree.ownNesting owner top = 0 := by
  obtain ⟨_, bodyIndex, _, rfl, _⟩ := bodyPlace?_spec hTop
  have hNone : ∀ place ∈ tree.places, ¬ (owner ++ [bodyIndex] <+: place ∧
      place ≠ owner ++ [bodyIndex] ∧ tree.nearestFunction? place = some owner) := by
    rintro place _ ⟨⟨below, rfl⟩, _, hNearest⟩
    rw [List.append_assoc, nearestFunction?_append_iff] at hNearest
    exact hNearest.2 [bodyIndex] (by simp) (List.prefix_append ..) hFunction
  unfold ownNesting
  rw [List.filter_eq_nil_iff.mpr fun place hPlace => by simpa using hNone place hPlace]
  rfl

end

/-! ## Main result -/

/-- The nesting that is measured for a function is the greatest one at the places that
belong to it, unless its body is a function with nesting in it. In this case it is the
nesting of the body. -/
theorem nesting_owned_iff (source : Source) (tree : SyntaxTree) (owner top : Place)
    (unit : FunctionUnit) (hUnit : tree.unitAt? source owner = some unit)
    (hTop : tree.bodyPlace? owner = some top) :
    unit.nesting = tree.ownNesting (if tree.FunctionAt top then top else owner) top ∧
      (unit.nesting = tree.ownNesting owner top ↔
        ¬ tree.FunctionAt top ∨ unit.nesting = 0) := by
  obtain ⟨_, _, body, _, hBody⟩ := bodyPlace?_spec hTop
  have hNesting : unit.nesting =
      tree.ownNesting (if tree.FunctionAt top then top else owner) top := by
    rw [(unitAt?_spec hUnit).2.2, hTop, Option.bind_some, hBody, ← nestingDepth_eq hTop hBody]
    rfl
  refine ⟨hNesting, ?_⟩
  by_cases hFunction : tree.FunctionAt top
  · rw [ownNesting_of_functionAt hTop hFunction]
    simp [hFunction]
  · -- without a function at the body, the two greatest depths are the same
    rw [if_neg hFunction] at hNesting
    simp [hFunction, hNesting]

theorem nesting_owned_iff_inner_arrow :
    ∃ unit, arrowChain.unitAt? arrowChainSource [0, 0, 2] = some unit ∧
      unit.nesting = arrowChain.ownNesting [0, 0, 2] [0, 0, 2, 2] := by
  have hBody : ¬ arrowChain.FunctionAt [0, 0, 2, 2] := by decide +kernel
  refine ⟨_, rfl, ?_⟩
  exact (nesting_owned_iff arrowChainSource arrowChain [0, 0, 2] [0, 0, 2, 2] _ rfl rfl).2.mpr
    (Or.inl hBody)

/-- The branch in the inner function of a chain is measured for the outer one. -/
theorem nesting_outer_arrow :
    ∃ unit, arrowChain.unitAt? arrowChainSource [0, 0] = some unit ∧
      arrowChain.bodyPlace? [0, 0] = some [0, 0, 2] ∧
      unit.nesting ≠ arrowChain.ownNesting [0, 0] [0, 0, 2] :=
  ⟨_, rfl, rfl, by decide +kernel⟩

end DebtGauge.SyntaxTree
