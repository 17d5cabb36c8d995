import DebtGauge.FunctionUnit.Measurement
import DebtGauge.Proofs.SyntaxTree.Place

/-!
# Which function a node belongs to

The functions of a tree may be nested. A node belongs to the nearest function around it,
and this is decided by the functions that stand at the places above its own. A walk that
starts in a function and stops at functions gets to the nodes that belong to this function,
and to no others.

Main definitions:

* `nearestFunction?`, `nearestAbove?` — the nearest function at or above a place, and the
  nearest one above it;
* `FreeTo` — no function stands on the way to a place;
* `unitAt?` — the measurements of the function at a place.

Main results:

* `nearestFunction?_eq_some_iff` — what makes a function the nearest one.
* `nearestFunction?_below_iff` — the nearest function of a place below one of its children
  is the function itself just if the way there is free of others.
* `reach?_iff_freeTo` — a walk that stops at functions gets to the places that are free.
* `functionUnits_eq_filterMap` — the measured functions are those of all places, in order.
-/

namespace DebtGauge.SyntaxTree

/-! ## Functions above a place -/

/-- A function stands at the place. -/
def FunctionAt (tree : SyntaxTree) (place : Place) : Prop :=
  ∃ found, tree.at? place = some found ∧ found.isFunction = true

instance (tree : SyntaxTree) (place : Place) : Decidable (tree.FunctionAt place) :=
  decidable_of_iff ((tree.at? place).any isFunction = true) (by
    rw [Option.any_eq_true]
    rfl)

theorem functionAt_append {tree child : SyntaxTree} {above : Place}
    (hChild : tree.at? above = some child) (below : Place) :
    tree.FunctionAt (above ++ below) ↔ child.FunctionAt below := by
  unfold FunctionAt
  rw [at?_append, hChild, Option.bind_some]

theorem functionAt_of_at? {tree found : SyntaxTree} {place : Place}
    (hFound : tree.at? place = some found) :
    tree.FunctionAt place ↔ found.isFunction = true := by
  unfold FunctionAt
  rw [hFound]
  exact ⟨fun ⟨_, hEq, h⟩ => Option.some.inj hEq ▸ h, fun h => ⟨found, rfl, h⟩⟩

/-- The nearest function at or above a place. -/
def nearestFunction? (tree : SyntaxTree) (place : Place) : Option Place :=
  (place.inits.filter fun above => tree.FunctionAt above).getLast?

/-- The nearest function above a place, whatever stands there itself. -/
def nearestAbove? (tree : SyntaxTree) (place : Place) : Option Place :=
  (place.inits.dropLast.filter fun above => tree.FunctionAt above).getLast?

theorem inits_concat (above : Place) (index : Nat) :
    (above ++ [index]).inits = above.inits ++ [above ++ [index]] := by
  rw [List.inits_append]
  rfl

theorem nearestFunction?_concat (tree : SyntaxTree) (above : Place) (index : Nat) :
    tree.nearestFunction? (above ++ [index]) =
      if tree.FunctionAt (above ++ [index]) then some (above ++ [index])
      else tree.nearestFunction? above := by
  unfold nearestFunction?
  rw [inits_concat, List.filter_append]
  by_cases h : tree.FunctionAt (above ++ [index])
  · rw [if_pos h, List.filter_cons_of_pos (by simpa using h), List.filter_nil,
      List.getLast?_concat]
  · rw [if_neg h, List.filter_cons_of_neg (by simpa using h), List.filter_nil, List.append_nil]

theorem nearestAbove?_nil (tree : SyntaxTree) : tree.nearestAbove? [] = none := rfl

theorem nearestAbove?_concat (tree : SyntaxTree) (above : Place) (index : Nat) :
    tree.nearestAbove? (above ++ [index]) = tree.nearestFunction? above := by
  unfold nearestAbove?
  rw [inits_concat, List.dropLast_concat]
  rfl

/-- At a place without a function of its own, the nearest function is above. -/
theorem nearestFunction?_eq_nearestAbove? {tree : SyntaxTree} {place : Place}
    (h : ¬ tree.FunctionAt place) : tree.nearestFunction? place = tree.nearestAbove? place := by
  rcases List.eq_nil_or_concat place with rfl | ⟨above, index, rfl⟩
  · rw [nearestAbove?_nil, nearestFunction?]
    simp [h]
  · rw [List.concat_eq_append] at *
    rw [nearestAbove?_concat, nearestFunction?_concat, if_neg h]

theorem nearestFunction?_spec {tree : SyntaxTree} {place owner : Place}
    (h : tree.nearestFunction? place = some owner) :
    owner <+: place ∧ tree.FunctionAt owner := by
  have hMem := List.mem_of_getLast? h
  rw [List.mem_filter, List.mem_inits, decide_eq_true_eq] at hMem
  exact hMem

/-- The nearest function of a place below a function is this one just if none is between. -/
theorem nearestFunction?_append_iff (tree : SyntaxTree) (owner below : Place) :
    tree.nearestFunction? (owner ++ below) = some owner ↔
      tree.FunctionAt owner ∧
        ∀ between, between ≠ [] → between <+: below → ¬ tree.FunctionAt (owner ++ between) := by
  induction below using List.reverseRecOn with
  | nil =>
    rw [List.append_nil]
    constructor
    · intro h
      refine ⟨(nearestFunction?_spec h).2, fun between hne hPrefix => ?_⟩
      exact absurd (List.prefix_nil.mp hPrefix) hne
    · rintro ⟨hFunction, _⟩
      rcases List.eq_nil_or_concat owner with rfl | ⟨above, index, rfl⟩
      · simp [nearestFunction?, hFunction]
      · rw [List.concat_eq_append] at *
        rw [nearestFunction?_concat, if_pos hFunction]
  | append_singleton below index ih =>
    -- the last step decides if it leads to a function, and the rest of the way if not
    rw [← List.append_assoc, nearestFunction?_concat]
    by_cases hLast : tree.FunctionAt (owner ++ below ++ [index])
    · rw [if_pos hLast]
      constructor
      · intro h
        have hLength := congrArg List.length (Option.some.inj h)
        simp only [List.length_append, List.length_singleton] at hLength
        omega
      · rintro ⟨_, hFree⟩
        rw [List.append_assoc] at hLast
        exact absurd hLast (hFree _ (by simp) (List.prefix_refl _))
    · rw [if_neg hLast, ih]
      refine and_congr_right fun _ => ⟨fun hFree between hne hPrefix => ?_, ?_⟩
      · rcases List.prefix_concat_iff.mp hPrefix with rfl | hPrefix
        · rwa [← List.append_assoc]
        · exact hFree between hne hPrefix
      · exact fun hFree between hne hPrefix =>
          hFree between hne (hPrefix.trans (List.prefix_append ..))

/-- The nearest function at or above a place is the one that all others there are above. -/
theorem nearestFunction?_eq_some_iff {tree : SyntaxTree} {place owner : Place} :
    tree.nearestFunction? place = some owner ↔
      owner <+: place ∧ tree.FunctionAt owner ∧
        ∀ other, other <+: place → tree.FunctionAt other → other <+: owner := by
  constructor
  · intro h
    obtain ⟨⟨below, rfl⟩, hOwner⟩ := nearestFunction?_spec h
    refine ⟨List.prefix_append .., hOwner, fun other hOther hFunction => ?_⟩
    have hFree := ((nearestFunction?_append_iff tree owner below).mp h).2
    rcases List.prefix_or_prefix_of_prefix hOther (List.prefix_append owner below) with h | h
    · exact h
    · -- a function below the nearest one would be nearer
      obtain ⟨between, rfl⟩ := h
      by_cases hne : between = []
      · rw [hne, List.append_nil]
      · have hBetween := (List.prefix_append_right_inj owner).mp hOther
        exact absurd hFunction (hFree between hne hBetween)
  · rintro ⟨⟨below, rfl⟩, hOwner, hAbove⟩
    refine (nearestFunction?_append_iff tree owner below).mpr ⟨hOwner, ?_⟩
    intro between hne hPrefix hFunction
    have hPlace := (List.prefix_append_right_inj owner).mpr hPrefix
    have hLonger := (hAbove _ hPlace hFunction).length_le
    rw [List.length_append] at hLonger
    exact hne (List.length_eq_zero_iff.mp (by omega))

/-! ## The way from a function to a node -/

/-- No function stands at a place or above it. -/
def FreeTo (tree : SyntaxTree) (place : Place) : Prop :=
  ∀ above, above <+: place → ¬ tree.FunctionAt above

theorem freeTo_nil_iff (tree : SyntaxTree) : tree.FreeTo [] ↔ tree.isFunction = false := by
  unfold FreeTo
  simp [functionAt_of_at? (rfl : tree.at? [] = some tree)]

theorem freeTo_cons_iff {tree child : SyntaxTree} {index : Nat} {place : Place}
    (hChild : tree.children[index]? = some child) :
    tree.FreeTo (index :: place) ↔ tree.isFunction = false ∧ child.FreeTo place := by
  have hAt : tree.at? [index] = some child := by
    rw [at?, hChild]
    rfl
  constructor
  · intro hFree
    refine ⟨?_, fun above hAbove => ?_⟩
    · exact (freeTo_nil_iff tree).mp fun above hAbove =>
        hFree above (hAbove.trans (List.nil_prefix ..))
    · rw [← functionAt_append hAt]
      exact hFree (index :: above) (List.cons_prefix_cons.mpr ⟨rfl, hAbove⟩)
  · rintro ⟨hRoot, hFree⟩ above hAbove
    rcases List.prefix_cons_iff.mp hAbove with rfl | ⟨rest, rfl, hRest⟩
    · exact (freeTo_nil_iff tree).mpr hRoot [] (List.prefix_refl _)
    · have hBelow := hFree rest hRest
      rwa [← functionAt_append hAt] at hBelow

/-- The nearest function of a place below a child of a function is this function just if
the way from the child is free. -/
theorem nearestFunction?_below_iff {tree child : SyntaxTree} {owner : Place} {index : Nat}
    (hOwner : tree.FunctionAt owner) (hChild : tree.at? (owner ++ [index]) = some child)
    (below : Place) :
    tree.nearestFunction? (owner ++ index :: below) = some owner ↔ child.FreeTo below := by
  rw [nearestFunction?_append_iff]
  constructor
  · rintro ⟨_, hFree⟩ above hAbove
    rw [← functionAt_append hChild, List.append_assoc]
    exact hFree (index :: above) (by simp) (List.cons_prefix_cons.mpr ⟨rfl, hAbove⟩)
  · intro hFree
    refine ⟨hOwner, fun between hne hPrefix => ?_⟩
    rcases List.prefix_cons_iff.mp hPrefix with rfl | ⟨rest, rfl, hRest⟩
    · exact absurd rfl hne
    · have hBelow := hFree rest hRest
      rwa [← functionAt_append hChild, List.append_assoc] at hBelow

/-- A walk that stops at functions gets to the nodes that are free, and to the functions
that it stops at. -/
theorem reach?_iff_freeTo {ι : Type} {guide : Guide ι}
    (hStop : ∀ tree handed, guide tree handed = none ↔ tree.isFunction = true)
    {tree found : SyntaxTree} {handed : ι} {place : Place} :
    (∃ handed', tree.reach? guide handed place = some (found, handed')) ∧
        found.isFunction = false ↔
      tree.at? place = some found ∧ tree.FreeTo place := by
  induction place generalizing tree handed with
  | nil =>
    rw [freeTo_nil_iff, reach?, at?]
    constructor
    · rintro ⟨⟨_, hEq⟩, hFound⟩
      obtain ⟨rfl, _⟩ := Prod.mk.inj (Option.some.inj hEq)
      exact ⟨rfl, hFound⟩
    · rintro ⟨hEq, hFree⟩
      obtain rfl := Option.some.inj hEq
      exact ⟨⟨handed, rfl⟩, hFree⟩
  | cons index place ih =>
    rw [reach?, at?]
    cases hChild : tree.children[index]? with
    | none => simp
    | some child =>
      rw [freeTo_cons_iff hChild]
      cases hGuide : guide tree handed with
      | none =>
        -- the walk stops above the place, and so does a free way
        have hFunction := (hStop tree handed).mp hGuide
        simp [hFunction]
      | some below =>
        have hPass : tree.isFunction = false := by
          rw [← Bool.not_eq_true, ← hStop tree handed, hGuide]
          simp
        simp only [Option.bind_some, hPass, true_and]
        exact ih

/-! ## Bodies -/

/-- The number of the child that is the body. -/
def bodyIndex? (tree : SyntaxTree) : Option Nat :=
  tree.children.findIdx? (·.info.field = some "body")

/-- The place of the body of the function at a place. -/
def bodyPlace? (tree : SyntaxTree) (owner : Place) : Option Place :=
  (((tree.at? owner).filter isFunction).bind bodyIndex?).map fun index => owner ++ [index]

theorem body?_eq_bind (tree : SyntaxTree) :
    tree.body? = tree.bodyIndex?.bind fun index => tree.children[index]? :=
  List.find?_eq_bind_findIdx?_getElem?

/-- A body is a child of a function. -/
theorem bodyPlace?_spec {tree : SyntaxTree} {owner top : Place}
    (hTop : tree.bodyPlace? owner = some top) :
    tree.FunctionAt owner ∧ ∃ index body, top = owner ++ [index] ∧ tree.at? top = some body := by
  rw [bodyPlace?, Option.map_eq_some_iff] at hTop
  obtain ⟨index, hIndex, rfl⟩ := hTop
  obtain ⟨found, hFound, hIndex⟩ := Option.bind_eq_some_iff.mp hIndex
  obtain ⟨hFound, hFunction⟩ := Option.filter_eq_some_iff.mp hFound
  obtain ⟨hLess, _⟩ := List.findIdx?_eq_some_iff_getElem.mp hIndex
  exact ⟨⟨found, hFound, hFunction⟩, index, found.children[index], rfl,
    at?_concat hFound (List.getElem?_eq_getElem hLess)⟩

/-- The body of a function is the subtree at the place of the body. -/
theorem body?_eq_bind_bodyPlace? {tree found : SyntaxTree} {owner : Place}
    (hFound : tree.at? owner = some found) (hFunction : found.isFunction = true) :
    found.body? = (tree.bodyPlace? owner).bind tree.at? := by
  rw [bodyPlace?, hFound, Option.filter_some, if_pos hFunction, Option.bind_some,
    Option.bind_map, body?_eq_bind]
  congr 1
  funext index
  show _ = tree.at? (owner ++ [index])
  rw [at?_append, hFound, Option.bind_some, at?]
  cases found.children[index]? <;> rfl

/-! ## Measured functions -/

/-- The measurements of the function at a place. -/
def unitAt? (source : Source) (tree : SyntaxTree) (place : Place) : Option FunctionUnit :=
  ((tree.reach? withParent none place).filter (·.1.isFunction)).bind fun (found, parent) =>
    (FunctionKind.ofNodeKind? found.kind).map fun kind =>
      FunctionUnit.measure source kind parent found

/-- The measured functions are those of all places, in source order. -/
theorem functionUnits_eq_filterMap (source : Source) (tree : SyntaxTree) :
    tree.functionUnits source = tree.places.filterMap (tree.unitAt? source) := by
  unfold functionUnits functions
  rw [visited_eq_filterMap, List.filter_filterMap, List.filterMap_filterMap]
  rfl

theorem isFunction_iff {tree : SyntaxTree} :
    tree.isFunction = true ↔ tree.info.isNamed = true ∧ tree.kind ∈ functionKinds := by
  rw [isFunction, Bool.and_eq_true, decide_eq_true_eq]

/-- Just the kinds of node that start a function have a kind of function. -/
theorem ofNodeKind?_isSome_iff (kind : String) :
    (FunctionKind.ofNodeKind? kind).isSome ↔ kind ∈ functionKinds := by
  rw [FunctionKind.ofNodeKind?, List.lookup_isSome_iff]
  simp [FunctionKind.ofNode, functionKinds]

theorem ofNodeKind?_isSome {tree : SyntaxTree} (h : tree.isFunction = true) :
    (FunctionKind.ofNodeKind? tree.kind).isSome :=
  (ofNodeKind?_isSome_iff tree.kind).mpr (isFunction_iff.mp h).2

/-- What is measured in the body of a function is measured in the subtree at its place. -/
theorem unitAt?_spec {source : Source} {tree : SyntaxTree} {owner : Place}
    {unit : FunctionUnit} (hUnit : tree.unitAt? source owner = some unit) :
    tree.FunctionAt owner ∧
      unit.cyclomatic = (((tree.bodyPlace? owner).bind tree.at?).map
        (·.cyclomaticComplexity source)).getD 1 ∧
      unit.nesting = (((tree.bodyPlace? owner).bind tree.at?).map (·.nestingDepth)).getD 0 := by
  rw [unitAt?, Option.bind_eq_some_iff] at hUnit
  obtain ⟨⟨found, parent⟩, hReach, hMeasure⟩ := hUnit
  obtain ⟨hReach, hFunction⟩ := Option.filter_eq_some_iff.mp hReach
  obtain ⟨kind, _, rfl⟩ := Option.map_eq_some_iff.mp hMeasure
  have hFound := at?_of_reach? hReach
  rw [← body?_eq_bind_bodyPlace? hFound hFunction]
  exact ⟨⟨found, hFound, hFunction⟩, rfl, rfl⟩

theorem unitAt?_isSome_iff (source : Source) {tree : SyntaxTree} {place : Place} :
    (tree.unitAt? source place).isSome ↔ tree.FunctionAt place := by
  constructor
  · intro hSome
    obtain ⟨unit, hUnit⟩ := Option.isSome_iff_exists.mp hSome
    exact (unitAt?_spec hUnit).1
  · rintro ⟨found, hFound, hFunction⟩
    have hMap := map_fst_reach? withParent (fun _ _ => rfl) tree none place
    rw [hFound, Option.map_eq_some_iff] at hMap
    obtain ⟨⟨_, parent⟩, hReach, rfl⟩ := hMap
    rw [unitAt?, hReach, Option.filter_some, if_pos hFunction, Option.bind_some,
      Option.isSome_map]
    exact ofNodeKind?_isSome hFunction

/-! ## A chain of arrows -/

/-- A node of a text on one line. -/
def lineNode (kind : String) (field : Option String) (isNamed : Bool) (start stop : Nat)
    (children : List SyntaxTree) : SyntaxTree :=
  node ⟨kind, field, isNamed, false, false, false, ⟨start, 0, start⟩, ⟨stop, 0, stop⟩⟩ children

/-- The text of `arrowChain`. -/
def arrowChainSource : Source := .ofString "x => y => \x7b if (y) \x7b \x7d \x7d"

/-- A function whose body is a function with a branch in it. -/
def arrowChain : SyntaxTree :=
  lineNode "program" none true 0 24
    [lineNode "expression_statement" none true 0 24
      [lineNode "arrow_function" none true 0 24
        [lineNode "identifier" "parameter" true 0 1 [],
         lineNode "=>" none false 2 4 [],
         lineNode "arrow_function" "body" true 5 24
          [lineNode "identifier" "parameter" true 5 6 [],
           lineNode "=>" none false 7 9 [],
           lineNode "statement_block" "body" true 10 24
            [lineNode "\x7b" none false 10 11 [],
             lineNode "if_statement" none true 12 22
              [lineNode "if" none false 12 14 [],
               lineNode "parenthesized_expression" "condition" true 15 18
                [lineNode "(" none false 15 16 [],
                 lineNode "identifier" none true 16 17 [],
                 lineNode ")" none false 17 18 []],
               lineNode "statement_block" "consequence" true 19 22
                [lineNode "\x7b" none false 19 20 [],
                 lineNode "\x7d" none false 21 22 []]],
             lineNode "\x7d" none false 23 24 []]]]]]

end DebtGauge.SyntaxTree
