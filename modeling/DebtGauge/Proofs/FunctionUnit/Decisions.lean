import DebtGauge.Proofs.FunctionUnit.Ownership
import DebtGauge.Proofs.Tally

/-!
# Decisions are counted once

The complexity of each function is counted in a walk of its own over its body. A decision
is counted in the walk of the nearest function around it, if it stands in the body of this
function, and in no other walk. So the complexities of all functions add up to the number
of decisions that are counted anywhere.

Main result:

* `decisions_conserved` — which function counts a decision, and what all counts add up to.
-/

namespace DebtGauge.SyntaxTree

variable (source : Source) (tree : SyntaxTree)

/-- A decision stands at the place. -/
def DecisionAt (place : Place) : Prop :=
  ∃ found, tree.at? place = some found ∧ found.isDecision source = true

/-- The place is that of the body of the function at `owner`, or below it. -/
def InBody (owner place : Place) : Prop :=
  ∃ top ∈ tree.bodyPlace? owner, top <+: place

/-- A decision in the body of the nearest function around it. -/
def OwnedDecision (place : Place) : Prop :=
  tree.DecisionAt source place ∧ ∃ owner ∈ tree.nearestAbove? place, tree.InBody owner place

instance (place : Place) : Decidable (tree.DecisionAt source place) :=
  decidable_of_iff ((tree.at? place).any (·.isDecision source) = true) (by
    rw [Option.any_eq_true]
    rfl)

instance (owner place : Place) : Decidable (tree.InBody owner place) :=
  inferInstanceAs (Decidable (∃ top ∈ tree.bodyPlace? owner, top <+: place))

instance (place : Place) : Decidable (tree.OwnedDecision source place) :=
  inferInstanceAs (Decidable (_ ∧ _))

/-- The places below a body at which the walk over it counts a decision. -/
def countedBelow (body : SyntaxTree) : List Place :=
  body.places.filter fun place =>
    (body.reach? ownNodes () place).any fun (found, _) =>
      !found.isFunction && found.isDecision source

/-- The places of the decisions that are counted for the function at `owner`. -/
def countedAt (owner : Place) : List Place :=
  (tree.bodyPlace? owner).elim [] fun top =>
    ((tree.at? top).elim [] (countedBelow source)).map (top ++ ·)

/-! ## The decisions that a walk counts -/

/-- The kinds of decisions and of functions are different. -/
theorem isFunction_of_isDecision {found : SyntaxTree} (h : found.isDecision source = true) :
    found.isFunction = false := by
  have hKinds : ∀ kind ∈ "binary_expression" :: decisionKinds, kind ∉ functionKinds := by
    decide +kernel
  have hKind : found.kind ∈ "binary_expression" :: decisionKinds := by
    rcases Bool.or_eq_true_iff.mp h with hListed | hShort
    · exact List.mem_cons_of_mem _ (of_decide_eq_true hListed)
    · have hBinary := of_decide_eq_true (Bool.and_eq_true_iff.mp hShort).1
      exact hBinary ▸ List.mem_cons_self ..
  rw [isFunction, decide_eq_false (hKinds _ hKind), Bool.and_false]

theorem ownNodes_stops (found : SyntaxTree) (handed : Unit) :
    ownNodes found handed = none ↔ found.isFunction = true := by
  unfold ownNodes
  split <;> simp_all

/-- A walk over a body counts the decisions on whose way no function stands. -/
theorem mem_countedBelow {body : SyntaxTree} {place : Place} :
    place ∈ countedBelow source body ↔ body.DecisionAt source place ∧ body.FreeTo place := by
  unfold countedBelow
  rw [List.mem_filter, Option.any_eq_true]
  constructor
  · rintro ⟨_, ⟨found, handed⟩, hReach, hCounts⟩
    obtain ⟨hFunction, hDecision⟩ := Bool.and_eq_true_iff.mp hCounts
    rw [Bool.not_eq_true'] at hFunction
    obtain ⟨hFound, hFree⟩ := (reach?_iff_freeTo ownNodes_stops).mp ⟨⟨handed, hReach⟩, hFunction⟩
    exact ⟨⟨found, hFound, hDecision⟩, hFree⟩
  · rintro ⟨⟨found, hFound, hDecision⟩, hFree⟩
    have hReached : (∃ handed, body.reach? ownNodes () place = some (found, handed)) ∧
        found.isFunction = false := (reach?_iff_freeTo ownNodes_stops).mpr ⟨hFound, hFree⟩
    obtain ⟨⟨handed, hReach⟩, hFunction⟩ := hReached
    refine ⟨mem_places_of_at? hFound, ⟨found, handed⟩, hReach, ?_⟩
    exact Bool.and_eq_true_iff.mpr ⟨Bool.not_eq_true' _ ▸ hFunction, hDecision⟩

/-- The counted decisions are those at the places that were found. -/
theorem map_some_ownDecisions (body : SyntaxTree) :
    (body.ownDecisions source).map some = (countedBelow source body).map body.at? := by
  unfold ownDecisions countedBelow
  rw [visited_eq_filterMap]
  induction body.places with
  | nil => rfl
  | cons place places ih =>
    rw [List.filter_cons]
    cases hReach : body.reach? ownNodes () place with
    | none =>
      rw [List.filterMap_cons_none hReach, Option.any_none, if_neg Bool.false_ne_true, ih]
    | some entry =>
      rw [List.filterMap_cons_some hReach, List.map_cons, List.filter_cons, Option.any_some]
      by_cases hCounts : (!entry.1.isFunction && entry.1.isDecision source) = true
      · rw [if_pos hCounts, if_pos hCounts, List.map_cons, List.map_cons, ih,
          at?_of_reach? hReach]
      · rw [if_neg hCounts, if_neg hCounts, ih]

theorem length_countedBelow (body : SyntaxTree) :
    (countedBelow source body).length = (body.ownDecisions source).length := by
  have hLength := congrArg List.length (map_some_ownDecisions source body)
  rw [List.length_map, List.length_map] at hLength
  exact hLength.symm

/-! ## The function that counts a decision -/

variable {source tree}

theorem countedAt_eq {owner top : Place} {body : SyntaxTree}
    (hTop : tree.bodyPlace? owner = some top) (hBody : tree.at? top = some body) :
    tree.countedAt source owner = (countedBelow source body).map (top ++ ·) := by
  rw [countedAt, hTop, Option.elim_some, hBody, Option.elim_some]

/-- Without a body nothing is counted. -/
theorem countedAt_eq_nil {owner : Place} (hTop : tree.bodyPlace? owner = none) :
    tree.countedAt source owner = [] := by
  rw [countedAt, hTop, Option.elim_none]

/-- A decision is counted for the nearest function above it if it stands in its body. -/
theorem mem_countedAt {owner place : Place} :
    place ∈ tree.countedAt source owner ↔
      tree.DecisionAt source place ∧ tree.nearestAbove? place = some owner ∧
        tree.InBody owner place := by
  constructor
  · intro hCounted
    cases hTop : tree.bodyPlace? owner with
    | none =>
      rw [countedAt_eq_nil hTop] at hCounted
      simp at hCounted
    | some top =>
      obtain ⟨hOwner, index, body, rfl, hBody⟩ := bodyPlace?_spec hTop
      rw [countedAt_eq hTop hBody, List.mem_map] at hCounted
      obtain ⟨below, hBelow, rfl⟩ := hCounted
      obtain ⟨⟨found, hFound, hDecision⟩, hFree⟩ := (mem_countedBelow source).mp hBelow
      have hAt : tree.at? (owner ++ [index] ++ below) = some found := by
        rw [at?_append, hBody, Option.bind_some, hFound]
      refine ⟨⟨found, hAt, hDecision⟩, ?_, _, hTop, List.prefix_append ..⟩
      -- a decision is no function, so the search may as well start at its own place
      rw [← nearestFunction?_eq_nearestAbove? (by
        rw [functionAt_of_at? hAt, isFunction_of_isDecision source hDecision]
        exact Bool.false_ne_true), List.append_assoc]
      exact (nearestFunction?_below_iff hOwner hBody below).mpr hFree
  · rintro ⟨⟨found, hFound, hDecision⟩, hNearest, top, hTop, below, rfl⟩
    obtain ⟨hOwner, index, body, rfl, hBody⟩ := bodyPlace?_spec hTop
    rw [countedAt_eq hTop hBody, List.mem_map]
    refine ⟨below, (mem_countedBelow source).mpr ⟨⟨found, ?_, hDecision⟩, ?_⟩, rfl⟩
    · rw [at?_append, hBody, Option.bind_some] at hFound
      exact hFound
    · rw [← nearestFunction?_eq_nearestAbove? (by
        rw [functionAt_of_at? hFound, isFunction_of_isDecision source hDecision]
        exact Bool.false_ne_true), List.append_assoc] at hNearest
      exact (nearestFunction?_below_iff hOwner hBody below).mp hNearest

theorem nodup_countedAt (owner : Place) : (tree.countedAt source owner).Nodup := by
  cases hTop : tree.bodyPlace? owner with
  | none =>
    rw [countedAt_eq_nil hTop]
    exact List.nodup_nil
  | some top =>
    obtain ⟨_, _, body, _, hBody⟩ := bodyPlace?_spec hTop
    rw [countedAt_eq hTop hBody]
    exact ((nodup_places body).filter _).map (List.append_right_injective top)

/-- The complexity of a function is one more than the number of its decisions. -/
theorem cyclomatic_eq {owner : Place} {unit : FunctionUnit}
    (hUnit : tree.unitAt? source owner = some unit) :
    unit.cyclomatic = (tree.countedAt source owner).length + 1 := by
  rw [(unitAt?_spec hUnit).2.1]
  cases hTop : tree.bodyPlace? owner with
  | none =>
    rw [countedAt_eq_nil hTop]
    rfl
  | some top =>
    obtain ⟨_, _, body, _, hBody⟩ := bodyPlace?_spec hTop
    rw [countedAt_eq hTop hBody, List.length_map, length_countedBelow, Option.bind_some, hBody]
    rfl

/-- The decisions that a walk over the body lists are those at the counted places. -/
theorem map_some_ownDecisions_body {owner : Place} {body : SyntaxTree}
    (hBody : (tree.bodyPlace? owner).bind tree.at? = some body) :
    (body.ownDecisions source).map some = (tree.countedAt source owner).map tree.at? := by
  obtain ⟨top, hTop, hBody⟩ := Option.bind_eq_some_iff.mp hBody
  rw [countedAt_eq hTop hBody, List.map_map, map_some_ownDecisions]
  refine List.map_congr_left fun below _ => ?_
  rw [Function.comp_apply, at?_append, hBody, Option.bind_some]

theorem bodyPlace?_of_not_functionAt {owner : Place} (h : ¬ tree.FunctionAt owner) :
    tree.bodyPlace? owner = none := by
  rw [Option.eq_none_iff_forall_ne_some]
  exact fun top hTop => h (bodyPlace?_spec hTop).1

/-! ## What all counts add up to -/

/-- A place is counted for a function just if it is one of the places of the tree. -/
theorem length_countedAt (owner : Place) :
    (tree.countedAt source owner).length =
      tree.places.countP fun place => place ∈ tree.countedAt source owner := by
  rw [List.countP_eq_length_filter]
  refine ((List.perm_ext_iff_of_nodup (nodup_countedAt owner)
    ((nodup_places tree).filter _)).mpr fun place => ?_).length_eq
  rw [List.mem_filter, decide_eq_true_eq]
  refine ⟨fun hCounted => ⟨?_, hCounted⟩, fun h => h.2⟩
  obtain ⟨⟨found, hFound, _⟩, _⟩ := mem_countedAt.mp hCounted
  exact mem_places_of_at? hFound

/-- What is counted for any function is what is in the body of the nearest one. -/
theorem any_mem_countedAt (place : Place) :
    tree.places.any (fun owner => place ∈ tree.countedAt source owner) = true ↔
      tree.OwnedDecision source place := by
  rw [List.any_eq_true]
  constructor
  · rintro ⟨owner, _, hCounted⟩
    obtain ⟨hDecision, hNearest, hBody⟩ := mem_countedAt.mp (of_decide_eq_true hCounted)
    exact ⟨hDecision, owner, hNearest, hBody⟩
  · rintro ⟨hDecision, owner, hNearest, hBody⟩
    obtain ⟨top, hTop, hPrefix⟩ := hBody
    obtain ⟨⟨found, hFound, _⟩, _⟩ := bodyPlace?_spec hTop
    refine ⟨owner, mem_places_of_at? hFound, decide_eq_true ?_⟩
    exact mem_countedAt.mpr ⟨hDecision, hNearest, top, hTop, hPrefix⟩

theorem countedAt_unique {place owner owner' : Place}
    (h : place ∈ tree.countedAt source owner) (h' : place ∈ tree.countedAt source owner') :
    owner = owner' := by
  have hNearest := (mem_countedAt.mp h).2.1
  rw [(mem_countedAt.mp h').2.1] at hNearest
  exact (Option.some.inj hNearest).symm

theorem tally_cyclomatic (source : Source) (tree : SyntaxTree) :
    tally (·.cyclomatic - 1) (tree.functionUnits source) =
      tree.places.countP fun place => tree.OwnedDecision source place := by
  have hUnits : ∀ owner, ((tree.unitAt? source owner).elim 0 (·.cyclomatic - 1)) =
      (tree.countedAt source owner).length := by
    intro owner
    cases hUnit : tree.unitAt? source owner with
    | none =>
      have hNone : ¬ tree.FunctionAt owner := by
        rw [← unitAt?_isSome_iff source, hUnit]
        simp
      rw [countedAt_eq_nil (bodyPlace?_of_not_functionAt hNone)]
      rfl
    | some unit =>
      rw [Option.elim_some, cyclomatic_eq hUnit, Nat.add_sub_cancel]
  calc tally (·.cyclomatic - 1) (tree.functionUnits source)
      = tally (fun owner => (tree.countedAt source owner).length) tree.places := by
        rw [functionUnits_eq_filterMap, tally_filterMap]
        simp only [hUnits]
    _ = tally (fun owner => tree.places.countP fun place =>
          place ∈ tree.countedAt source owner) tree.places := by
        simp only [length_countedAt]
    _ = tree.places.countP fun place =>
          tree.places.any fun owner => place ∈ tree.countedAt source owner := by
        refine tally_countP_owned (fun owner place => place ∈ tree.countedAt source owner)
          ?_ tree.places (nodup_places tree)
        exact fun place owner owner' h h' =>
          countedAt_unique (of_decide_eq_true h) (of_decide_eq_true h')
    _ = tree.places.countP fun place => tree.OwnedDecision source place := by
        refine List.countP_congr fun place _ => ?_
        rw [any_mem_countedAt, decide_eq_true_eq]

/-- Each function counts the decisions in its body of which it is the nearest function, each
of them once. No decision is counted for two functions, and the complexities, less one for
each function, add up to the number of decisions in the body of their nearest function. -/
theorem decisions_conserved (source : Source) (tree : SyntaxTree) :
    (∀ owner unit, tree.unitAt? source owner = some unit →
      unit.cyclomatic = (tree.countedAt source owner).length + 1 ∧
        (tree.bodyPlace? owner = none → unit.cyclomatic = 1) ∧
        (∀ body, (tree.bodyPlace? owner).bind tree.at? = some body →
          (body.ownDecisions source).map some = (tree.countedAt source owner).map tree.at?) ∧
        (tree.countedAt source owner).Nodup ∧
        ∀ place, place ∈ tree.countedAt source owner ↔
          tree.DecisionAt source place ∧ tree.nearestAbove? place = some owner ∧
            tree.InBody owner place) ∧
      (∀ place owner owner', place ∈ tree.countedAt source owner →
        place ∈ tree.countedAt source owner' → owner = owner') ∧
      tally (·.cyclomatic - 1) (tree.functionUnits source) =
        tree.places.countP fun place => tree.OwnedDecision source place := by
  refine ⟨fun owner unit hUnit => ⟨?_, ?_, ?_, ?_, ?_⟩, ?_, ?_⟩
  · exact cyclomatic_eq hUnit
  · intro hTop
    rw [cyclomatic_eq hUnit, countedAt_eq_nil hTop]
    rfl
  · exact fun body => map_some_ownDecisions_body
  · exact nodup_countedAt owner
  · exact fun place => mem_countedAt
  · exact fun place owner owner' => countedAt_unique
  · exact tally_cyclomatic source tree

theorem decisions_conserved_inner_arrow :
    ∃ unit, arrowChain.unitAt? arrowChainSource [0, 0, 2] = some unit ∧
      unit.cyclomatic = (arrowChain.countedAt arrowChainSource [0, 0, 2]).length + 1 ∧
      [0, 0, 2, 2, 1] ∈ arrowChain.countedAt arrowChainSource [0, 0, 2] := by
  have hInner := (decisions_conserved arrowChainSource arrowChain).1 [0, 0, 2] _ rfl
  refine ⟨_, rfl, hInner.1, (hInner.2.2.2.2 [0, 0, 2, 2, 1]).mpr ?_⟩
  decide +kernel

end DebtGauge.SyntaxTree
