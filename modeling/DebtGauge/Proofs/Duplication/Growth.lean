import DebtGauge.Proofs.Duplication.Duplicates

/-!
# Later blocks add to the groups

Whether an item is absorbed, and by which one, depends on the items up to it. So items that are
added behind others leave the groups of those in place: a group only gains followers, and these
come from the new items.

Main definitions and results:

* `absorbed_append_iff`, `leader?_append` — an earlier item is absorbed as before;
* `followers_append` — the followers of an item, and those that it gains;
* `DuplicateDetector.placedGroups` — the groups of a detector, by the places of its blocks;
* `DuplicateDetector.later_blocks_extend_groups` — what further blocks do to the groups.
-/

namespace DebtGauge

/-- A group without the places from `bound` on. -/
def Group.below (bound : Nat) (group : Group Nat) : Group Nat :=
  ⟨group.leader, group.absorbed.filter (· < bound)⟩

/-! ## Places -/

section Places

variable {α : Type} {near : α → α → Bool} {items : List α} (later : List α)

theorem nearAt_append {i j : Nat} (hi : i < items.length) (hj : j < items.length) :
    nearAt near (items ++ later) i j = nearAt near items i j := by
  rw [nearAt, nearAt, List.getElem?_append_left hi, List.getElem?_append_left hj]

/-- Whether an earlier item is near one of those before it that stand, does not depend on the
later items. -/
theorem any_standing_append {n : Nat} (h : n < items.length) :
    (standing near items n).any (nearAt near (items ++ later) · n) =
      (standing near items n).any (nearAt near items · n) := by
  rw [Bool.eq_iff_iff, List.any_eq_true, List.any_eq_true]
  refine exists_congr fun i => and_congr_right fun hi => ?_
  rw [nearAt_append later ((mem_standing.mp hi).1.trans h) h]

/-- Up to a place among the earlier items, the same ones stand. -/
theorem standing_append {n : Nat} (h : n ≤ items.length) :
    standing near (items ++ later) n = standing near items n := by
  induction n with
  | zero => rfl
  | succ n ih => rw [standing, standing, ih (Nat.le_of_succ_le h), any_standing_append later h]

/-- An earlier item is absorbed just if it was before. -/
theorem absorbed_append_iff {j : Nat} (h : j < items.length) :
    Absorbed near (items ++ later) j ↔ Absorbed near items j := by
  unfold Absorbed
  rw [standing_append later h.le, ← List.any_eq_true, any_standing_append later h,
    List.any_eq_true]

/-- An item is absorbed by the same one, whatever comes later. -/
theorem leader?_append {j : Nat} (h : j < items.length) :
    leader? near (items ++ later) j = leader? near items j := by
  rw [leader?, leader?, standing_append later h.le]
  refine List.find?_congr fun i hi => ?_
  exact nearAt_append later ((mem_standing.mp hi).1.trans h) h

/-- The followers that an item gains are later items. -/
theorem followers_append (i : Nat) :
    followers near (items ++ later) i = followers near items i ++
      (List.range' items.length later.length).filter fun j =>
        leader? near (items ++ later) j = some i := by
  have hRange : List.range (items ++ later).length =
      List.range items.length ++ List.range' items.length later.length := by
    rw [List.length_append, List.range_eq_range', List.range_eq_range', ← List.range'_append_1,
      Nat.zero_add]
  rw [followers, hRange, List.filter_append, followers]
  congr 1
  refine List.filter_congr fun j hj => ?_
  rw [leader?_append later (List.mem_range.mp hj)]

end Places

namespace DuplicateDetector

/-! ## Groups by places -/

/-- A detector with further blocks behind its own. -/
def extend (detector : DuplicateDetector) (later : List CodeBlock) : DuplicateDetector :=
  ⟨detector.blocks ++ later⟩

/-- The groups by places: where the leader of each is, and where the blocks that it absorbs
are. -/
def placedGroups (detector : DuplicateDetector) : List (Group Nat) :=
  detector.leadingBlocks.map fun i => ⟨i, detector.followersOf i⟩

/-- Of the blocks that are not absorbed, the one at `i` is the first that is a near duplicate of
the one at `j` and comes before it. -/
structure IsFirstMatch (detector : DuplicateDetector) (i j : Nat) : Prop where
  lt : i < j
  stands : ¬ detector.AbsorbedAt i
  similar : detector.SimilarAt i j
  first : ∀ k < i, ¬ detector.AbsorbedAt k → ¬ detector.SimilarAt k j

variable (detector : DuplicateDetector) (later : List CodeBlock)

/-- The groups of a detector are what stands at their places. -/
theorem map_some_groups : detector.groups.map (Group.map some) =
    detector.placedGroups.map (Group.map fun i => detector.blocks[i]?) := by
  unfold placedGroups
  rw [List.map_map]
  exact greedyGroups_map_some CodeBlock.isDuplicate detector.blocks

variable {detector}

/-- A block follows its first match. -/
theorem mem_followersOf_iff_isFirstMatch {i j : Nat} :
    j ∈ detector.followersOf i ↔ detector.IsFirstMatch i j := by
  rw [mem_followersOf]
  constructor
  · rintro ⟨⟨hLess, hStands, hSimilar⟩, hFirst⟩
    exact ⟨hLess, hStands, hSimilar, hFirst⟩
  · rintro ⟨hLess, hStands, hSimilar, hFirst⟩
    exact ⟨⟨hLess, hStands, hSimilar⟩, hFirst⟩

theorem lt_count_of_mem_followersOf {i j : Nat} (h : j ∈ detector.followersOf i) :
    j < detector.count :=
  List.mem_range.mp (List.mem_of_mem_filter h)

/-- The blocks that lead a group are those that have followers, since such a block is not
absorbed. -/
theorem leadingBlocks_eq_filter :
    detector.leadingBlocks =
      (List.range detector.count).filter fun i => detector.followersOf i ≠ [] := by
  refine List.filter_congr fun i _ => ?_
  rw [decide_eq_decide]
  refine and_iff_right_of_imp fun hFollowers => ?_
  obtain ⟨j, hj⟩ := List.exists_mem_of_ne_nil _ hFollowers
  exact (mem_followersOf_iff_isFirstMatch.mp hj).stands

theorem followersOf_eq_nil {i : Nat} (h : detector.count ≤ i) : detector.followersOf i = [] := by
  rw [List.eq_nil_iff_forall_not_mem]
  intro j hj
  have hLess := (mem_followersOf_iff_isFirstMatch.mp hj).lt
  have hCount := lt_count_of_mem_followersOf hj
  omega

/-! ## Further blocks -/

variable (detector)

theorem count_extend : (detector.extend later).count = detector.count + later.length :=
  List.length_append

/-- Behind the followers that a block has come those that it gains. -/
theorem exists_followersOf_extend (i : Nat) :
    ∃ more : List Nat, (detector.extend later).followersOf i = detector.followersOf i ++ more ∧
      more.Nodup ∧ ∀ j, j ∈ more ↔ detector.count ≤ j ∧ (detector.extend later).IsFirstMatch i j := by
  refine ⟨_, followers_append later i, (List.nodup_range' ..).filter _, fun j => ?_⟩
  rw [← mem_followersOf_iff_isFirstMatch, List.mem_filter, decide_eq_true_eq, List.mem_range'_1]
  constructor
  · rintro ⟨⟨hLater, -⟩, hLeader⟩
    exact ⟨hLater, mem_followers.mpr hLeader⟩
  · rintro ⟨hLater, hFollows⟩
    have hLess := lt_count_of_mem_followersOf hFollows
    rw [count_extend] at hLess
    exact ⟨⟨hLater, hLess⟩, mem_followers.mp hFollows⟩

/-- Of the followers of a block in the longer run, those that are old were there before. -/
theorem filter_followersOf_extend (i : Nat) :
    ((detector.extend later).followersOf i).filter (· < detector.count) =
      detector.followersOf i := by
  obtain ⟨more, hFollowers, -, hMore⟩ := detector.exists_followersOf_extend later i
  have hOld : (detector.followersOf i).filter (· < detector.count) = detector.followersOf i :=
    List.filter_eq_self.mpr fun j hj => decide_eq_true (lt_count_of_mem_followersOf hj)
  have hNew : more.filter (· < detector.count) = [] := by
    rw [List.filter_eq_nil_iff]
    intro j hj hLess
    exact absurd (of_decide_eq_true hLess) (Nat.not_lt.mpr ((hMore j).mp hj).1)
  rw [hFollowers, List.filter_append, hOld, hNew, List.append_nil]

theorem mem_followersOf_extend_iff (i : Nat) {j : Nat} (h : j < detector.count) :
    j ∈ (detector.extend later).followersOf i ↔ j ∈ detector.followersOf i := by
  rw [← detector.filter_followersOf_extend later i, List.mem_filter, decide_eq_true_eq,
    and_iff_left h]

theorem followersOf_extend_ne_nil {i : Nat} (h : detector.followersOf i ≠ []) :
    (detector.extend later).followersOf i ≠ [] := by
  obtain ⟨more, hFollowers, -⟩ := detector.exists_followersOf_extend later i
  rw [hFollowers]
  exact List.append_ne_nil_of_left_ne_nil h more

/-- The blocks that have followers among the old ones are the old leaders. -/
theorem filter_leadingBlocks_extend :
    (detector.extend later).leadingBlocks.filter (fun i => detector.followersOf i ≠ []) =
      detector.leadingBlocks := by
  have hNew : (List.range' detector.count later.length).filter
      (fun i => detector.followersOf i ≠ []) = [] := by
    rw [List.filter_eq_nil_iff]
    intro i hi
    simp [followersOf_eq_nil (List.mem_range'_1.mp hi).1]
  calc (detector.extend later).leadingBlocks.filter (fun i => detector.followersOf i ≠ [])
      = (List.range (detector.count + later.length)).filter
          fun i => detector.followersOf i ≠ [] := by
        rw [leadingBlocks_eq_filter, List.filter_filter, count_extend]
        refine List.filter_congr fun i _ => ?_
        have hGain := detector.followersOf_extend_ne_nil later (i := i)
        simpa using hGain
    _ = detector.leadingBlocks := by
        rw [List.range_eq_range', ← List.range'_append_1, Nat.zero_add, List.filter_append, hNew,
          List.append_nil, ← List.range_eq_range', leadingBlocks_eq_filter]

/-- Restricted to the old places, the groups of the longer run are those of the old one. -/
theorem filter_below_placedGroups_extend :
    ((detector.extend later).placedGroups.map (Group.below detector.count)).filter
      (!·.absorbed.isEmpty) = detector.placedGroups := by
  have hBelow : Group.below detector.count ∘
      (fun i => (⟨i, (detector.extend later).followersOf i⟩ : Group Nat)) =
      fun i => ⟨i, detector.followersOf i⟩ := by
    funext i
    exact congrArg (Group.mk i) (detector.filter_followersOf_extend later i)
  have hEmpty : (fun group : Group Nat => !group.absorbed.isEmpty) ∘
      (fun i => ⟨i, detector.followersOf i⟩) = fun i => decide (detector.followersOf i ≠ []) := by
    funext i
    rw [Function.comp_apply]
    cases detector.followersOf i <;> rfl
  unfold placedGroups
  rw [List.map_map, hBelow, List.filter_map, hEmpty, detector.filter_leadingBlocks_extend later]

/-! ## Main result -/

/-- Blocks that come later add to the groups of the blocks before them and change nothing else.
The groups that a detector finds are given by their places. Restricted to the old places, those
of the longer run are the old ones: an old block is absorbed just if it was, and by the same
block. An old leader still leads and loses no follower, and an old block gains just those of the
new ones of which it is the first match. -/
theorem later_blocks_extend_groups (detector : DuplicateDetector) (later : List CodeBlock) :
    detector.groups.map (Group.map some) =
        detector.placedGroups.map (Group.map fun i => detector.blocks[i]?) ∧
      (detector.extend later).groups.map (Group.map some) =
        (detector.extend later).placedGroups.map
          (Group.map fun i => (detector.extend later).blocks[i]?) ∧
      ((detector.extend later).placedGroups.map (Group.below detector.count)).filter
        (!·.absorbed.isEmpty) = detector.placedGroups ∧
      (∀ j < detector.count,
        ((detector.extend later).AbsorbedAt j ↔ detector.AbsorbedAt j) ∧
          ∀ i, j ∈ (detector.extend later).followersOf i ↔ j ∈ detector.followersOf i) ∧
      (∀ i ∈ detector.leadingBlocks, i ∈ (detector.extend later).leadingBlocks ∧
        (detector.followersOf i).length ≤ ((detector.extend later).followersOf i).length) ∧
      ∀ i < detector.count, ∃ more : List Nat,
        (detector.extend later).followersOf i = detector.followersOf i ++ more ∧ more.Nodup ∧
          ∀ j, j ∈ more ↔ detector.count ≤ j ∧ (detector.extend later).IsFirstMatch i j := by
  refine ⟨detector.map_some_groups, (detector.extend later).map_some_groups,
    detector.filter_below_placedGroups_extend later, ?_, ?_, ?_⟩
  · -- old blocks that are absorbed, and by which ones
    intro j hj
    exact ⟨absorbed_append_iff later hj, fun i => detector.mem_followersOf_extend_iff later i hj⟩
  · -- old leaders
    intro i hi
    rw [← detector.filter_leadingBlocks_extend later] at hi
    obtain ⟨more, hFollowers, -⟩ := detector.exists_followersOf_extend later i
    refine ⟨List.mem_of_mem_filter hi, ?_⟩
    rw [hFollowers, List.length_append]
    exact Nat.le_add_right _ _
  · -- what a block gains
    exact fun i _ => detector.exists_followersOf_extend later i

/-- A block and a longer one that it absorbs. -/
def blockAndLonger : DuplicateDetector := ⟨[uniformBlock "a.ts" 50, uniformBlock "b.ts" 57]⟩

/-- A block that is similar to the second of `blockAndLonger` only, and a copy of the first. -/
def longestAndCopy : List CodeBlock := [uniformBlock "c.ts" 65, uniformBlock "d.ts" 50]

theorem later_blocks_extend_groups_longestAndCopy :
    blockAndLonger.count = 2 ∧ (blockAndLonger.extend longestAndCopy).AbsorbedAt 1 ∧
      0 ∈ (blockAndLonger.extend longestAndCopy).leadingBlocks ∧
      ∃ more : List Nat, (blockAndLonger.extend longestAndCopy).followersOf 0 = 1 :: more ∧
        3 ∈ more := by
  have hOld : blockAndLonger.leadingBlocks = [0] ∧ blockAndLonger.followersOf 0 = [1] ∧
      blockAndLonger.AbsorbedAt 1 := by decide +kernel
  obtain ⟨hLeading, hFollowers, hAbsorbed⟩ := hOld
  have hMatch : (blockAndLonger.extend longestAndCopy).IsFirstMatch 0 3 :=
    ⟨by decide, by decide, similarAt_iff.mpr (by decide +kernel), by simp⟩
  obtain ⟨-, -, -, hSame, hLeaders, hGain⟩ :=
    later_blocks_extend_groups blockAndLonger longestAndCopy
  refine ⟨rfl, (hSame 1 (by decide)).1.mpr hAbsorbed,
    (hLeaders 0 (by rw [hLeading]; decide)).1, ?_⟩
  obtain ⟨more, hMore, -, hMem⟩ := hGain 0 (by decide)
  rw [hFollowers] at hMore
  exact ⟨more, hMore, (hMem 3).mpr ⟨by decide, hMatch⟩⟩

end DuplicateDetector

end DebtGauge
