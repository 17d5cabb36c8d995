import DebtGauge.Proofs.Double.Count
import DebtGauge.Proofs.Duplication.Absorption
import DebtGauge.Proofs.Duplication.History
import DebtGauge.Proofs.Sequence
import DebtGauge.Proofs.Text.EditDistance

/-!
# Near duplicates are grouped

The blocks of a detector fall into those that are absorbed and those that are not. Each
absorbed block belongs to the earliest block that is not absorbed and is similar to it, and
no two blocks that are not absorbed are similar. A metric is made of each block that has
absorbed others, and it counts them.

Main result:

* `duplicates_grouped` — what a detector holds after any history, and the metrics it makes.
-/

namespace DebtGauge

namespace CodeBlock

/-- It does not matter which of two blocks comes first. -/
theorem similarity_comm (a b : CodeBlock) : a.similarity b = b.similarity a := by
  unfold similarity
  rw [max_comm a.length, min_comm a.length, Text.editDistance_comm]
  simp only [eq_comm]

end CodeBlock

namespace DuplicateDetector

variable (detector : DuplicateDetector)

/-! ## Blocks by their places -/

/-- The blocks at the two places are near duplicates. -/
def SimilarAt (i j : Nat) : Prop :=
  ∃ a b, detector.blocks[i]? = some a ∧ detector.blocks[j]? = some b ∧
    CodeBlock.threshold ≤ a.similarity b

/-- An earlier block that is not absorbed is a near duplicate of the one at the place. -/
def AbsorbedAt (j : Nat) : Prop := Absorbed CodeBlock.isDuplicate detector.blocks j

instance (j : Nat) : Decidable (detector.AbsorbedAt j) :=
  inferInstanceAs (Decidable (Absorbed CodeBlock.isDuplicate detector.blocks j))

/-- The places of the blocks that the one at a place absorbs. -/
def followersOf (i : Nat) : List Nat := followers CodeBlock.isDuplicate detector.blocks i

/-- The places of the blocks that lead a group. -/
def leadingBlocks : List Nat := leading CodeBlock.isDuplicate detector.blocks

variable {detector}

theorem similarAt_iff {i j : Nat} :
    detector.SimilarAt i j ↔ nearAt CodeBlock.isDuplicate detector.blocks i j = true := by
  simp only [SimilarAt, nearAt_iff, CodeBlock.isDuplicate, decide_eq_true_eq]

theorem SimilarAt.symm {i j : Nat} (h : detector.SimilarAt i j) : detector.SimilarAt j i := by
  obtain ⟨a, b, ha, hb, hSimilar⟩ := h
  rw [CodeBlock.similarity_comm] at hSimilar
  exact ⟨b, a, hb, ha, hSimilar⟩

theorem absorbedAt_iff {j : Nat} : detector.AbsorbedAt j ↔
    ∃ i < j, ¬ detector.AbsorbedAt i ∧ detector.SimilarAt i j := by
  simp only [similarAt_iff]
  exact absorbed_iff

theorem mem_followersOf {i j : Nat} : j ∈ detector.followersOf i ↔
    (i < j ∧ ¬ detector.AbsorbedAt i ∧ detector.SimilarAt i j) ∧
      ∀ k < i, ¬ detector.AbsorbedAt k → ¬ detector.SimilarAt k j := by
  simp only [similarAt_iff, Bool.not_eq_true]
  exact mem_followers.trans leader?_eq_some_iff

theorem nodup_followersOf (i : Nat) : (detector.followersOf i).Nodup :=
  List.nodup_range.filter _

theorem mem_leadingBlocks {i : Nat} : i ∈ detector.leadingBlocks ↔
    ¬ detector.AbsorbedAt i ∧ ∃ j, j ∈ detector.followersOf i := by
  simp only [followersOf, mem_followers]
  exact mem_leading

/-- An absorbed block follows one leader. -/
theorem existsUnique_leader {j : Nat} (h : detector.AbsorbedAt j) :
    ∃! i, i ∈ detector.leadingBlocks ∧ j ∈ detector.followersOf i := by
  obtain ⟨i, hi⟩ := Option.isSome_iff_exists.mp (isSome_leader?_iff.mpr h)
  have hFollows : j ∈ detector.followersOf i := mem_followers.mpr hi
  have hStands := (mem_followersOf.mp hFollows).1.2.1
  refine ⟨i, ⟨mem_leadingBlocks.mpr ⟨hStands, j, hFollows⟩, hFollows⟩, ?_⟩
  rintro other ⟨_, hOther⟩
  exact Option.some.inj ((mem_followers.mp hOther).symm.trans hi)

/-- Blocks that are not absorbed are not similar: the later one would be absorbed. -/
theorem not_similarAt {i j : Nat} (hNe : i ≠ j) (hi : ¬ detector.AbsorbedAt i)
    (hj : ¬ detector.AbsorbedAt j) : ¬ detector.SimilarAt i j := by
  intro hSimilar
  -- similarity is symmetric, so either of the two places may be the later one
  rcases Nat.lt_or_gt_of_ne hNe with hLess | hGreater
  · exact hj (absorbedAt_iff.mpr ⟨i, hLess, hi, hSimilar⟩)
  · exact hi (absorbedAt_iff.mpr ⟨j, hGreater, hj, hSimilar.symm⟩)

/-! ## Metrics -/

/-- The metric of the block at a place: how many blocks it absorbs. -/
structure IsGroupMetric (detector : DuplicateDetector) (i : Nat) (metric : Metric) : Prop where
  kind_eq : metric.kind = .codeDuplication
  value_eq : metric.value = Float.ofNat (detector.followersOf i).length
  block_eq : ∃ block, detector.blocks[i]? = some block ∧ metric.path = block.path ∧
    metric.location = some (.lines block.startLine block.endLine) ∧
    metric.context = some (block.name.getD unnamedLabel)

/-- The groups are those of the leading places, in their order. -/
theorem forall₂_groups : List.Forall₂
    (fun i group => detector.blocks[i]? = some group.leader ∧
      group.absorbed.length = (detector.followersOf i).length)
    detector.leadingBlocks detector.groups := by
  have hGroups := greedyGroups_map_some CodeBlock.isDuplicate detector.blocks
  rw [eq_comm, ← List.forall₂_eq_eq_eq, List.forall₂_map_left_iff,
    List.forall₂_map_right_iff] at hGroups
  refine hGroups.imp fun i group hGroup => ?_
  obtain ⟨hLeader, hAbsorbed⟩ := Group.mk.inj hGroup
  have hLength := congrArg List.length hAbsorbed
  rw [List.length_map, List.length_map] at hLength
  exact ⟨hLeader, hLength.symm⟩

/-- A group has a metric: its leader has a path, and a count of blocks is a finite number as
long as it fits two machine words. -/
theorem exists_metrics_of_lt (hPaths : ∀ block ∈ detector.blocks, block.path.text ≠ "")
    (hCount : detector.count < 2 ^ 128) :
    ∃ metrics, detector.metrics = .ok metrics ∧
      List.Forall₂ detector.IsGroupMetric detector.leadingBlocks metrics := by
  refine exists_mapM_ok_of_forall₂ (forall₂_groups.imp fun i group hGroup => ?_)
  obtain ⟨hLeader, hLength⟩ := hGroup
  have hPath : group.leader.path.text ≠ "" :=
    hPaths _ (List.mem_of_getElem? hLeader)
  have hFinite : (Float.ofNat group.absorbed.length).isFinite = true := by
    refine Double.isFinite_ofNat_of_lt (lt_of_le_of_lt ?_ hCount)
    rw [hLength]
    exact length_followers_le i
  have hValue : Float.ofNat group.absorbed.length = Float.ofNat (detector.followersOf i).length :=
    congrArg Float.ofNat hLength
  -- the two conditions on which a metric is made
  unfold groupMetric
  rw [Metric.create, dif_pos hPath, dif_pos hFinite]
  exact ⟨_, rfl, rfl, hValue, group.leader, hLeader, rfl, rfl, rfl⟩

theorem exists_metrics (hPaths : ∀ block ∈ detector.blocks, block.path.text ≠ "")
    (hWord : detector.count < 2 ^ 64) :
    ∃ metrics, detector.metrics = .ok metrics ∧
      List.Forall₂ detector.IsGroupMetric detector.leadingBlocks metrics :=
  exists_metrics_of_lt hPaths (hWord.trans (Nat.pow_lt_pow_right (by decide) (by decide)))

/-! ## Main result -/

/-- A detector holds the blocks that are long enough, in the order in which they came since
the last clearing. A block is absorbed if an earlier one that is not absorbed is similar to
it, and it follows the first such block. If no path is empty and a machine word counts the
blocks, there is one metric for each block with followers, in order, and it counts them.
So an absorbed block has one leader and leads no group, and blocks that are not absorbed are
not similar. -/
theorem duplicates_grouped (steps : List DetectorStep) :
    (after steps).blocks = (addedSinceClear steps).filter (·.isComparable) ∧
      (∀ j, (after steps).AbsorbedAt j ↔
        ∃ i < j, ¬ (after steps).AbsorbedAt i ∧ (after steps).SimilarAt i j) ∧
      (∀ i, ((after steps).followersOf i).Nodup ∧ ∀ j, j ∈ (after steps).followersOf i ↔
        (i < j ∧ ¬ (after steps).AbsorbedAt i ∧ (after steps).SimilarAt i j) ∧
          ∀ k < i, ¬ (after steps).AbsorbedAt k → ¬ (after steps).SimilarAt k j) ∧
      (after steps).leadingBlocks.Pairwise (· < ·) ∧
      (∀ i, i ∈ (after steps).leadingBlocks ↔
        ¬ (after steps).AbsorbedAt i ∧ ∃ j, j ∈ (after steps).followersOf i) ∧
      ((∀ block ∈ (after steps).blocks, block.path.text ≠ "") → (after steps).count < 2 ^ 64 →
        ∃ metrics, (after steps).metrics = .ok metrics ∧
          List.Forall₂ (after steps).IsGroupMetric (after steps).leadingBlocks metrics) ∧
      (∀ j, (after steps).AbsorbedAt j →
        j ∉ (after steps).leadingBlocks ∧
          ∃! i, i ∈ (after steps).leadingBlocks ∧ j ∈ (after steps).followersOf i) ∧
      ∀ i j, i ≠ j → ¬ (after steps).AbsorbedAt i → ¬ (after steps).AbsorbedAt j →
        ¬ (after steps).SimilarAt i j := by
  refine ⟨blocks_after steps, ?_, ?_, ?_, ?_, ?_, ?_, ?_⟩
  · -- absorbed blocks
    exact fun j => absorbedAt_iff
  · -- followers
    exact fun i => ⟨nodup_followersOf i, fun j => mem_followersOf⟩
  · -- order of the leaders
    exact pairwise_leading
  · -- leaders
    exact fun i => mem_leadingBlocks
  · -- metrics
    exact exists_metrics
  · -- one leader for each absorbed block, which leads no group itself
    intro j hAbsorbed
    exact ⟨fun hLeads => (mem_leadingBlocks.mp hLeads).1 hAbsorbed, existsUnique_leader hAbsorbed⟩
  · -- blocks that stand are not similar
    exact fun i j hNe hi hj => not_similarAt hNe hi hj

/-- An unnamed block of so many equal characters. -/
def uniformBlock (path : String) (count : Nat) : CodeBlock where
  path := ⟨path⟩
  tokens := String.ofList (List.replicate count 'x')
  startLine := 1
  endLine := 4
  name := none

/-- A block that is cleared again, then two copies with a longer block between them, and a
block that is too short. -/
def twoCopies : List DetectorStep :=
  [.add [uniformBlock "old.ts" 50], .clear, .add [uniformBlock "a.ts" 50, uniformBlock "b.ts" 60],
    .add [uniformBlock "c.ts" 50, uniformBlock "d.ts" 49]]

theorem duplicates_grouped_twoCopies :
    (after twoCopies).count = 3 ∧ (after twoCopies).followersOf 0 = [2] ∧
      ∃ metrics, (after twoCopies).metrics = .ok metrics ∧
        List.Forall₂ (after twoCopies).IsGroupMetric [0] metrics := by
  have hGroups : (after twoCopies).leadingBlocks = [0] ∧ (after twoCopies).followersOf 0 = [2] ∧
      (after twoCopies).count = 3 ∧
      ∀ block ∈ (after twoCopies).blocks, block.path.text ≠ "" := by decide +kernel
  obtain ⟨hLeading, hFollowers, hCount, hPaths⟩ := hGroups
  refine ⟨hCount, hFollowers, ?_⟩
  rw [← hLeading]
  exact (duplicates_grouped twoCopies).2.2.2.2.2.1 hPaths (by rw [hCount]; decide)

end DuplicateDetector

end DebtGauge
