import DebtGauge.Proofs.Double.Identity
import DebtGauge.Proofs.Score.Density
import Mathlib.Algebra.Order.BigOperators.Group.List

/-!
# Scores and counts of severities

Points are whole numbers, and a sum of whole numbers is exact as long as it has no more than 53
binary digits. So the points of findings are lost in whatever order they are added up, and the
score depends on the numbers of findings of each severity alone.

Main definitions and results:

* `Rule.wholePoints` — the points of a rule as whole numbers;
* `severityCount` — how many findings have a severity;
* `total_points` — the points of findings add up without rounding;
* `exists_represents_score` — the number that a score stands for, whatever is known of the files;
* `score_depends_on_counts` — a score is worked out from the counts of severities.
-/

namespace DebtGauge

open Double
open scoped ENNReal

/-! ## Sums of whole numbers -/

theorem foldl_natCast {ns : List ℕ} {start : ℕ} (h : start + ns.sum < 2 ^ 53) :
    (ns.map ((↑) : ℕ → ℝ≥0∞)).foldl (fun sum x => rounded (sum + x)) start =
      ((start + ns.sum : ℕ) : ℝ≥0∞) := by
  induction ns generalizing start with
  | nil => rfl
  | cons n ns ih =>
    rw [List.sum_cons, ← Nat.add_assoc] at h ⊢
    have hStep : rounded ((start : ℝ≥0∞) + n) = ((start + n : ℕ) : ℝ≥0∞) := by
      rw [← Nat.cast_add, rounded_natCast (by omega)]
    rw [List.map_cons, List.foldl_cons, hStep]
    exact ih h

/-- A sum of whole numbers that is small enough is exact. -/
theorem roundedSum_natCast {ns : List ℕ} (h : ns.sum < 2 ^ 53) :
    roundedSum (ns.map ((↑) : ℕ → ℝ≥0∞)) = ns.sum := by
  have hStart : 0 + ns.sum < 2 ^ 53 := by rwa [Nat.zero_add]
  have hSum := foldl_natCast hStart
  rwa [Nat.cast_zero, Nat.zero_add] at hSum

/-- Whole numbers that are not all zero add up to the double of their sum. -/
theorem total_ofNat {ns : List ℕ} (h : ns.sum < 2 ^ 53) (hPos : ns.sum ≠ 0) :
    total (ns.map Float.ofNat) = Float.ofNat ns.sum := by
  have hCount : ∀ n ∈ ns, Represents (Float.ofNat n) n := fun n hn =>
    represents_natCast ((List.le_sum_of_mem hn).trans_lt h)
  have hNonneg : ∀ a ∈ ns.map Float.ofNat, 0.0 ≤ a :=
    List.forall_mem_map.mpr fun n hn => (hCount n hn).zero_le
  have hValues : (ns.map Float.ofNat).map value = ns.map ((↑) : ℕ → ℝ≥0∞) := by
    rw [List.map_map]
    exact List.map_congr_left fun n hn => (hCount n hn).value_eq
  have hTotal := represents_total hNonneg
  rw [hValues, roundedSum_natCast h] at hTotal
  exact hTotal.eq (represents_natCast h) (by exact_mod_cast hPos)

/-! ## Points -/

/-- The points of a rule as whole numbers. -/
def Rule.wholePoints : Rule → Severity → ℕ
  | .complexity | .typeSafety => fun
    | .high => 10
    | .medium => 5
    | .low => 2
  | .size => fun
    | .high => 8
    | .medium => 4
    | .low => 2
  | .duplication => fun
    | .high => 15
    | .medium => 8
    | .low => 4
  | .circularDependency => fun
    | .high => 20
    | .medium => 12
    | .low => 6

theorem points_eq (rule : Rule) (severity : Severity) :
    rule.points.of severity = Float.ofNat (rule.wholePoints severity) := by
  cases rule <;> cases severity <;> decide +kernel

/-- A finding takes at least one point away, and at most twenty. -/
theorem wholePoints_bounds (rule : Rule) (severity : Severity) :
    1 ≤ rule.wholePoints severity ∧ rule.wholePoints severity ≤ 20 := by
  cases rule <;> cases severity <;> decide

/-- How many findings have a severity. -/
def severityCount (severity : Severity) (findings : List Finding) : ℕ :=
  findings.countP fun finding => finding.severity = severity

/-- What is added up over findings by their severity can be worked out from the counts. -/
theorem sum_map_severity (f : Severity → ℕ) (findings : List Finding) :
    (findings.map fun finding => f finding.severity).sum =
      severityCount .high findings * f .high + severityCount .medium findings * f .medium +
        severityCount .low findings * f .low := by
  induction findings with
  | nil => simp [severityCount]
  | cons finding findings ih =>
    unfold severityCount at ih ⊢
    rw [List.map_cons, List.sum_cons, ih]
    simp only [List.countP_cons]
    -- the finding is counted once, by its own severity
    cases finding.severity <;> simp <;> ring

/-- Lists with the same counts are of the same length. -/
theorem length_eq_add_counts (findings : List Finding) :
    findings.length = severityCount .high findings + severityCount .medium findings +
      severityCount .low findings := by
  have hOnes := sum_map_severity (fun _ => 1) findings
  rw [List.map_const', List.sum_replicate, smul_eq_mul] at hOnes
  omega

/-- The points that findings take away, from the counts of their severities. -/
def Rule.lostPoints (rule : Rule) (high medium low : ℕ) : ℕ :=
  high * rule.wholePoints .high + medium * rule.wholePoints .medium +
    low * rule.wholePoints .low

/-- The points that the findings of a list take away, from the counts of their severities. -/
def Rule.pointsLost (rule : Rule) (findings : List Finding) : Float :=
  Float.ofNat (rule.lostPoints (severityCount .high findings) (severityCount .medium findings)
    (severityCount .low findings))

/-- As long as there are fewer than `2 ^ 48` findings, their points add up without rounding. -/
theorem total_points (rule : Rule) {findings : List Finding} (hSome : findings ≠ [])
    (hLength : findings.length < 2 ^ 48) :
    total ((findings.map (·.severity)).map rule.points.of) = rule.pointsLost findings := by
  rw [Rule.pointsLost, Rule.lostPoints, ← sum_map_severity]
  have hPoints : (findings.map (·.severity)).map rule.points.of =
      (findings.map fun finding => rule.wholePoints finding.severity).map Float.ofNat := by
    rw [List.map_map, List.map_map]
    exact List.map_congr_left fun finding _ => points_eq rule finding.severity
  have hBounds := fun finding : Finding => wholePoints_bounds rule finding.severity
  rw [hPoints, total_ofNat]
  · -- at most twenty points each, so that every partial sum is exact
    have hSum := List.sum_le_card_nsmul
      (findings.map fun finding => rule.wholePoints finding.severity) 20
      (List.forall_mem_map.mpr fun finding _ => (hBounds finding).2)
    rw [List.length_map, smul_eq_mul] at hSum
    omega
  · -- a sum of nothing would be minus zero
    obtain ⟨finding, rest, rfl⟩ := List.exists_cons_of_ne_nil hSome
    have hHead := (hBounds finding).1
    rw [List.map_cons, List.sum_cons]
    omega

/-! ## Scores -/

/-- A penalty that is spread over no files is the sum of the points. -/
theorem penalty_of_not_spread {rule : Rule} {totalFiles : Option ℕ}
    (h : rule.scale? = none ∨ totalFiles = none ∨ totalFiles = some 0)
    (severities : List Severity) :
    penalty rule.points rule.scale? totalFiles severities =
      total (severities.map rule.points.of) := by
  unfold penalty
  obtain hScale | rfl | rfl := h
  · rw [hScale]
  · cases rule.scale? <;> rfl
  · cases rule.scale? <;> rfl

/-- A penalty stands for a number, whatever is known of the files. -/
theorem exists_represents_penalty (rule : Rule) (totalFiles : Option ℕ)
    (severities : List Severity) :
    ∃ lost, Represents (penalty rule.points rule.scale? totalFiles severities) lost := by
  have hRaw : Represents (total (severities.map rule.points.of)) _ :=
    represents_total (List.forall_mem_map.mpr fun severity _ => (points_bounds rule severity).1)
  match totalFiles with
  | none => exact ⟨_, penalty_of_not_spread (.inr (.inl rfl)) severities ▸ hRaw⟩
  | some 0 => exact ⟨_, penalty_of_not_spread (.inr (.inr rfl)) severities ▸ hRaw⟩
  | some (files + 1) => exact ⟨_, represents_penalty rule (Nat.le_add_left 1 files) severities⟩

/-- A score stands for a number of at most a hundred that is rounded to two decimals. -/
theorem exists_represents_score (rule : Rule) (totalFiles : Option ℕ) (findings : List Finding) :
    ∃ x ≤ 100, Represents (rule.score totalFiles findings) (round2Value x) := by
  unfold Rule.score densityScore
  by_cases hEmpty : (findings.map (·.severity)).isEmpty = true
  · rw [if_pos hEmpty]
    exact ⟨100, le_rfl, round2Value_hundred.symm ▸ represents_hundred⟩
  · rw [if_neg hEmpty]
    obtain ⟨lost, hLost⟩ := exists_represents_penalty rule totalFiles (findings.map (·.severity))
    have hLeft := represents_atLeastZero_sub represents_hundred hLost (by norm_num)
    exact ⟨_, rounded_sub_le lost, represents_round2 hLeft⟩

/-- A score lies between zero and a hundred. -/
theorem score_bounds (rule : Rule) (totalFiles : Option ℕ) (findings : List Finding) :
    0.0 ≤ rule.score totalFiles findings ∧ rule.score totalFiles findings ≤ 100.0 := by
  obtain ⟨x, hx, hScore⟩ := exists_represents_score rule totalFiles findings
  exact ⟨hScore.zero_le, (hScore.le_iff represents_hundred).mpr (round2Value_le hx)⟩

theorem score_of_ne_nil (rule : Rule) (totalFiles : Option ℕ) {findings : List Finding}
    (hSome : findings ≠ []) :
    rule.score totalFiles findings = round2 (atLeastZero (100.0 -
      penalty rule.points rule.scale? totalFiles (findings.map (·.severity)))) := by
  have hKept : ¬ (findings.map (·.severity)).isEmpty = true := by
    rwa [List.isEmpty_iff, List.map_eq_nil_iff]
  unfold Rule.score densityScore
  rw [if_neg hKept]
  rfl

/-- Findings with the same counts of severities have the same score. -/
theorem score_eq_of_counts (rule : Rule) (totalFiles : Option ℕ) {findings others : List Finding}
    (hLength : findings.length < 2 ^ 48)
    (hCounts : ∀ severity, severityCount severity others = severityCount severity findings) :
    rule.score totalFiles others = rule.score totalFiles findings := by
  have hSame : others.length = findings.length := by
    rw [length_eq_add_counts, length_eq_add_counts, hCounts, hCounts, hCounts]
  by_cases hNone : findings = []
  · subst hNone
    rw [List.length_eq_zero_iff.mp hSame]
  have hSome : others ≠ [] := by
    rwa [Ne, ← List.length_eq_zero_iff, hSame, List.length_eq_zero_iff]
  -- a penalty reads the severities through their total only
  have hLost : rule.pointsLost others = rule.pointsLost findings := by
    rw [Rule.pointsLost, hCounts, hCounts, hCounts, Rule.pointsLost]
  rw [score_of_ne_nil rule totalFiles hSome, score_of_ne_nil rule totalFiles hNone]
  unfold penalty
  rw [total_points rule hSome (hSame ▸ hLength), total_points rule hNone hLength, hLost]

/-- A score lies between zero and a hundred. It is worked out from the counts of the severities
and the number of files: the whole points that the findings take away are divided by the number of
files and scaled just where the rule has a scale and there are files. -/
theorem score_depends_on_counts (rule : Rule) (totalFiles : Option ℕ) {findings : List Finding}
    (hLength : findings.length < 2 ^ 48) :
    (0.0 ≤ rule.score totalFiles findings ∧ rule.score totalFiles findings ≤ 100.0) ∧
    (∀ others : List Finding,
      (∀ severity, severityCount severity others = severityCount severity findings) →
        rule.score totalFiles others = rule.score totalFiles findings) ∧
    (∀ others : List Finding, others.Perm findings →
      rule.score totalFiles others = rule.score totalFiles findings) ∧
    (findings = [] → rule.score totalFiles findings = 100.0) ∧
    (∀ severity, rule.points.of severity = Float.ofNat (rule.wholePoints severity)) ∧
    (findings ≠ [] →
      (∀ scale files, rule.scale? = some scale → totalFiles = some files → 0 < files →
        rule.score totalFiles findings =
          round2 (atLeastZero (100.0 - rule.pointsLost findings / Float.ofNat files * scale))) ∧
      (rule.scale? = none ∨ totalFiles = none ∨ totalFiles = some 0 →
        rule.score totalFiles findings =
          round2 (atLeastZero (100.0 - rule.pointsLost findings)))) := by
  refine ⟨score_bounds rule totalFiles findings,
    fun others => score_eq_of_counts rule totalFiles hLength, fun others hPerm => ?_, ?_,
    points_eq rule, fun hSome => ⟨?_, fun hNotSpread => ?_⟩⟩
  · exact score_eq_of_counts rule totalFiles hLength fun severity => hPerm.countP_eq _
  · rintro rfl
    rfl
  · rintro scale files hScale rfl hFiles
    obtain ⟨files, rfl⟩ := Nat.exists_eq_add_one_of_ne_zero hFiles.ne'
    rw [score_of_ne_nil rule _ hSome]
    unfold penalty
    rw [hScale, total_points rule hSome hLength]
  · rw [score_of_ne_nil rule _ hSome, penalty_of_not_spread hNotSpread,
      total_points rule hSome hLength]

/-- A finding of each severity. -/
def mixedFindings : List Finding :=
  [.low, .high, .medium].map fun severity => ⟨"complexity", severity, "m", ⟨"a.ts"⟩, none, none⟩

/-- Seventeen points that are spread over four files and scaled by ten, in either order. -/
theorem score_depends_on_counts_seventeen :
    mixedFindings.length < 2 ^ 48 ∧ Rule.complexity.score (some 4) mixedFindings = 57.5 ∧
      Rule.complexity.score (some 4) mixedFindings.reverse = 57.5 := by
  have hLength : mixedFindings.length < 2 ^ 48 := by decide
  obtain ⟨-, -, hReordered, -, -, hPoints⟩ :=
    score_depends_on_counts .complexity (some 4) hLength
  obtain ⟨hSpread, -⟩ := hPoints (by decide)
  have hScore : Rule.complexity.score (some 4) mixedFindings = 57.5 :=
    (hSpread 10.0 4 rfl rfl (by decide)).trans (by decide +kernel)
  exact ⟨hLength, hScore, (hReordered _ mixedFindings.reverse_perm).trans hScore⟩

end DebtGauge
