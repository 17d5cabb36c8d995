import DebtGauge.Proofs.Report.Sections

/-!
# The gravest findings first

A section of a report for a terminal shows a few findings of its category. They are sorted by
falling severity, and as sorting keeps the order of what is equally grave, the sorted findings are
those of high severity, those of medium and those of low severity, each in the order of the report.
So what is shown comes before everything that is left out: it is graver, or as grave and earlier in
the report.

Main definitions:

* `Report.placedFor`, `Report.ranking` — the findings of a category with their places in the
  report, in the order of the report and the gravest first;
* `Finding.ComesBefore` — the order in which placed findings are shown;
* `Report.ListsGravest` — what a section should show;
* `Report.findingLine`, `Report.listingLines` — the lines of a finding and of a section.

Main results:

* `Finding.sortBySeverity_eq_flatMap` — the sorted findings, severity by severity;
* `Report.listsGravest_ranking` — the first findings of the ranking are the ones to show;
* `Report.sections_show_gravest` — these are what the lines of a section show.
-/

namespace DebtGauge

open DebtGauge.Text (Style)

/-! ## Sorting by severity -/

namespace Finding

theorem rank_trans (a b c : Finding) (hab : decide (b.severity.rank ≤ a.severity.rank) = true)
    (hbc : decide (c.severity.rank ≤ b.severity.rank) = true) :
    decide (c.severity.rank ≤ a.severity.rank) = true := by
  rw [decide_eq_true_eq] at *
  exact Nat.le_trans hbc hab

theorem rank_total (a b : Finding) : (decide (b.severity.rank ≤ a.severity.rank) ||
    decide (a.severity.rank ≤ b.severity.rank)) = true := by
  simp only [Bool.or_eq_true, decide_eq_true_eq]
  omega

/-- Within a severity, sorting keeps the order. -/
theorem filter_sortBySeverity (findings : List Finding) (severity : Severity) :
    (sortBySeverity findings).filter (·.severity = severity) =
      findings.filter (·.severity = severity) := by
  -- findings that are equally grave are in order as they stand, and sorting does not move them
  have hSublist : (findings.filter (·.severity = severity)).Sublist (sortBySeverity findings) := by
    refine List.sublist_mergeSort rank_trans rank_total ?_ List.filter_sublist
    apply List.pairwise_of_forall_mem_list
    intro a ha b hb
    simp only [List.mem_filter, decide_eq_true_eq] at ha hb ⊢
    rw [ha.2, hb.2]
  have hKept := hSublist.filter (·.severity = severity)
  simp only [List.filter_filter, Bool.and_self] at hKept
  refine (hKept.eq_of_length ?_).symm
  exact ((List.mergeSort_perm _ _).filter _).length_eq.symm

/-- Findings of falling severity are those of each severity, one after the other. -/
theorem eq_flatMap_of_pairwise {findings : List Finding}
    (h : findings.Pairwise fun a b => b.severity.rank ≤ a.severity.rank) :
    findings = Severity.all.reverse.flatMap fun severity =>
      findings.filter (·.severity = severity) := by
  induction h with
  | nil => rfl
  | @cons finding rest hFinding _ ih =>
    -- the others are no graver than the first one
    have hNone : ∀ severity : Severity, finding.severity.rank < severity.rank →
        rest.filter (·.severity = severity) = [] := by
      intro severity hGraver
      rw [List.filter_eq_nil_iff]
      intro other hOther hSame
      have hRank := hFinding other hOther
      rw [of_decide_eq_true hSame] at hRank
      omega
    have hSplit : Severity.all.reverse = [.high, .medium, .low] := rfl
    rw [hSplit] at ih ⊢
    simp only [List.flatMap_cons, List.flatMap_nil, List.append_nil, List.filter_cons] at ih ⊢
    -- so those of the severities before its own are none
    cases hSeverity : finding.severity with
    | high => simpa using ih
    | medium =>
      have hHigh := hNone .high (by rw [hSeverity]; decide)
      rw [hHigh] at ih
      simpa [hHigh] using ih
    | low =>
      have hHigh := hNone .high (by rw [hSeverity]; decide)
      have hMedium := hNone .medium (by rw [hSeverity]; decide)
      rw [hHigh, hMedium] at ih
      simpa [hHigh, hMedium] using ih

/-- The sorted findings are those of high severity, then those of medium and those of low
severity, each in their order. -/
theorem sortBySeverity_eq_flatMap (findings : List Finding) :
    sortBySeverity findings = Severity.all.reverse.flatMap fun severity =>
      findings.filter (·.severity = severity) := by
  have hSorted : (sortBySeverity findings).Pairwise fun a b =>
      b.severity.rank ≤ a.severity.rank :=
    (List.pairwise_mergeSort rank_trans rank_total findings).imp of_decide_eq_true
  rw [eq_flatMap_of_pairwise hSorted]
  exact List.flatMap_congr fun severity _ => filter_sortBySeverity findings severity

/-- A finding with its place comes before another one if it is graver, or if it is as grave and
has an earlier place. -/
def ComesBefore (a b : Finding × Nat) : Prop :=
  b.1.severity.rank < a.1.severity.rank ∨ (a.1.severity = b.1.severity ∧ a.2 < b.2)

end Finding

namespace Report

open Finding (ComesBefore)

variable {report : Report} {category : String} {entry : Finding × Nat}

/-! ## The ranking of a category -/

/-- The findings of a category with their places in the report. -/
def placedFor (report : Report) (category : String) : List (Finding × Nat) :=
  report.findings.zipIdx.filter (·.1.ruleId = category)

/-- The findings of a category with their places in the report, the gravest first. -/
def ranking (report : Report) (category : String) : List (Finding × Nat) :=
  Severity.all.reverse.flatMap fun severity =>
    (report.placedFor category).filter (·.1.severity = severity)

theorem mem_placedFor : entry ∈ report.placedFor category ↔
    report.findings[entry.2]? = some entry.1 ∧ entry.1.ruleId = category := by
  rw [placedFor, List.mem_filter, List.mem_zipIdx_iff_getElem?, decide_eq_true_eq]

theorem mem_ranking : entry ∈ report.ranking category ↔
    report.findings[entry.2]? = some entry.1 ∧ entry.1.ruleId = category := by
  rw [← mem_placedFor, ranking, List.mem_flatMap]
  constructor
  · rintro ⟨severity, -, hEntry⟩
    exact List.mem_of_mem_filter hEntry
  · intro hEntry
    have hAll : entry.1.severity ∈ Severity.all.reverse := by
      cases entry.1.severity <;> decide
    exact ⟨entry.1.severity, hAll, List.mem_filter.mpr ⟨hEntry, decide_eq_true rfl⟩⟩

theorem map_fst_placedFor (report : Report) (category : String) :
    (report.placedFor category).map Prod.fst = report.findingsFor category := by
  have hFindings := List.zipIdx_map_fst 0 report.findings
  unfold placedFor findingsFor
  conv_rhs => rw [← hFindings, List.filter_map]
  rfl

/-- Without the places, the ranking is what the section holds. -/
theorem map_fst_ranking (report : Report) (category : String) :
    (report.ranking category).map Prod.fst = (report.sectionOf category).findings := by
  show _ = Finding.sortBySeverity (report.findingsFor category)
  rw [Finding.sortBySeverity_eq_flatMap, ranking, List.map_flatMap, ← map_fst_placedFor]
  refine List.flatMap_congr fun severity _ => ?_
  rw [List.filter_map]
  rfl

theorem length_ranking (report : Report) (category : String) :
    (report.ranking category).length = (report.findingsFor category).length := by
  rw [← List.length_map (f := Prod.fst), map_fst_ranking, length_sectionOf]

/-- In the ranking, each finding comes before all that stand behind it. -/
theorem pairwise_ranking (report : Report) (category : String) :
    (report.ranking category).Pairwise ComesBefore := by
  have hPlaces : (report.placedFor category).Pairwise fun a b => a.2 < b.2 := by
    refine List.Pairwise.filter _ (List.pairwise_map.mp ?_)
    rw [List.zipIdx_map_snd]
    exact List.pairwise_lt_range'
  rw [ranking, List.pairwise_flatMap]
  constructor
  · -- equally grave ones are in the order of the report
    intro severity _
    refine (hPlaces.filter _).imp_of_mem fun {a b} ha hb hLt => .inr ⟨?_, hLt⟩
    rw [of_decide_eq_true (List.mem_filter.mp ha).2, of_decide_eq_true (List.mem_filter.mp hb).2]
  · -- and graver ones stand further in front
    have hFalling : Severity.all.reverse.Pairwise fun s t => t.rank < s.rank := by decide
    refine hFalling.imp fun hRank a ha b hb => .inl ?_
    rwa [of_decide_eq_true (List.mem_filter.mp ha).2, of_decide_eq_true (List.mem_filter.mp hb).2]

/-! ## What a section should show -/

/-- Placed findings are the ones to show for a category: they are five, or all if there are fewer,
they stand in order, and they come before all findings of the category that are not shown. -/
structure ListsGravest (report : Report) (category : String) (listed : List (Finding × Nat)) :
    Prop where
  length : listed.length = min (report.findingsFor category).length 5
  placed : ∀ entry ∈ listed,
    report.findings[entry.2]? = some entry.1 ∧ entry.1.ruleId = category
  ordered : listed.Pairwise ComesBefore
  gravest : ∀ entry, report.findings[entry.2]? = some entry.1 → entry.1.ruleId = category →
    entry ∉ listed → ∀ other ∈ listed, ComesBefore other entry

/-- The first five of the ranking are the ones to show. -/
theorem listsGravest_ranking (report : Report) (category : String) :
    report.ListsGravest category ((report.ranking category).take 5) where
  length := by rw [List.length_take, length_ranking, Nat.min_comm]
  placed entry hEntry := mem_ranking.mp (List.mem_of_mem_take hEntry)
  ordered := (report.pairwise_ranking category).sublist (List.take_sublist _ _)
  gravest entry hPlace hCategory hLeftOut other hOther := by
    -- what is left out stands behind what is taken
    have hSplit := List.take_append_drop 5 (report.ranking category)
    have hEntry : entry ∈ (report.ranking category).drop 5 := by
      have hMem := mem_ranking.mpr ⟨hPlace, hCategory⟩
      rw [← hSplit] at hMem
      exact (List.mem_append.mp hMem).resolve_left hLeftOut
    have hOrdered := report.pairwise_ranking category
    rw [← hSplit] at hOrdered
    exact (List.pairwise_append.mp hOrdered).2.2 other hOther entry hEntry

/-! ## Lines -/

/-- The mark of a severity in front of a finding. -/
def severityMark (styled : Bool) : Severity → String
  | .high => Style.apply { bold := true, colour := some .red } styled "[HIGH]"
  | .medium => Style.apply { colour := some .yellow } styled "[MEDIUM]"
  | .low => "[LOW]"

/-- Where a finding is: its path, and the line that it starts in if it has a span. -/
def placeText (finding : Finding) : String :=
  match finding.location with
  | some location => finding.path.text ++ ":" ++ toString location.startLine
  | none => finding.path.text

/-- The line of a finding: the mark of its severity, where it is, and what it is. -/
def findingLine (finding : Finding) (styled : Bool) : String :=
  "  " ++ severityMark styled finding.severity ++ " " ++
    Style.apply { dimmed := true } styled (placeText finding) ++ " " ++ finding.message

/-- The line of what a finding suggests, if it suggests anything. -/
def suggestionLines (finding : Finding) (styled : Bool) : List String :=
  match finding.suggestion with
  | some suggestion => ["      → " ++ Style.apply { italic := true } styled suggestion]
  | none => []

/-- The lines that list placed findings of a category, of which there are `count` in all: the
category with their number, each finding with what it suggests below it, and the number of those
that are left out if there are more than five. -/
def listingLines (category : String) (count : Nat) (listed : List (Finding × Nat))
    (styled : Bool) : List String :=
  let heading := Style.apply { bold := true } styled (Text.upper category)
  let lines := listed.flatMap fun entry =>
    findingLine entry.1 styled :: suggestionLines entry.1 styled
  s!"{heading} ({count})" :: (lines ++
    (if 5 < count then [s!"  … and {count - 5} more"] else []) ++ [""])

theorem apply_label (severity : Severity) (styled : Bool) :
    severity.style.apply styled severity.label = severityMark styled severity := by
  cases severity with
  | high | medium => rfl
  | low =>
    -- low severity has no style of its own
    cases styled <;> rfl

theorem place_eq_placeText (finding : Finding) : finding.place = placeText finding := by
  unfold Finding.place Finding.line? placeText
  cases finding.location <;> rfl

theorem lines_eq_findingLine_cons (finding : Finding) (styled : Bool) :
    finding.lines styled = findingLine finding styled :: suggestionLines finding styled := by
  unfold Finding.lines findingLine suggestionLines
  rw [apply_label, place_eq_placeText]
  cases finding.suggestion <;> rfl

theorem lines_sectionOf (report : Report) (category : String) (styled : Bool) :
    (report.sectionOf category).lines styled = listingLines category
      (report.findingsFor category).length ((report.ranking category).take 5) styled := by
  have hShown : (report.sectionOf category).shown =
      ((report.ranking category).take 5).map Prod.fst := by
    rw [Section.shown, ← map_fst_ranking, List.map_take]
    rfl
  have hOmitted : (report.sectionOf category).omitted =
      (report.findingsFor category).length - 5 := by
    rw [Section.omitted, length_sectionOf]
    rfl
  unfold Section.lines listingLines
  rw [hShown, hOmitted, length_sectionOf, List.flatMap_map]
  simp only [Nat.sub_pos_iff_lt, lines_eq_findingLine_cons]
  rfl

/-- The lines of the sections of some categories. -/
def sectionLines (report : Report) (categories : List CategoryScore) (styled : Bool) :
    List String :=
  ((categories.map fun category => report.sectionOf category.name).filter
    (!·.findings.isEmpty)).flatMap (·.lines styled)

/-- The sections of some categories, one of which has findings. -/
theorem sectionLines_append_cons {category : CategoryScore} (front back : List CategoryScore)
    (hFound : 1 ≤ (report.findingsFor category.name).length) (styled : Bool) :
    report.sectionLines (front ++ category :: back) styled = report.sectionLines front styled ++
      (report.sectionOf category.name).lines styled ++ report.sectionLines back styled := by
  have hKept : (!(report.sectionOf category.name).findings.isEmpty) = true := by
    rw [← length_sectionOf] at hFound
    simpa using List.ne_nil_of_length_pos hFound
  unfold sectionLines
  rw [List.map_append, List.map_cons, List.filter_append, List.filter_cons, if_pos hKept,
    List.flatMap_append, List.flatMap_cons, List.append_assoc]

theorem findingLines_eq_sectionLines (h : report.findings ≠ []) (styled : Bool) :
    report.findingLines styled = report.sectionLines report.score.categories styled := by
  rw [findingLines, if_neg (by simpa using h)]
  rfl

/-! ## Main result -/

/-- Among the lines of a report, a category that has findings has a section at its place among the
categories. Its heading says how many findings there are, and it lists five of them, or all if
there are fewer, followed by the number of the others if there are any. Each has a line with its
severity, its place and its message, and below it a line with its suggestion, if it has one. What is
listed stands in the order of falling severity and, within a severity, in the order of the report,
and nothing that is left out is graver than something listed, or as grave and earlier in the
report. -/
theorem sections_show_gravest {front back : List CategoryScore} {category : CategoryScore}
    (hCategory : report.score.categories = front ++ category :: back)
    (hFound : 1 ≤ (report.findingsFor category.name).length) (styled : Bool) :
    ∃ listed, report.ListsGravest category.name listed ∧
      report.terminalLines styled = report.headerLines styled ++ report.categoryLines styled ++
        (report.sectionLines front styled ++
          listingLines category.name (report.findingsFor category.name).length listed styled ++
          report.sectionLines back styled) ++ report.noteLines styled := by
  refine ⟨_, report.listsGravest_ranking category.name, ?_⟩
  have hFindings : report.findings ≠ [] := by
    intro hNone
    rw [findingsFor, hNone] at hFound
    cases hFound
  rw [terminalLines, findingLines_eq_sectionLines hFindings, hCategory,
    sectionLines_append_cons front back hFound, lines_sectionOf]

/-- A finding of the given rule and severity in `a.ts`. -/
def plainFinding (ruleId : String) (severity : Severity) (message : String) : Finding where
  ruleId := ruleId
  severity := severity
  message := message
  path := ⟨"a.ts"⟩
  location := none
  suggestion := none

/-- A report with seven findings of size and one of complexity between them. -/
def mixedReport : Report where
  root := ⟨"."⟩
  score :=
    { overall := 50.0
      categories := [⟨"complexity", 90.0, 0.5, none⟩, ⟨"size", 10.0, 0.5, none⟩]
      timestamp := ⟨0, 0, 0⟩
      totals := ⟨1, 8, 8⟩ }
  findings := [plainFinding "size" .low "first", plainFinding "size" .medium "second",
    plainFinding "complexity" .high "third", plainFinding "size" .low "fourth",
    plainFinding "size" .high "fifth", plainFinding "size" .medium "sixth",
    plainFinding "size" .low "seventh", plainFinding "size" .high "eighth"]
  summary := ⟨1, 1, 0, ⟨0, 0, 0⟩, [], []⟩

/-- Of the seven findings of size, the two last ones of low severity are left out. -/
theorem sections_show_gravest_mixedReport :
    mixedReport.score.categories = [⟨"complexity", 90.0, 0.5, none⟩] ++
      ⟨"size", 10.0, 0.5, none⟩ :: [] ∧
    1 ≤ (mixedReport.findingsFor "size").length ∧
    ∃ listed, mixedReport.ListsGravest "size" listed ∧ listed.length = 5 ∧
      mixedReport.terminalLines false = mixedReport.headerLines false ++
        mixedReport.categoryLines false ++
        (mixedReport.sectionLines [⟨"complexity", 90.0, 0.5, none⟩] false ++
          listingLines "size" 7 listed false ++ mixedReport.sectionLines [] false) ++
        mixedReport.noteLines false := by
  have hCategory : mixedReport.score.categories = [⟨"complexity", 90.0, 0.5, none⟩] ++
      ⟨"size", 10.0, 0.5, none⟩ :: [] := rfl
  have hCount : (mixedReport.findingsFor "size").length = 7 := by decide
  have hFound : 1 ≤ (mixedReport.findingsFor "size").length := by rw [hCount]; decide
  obtain ⟨listed, hListed, hLines⟩ := sections_show_gravest hCategory hFound false
  refine ⟨hCategory, hFound, listed, hListed, ?_, ?_⟩
  · rw [hListed.length, hCount]
    rfl
  · rw [hLines]
    simp only [hCount]

example : ((mixedReport.ranking "size").take 5).map Prod.snd = [4, 7, 1, 5, 0] := by decide

example : findingLine (plainFinding "size" .high "fifth") false = "  [HIGH] a.ts fifth" := by decide

end Report

end DebtGauge
