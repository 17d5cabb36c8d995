import DebtGauge.Proofs.Run.Report

/-!
# Files that are left out do not interfere

A file that is not supported or that failed adds nothing to the metrics of a run. Without it
the duplicates, the import cycles and the findings are the same, and so is the report, apart
from its counts of files, its warnings and its scores. Only when no file is left at all does
the report say so in a note.

Main definitions and results:

* `SkipsRemoved` — a list of outcomes from which such files were removed;
* `Report.SameFindings` — reports that differ in file counts, warnings, notes and scores only;
* `skipped_files_do_not_interfere` — what a run without such files reports.
-/

namespace DebtGauge

/-- The second list is the first one without some of its files that are not supported or that
failed. -/
inductive SkipsRemoved : List FileOutcome → List FileOutcome → Prop
  | nil : SkipsRemoved [] []
  | keep (outcome : FileOutcome) {all rest : List FileOutcome} (h : SkipsRemoved all rest) :
      SkipsRemoved (outcome :: all) (outcome :: rest)
  | unsupported {all rest : List FileOutcome} (h : SkipsRemoved all rest) :
      SkipsRemoved (.unsupported :: all) rest
  | failed (warning : String) {all rest : List FileOutcome} (h : SkipsRemoved all rest) :
      SkipsRemoved (.failed warning :: all) rest

namespace SkipsRemoved

variable {all rest : List FileOutcome}

theorem analyses_eq (h : SkipsRemoved all rest) :
    FileOutcome.analyses rest = FileOutcome.analyses all := by
  induction h with
  | nil => rfl
  | keep outcome _ ih =>
    rw [FileOutcome.analyses, FileOutcome.analyses, List.filterMap_cons, List.filterMap_cons]
    rw [← FileOutcome.analyses, ← FileOutcome.analyses, ih]
  | unsupported _ ih => exact ih
  | failed warning _ ih => exact ih

/-- The metrics of a run depend on the analyses alone. -/
theorem metrics_eq (h : SkipsRemoved all rest) :
    FileOutcome.metrics rest = FileOutcome.metrics all := by
  rw [FileOutcome.metrics, FileOutcome.metrics, h.analyses_eq]

/-- Unless the last files are removed, files are left just where there were some. -/
theorem isEmpty_eq (h : SkipsRemoved all rest) (hLeft : rest ≠ [] ∨ all = []) :
    rest.isEmpty = all.isEmpty := by
  cases h with
  | nil => rfl
  | keep outcome _ => rfl
  | unsupported _ | failed _ _ =>
    obtain hRest | hAll := hLeft
    · exact List.isEmpty_eq_false_iff.mpr hRest
    · cases hAll

end SkipsRemoved

/-- Two categories that differ in their scores only. -/
def CategoryScore.SameUpToScore (a b : CategoryScore) : Prop :=
  a.name = b.name ∧ a.weight = b.weight ∧ a.description = b.description

/-- Two reports that differ in file counts, warnings, notes and scores only. -/
structure Report.SameFindings (a b : Report) : Prop where
  root_eq : a.root = b.root
  findings_eq : a.findings = b.findings
  categories_eq : List.Forall₂ CategoryScore.SameUpToScore a.score.categories b.score.categories
  score_timestamp_eq : a.score.timestamp = b.score.timestamp
  totalMetrics_eq : a.score.totals.totalMetrics = b.score.totals.totalMetrics
  totalFindings_eq : a.score.totals.totalFindings = b.score.totals.totalFindings
  filesParsed_eq : a.summary.filesParsed = b.summary.filesParsed
  elapsed_eq : a.summary.elapsedMilliseconds = b.summary.elapsedMilliseconds
  timestamp_eq : a.summary.timestamp = b.summary.timestamp

namespace RunOptions

variable (options : RunOptions)

/-- Reports on the same metrics of the same analyses. -/
theorem reportOn_sameFindings {all rest : List FileOutcome} (h : SkipsRemoved all rest)
    (root : FilePath) (now : Instant) (metrics : List Metric) :
    (options.reportOn root rest now metrics).SameFindings
      (options.reportOn root all now metrics) where
  root_eq := rfl
  findings_eq := rfl
  categories_eq := by
    have hScores : List.Forall₂ (fun entry other => entry.1 = other.1 ∧ True)
        (options.scores rest.length metrics) (options.scores all.length metrics) := by
      unfold scores
      rw [List.forall₂_map_left_iff, List.forall₂_map_right_iff]
      exact List.forall₂_same.mpr fun rule _ => ⟨rfl, trivial⟩
    refine (forall₂_categoriesOf_of_forall₂ (R := fun _ _ => True) options.weights hScores).imp ?_
    rintro _ _ ⟨rule, score, score', weight, -, rfl, rfl⟩
    exact ⟨rfl, rfl, rfl⟩
  score_timestamp_eq := rfl
  totalMetrics_eq := rfl
  totalFindings_eq := rfl
  filesParsed_eq := congrArg List.length h.analyses_eq
  elapsed_eq := rfl
  timestamp_eq := rfl

/-- A run without some of the files that are not supported or that failed has the same metrics,
among them those of duplicates and of cycles, and each rule finds the same. It fails if and as
the run with these files fails, and otherwise reports the same up to file counts, warnings and
scores; its notes are the same unless no file is left. -/
theorem skipped_files_do_not_interfere {all rest : List FileOutcome} (h : SkipsRemoved all rest)
    (root : FilePath) (now : Instant) :
    FileOutcome.metrics rest = FileOutcome.metrics all ∧
    (FileAnalysis.detector (FileOutcome.analyses rest)).metrics =
      (FileAnalysis.detector (FileOutcome.analyses all)).metrics ∧
    (FileAnalysis.importGraph (FileOutcome.analyses rest)).cycleMetrics =
      (FileAnalysis.importGraph (FileOutcome.analyses all)).cycleMetrics ∧
    (∀ rule : Rule, FileOutcome.metrics rest >>= rule.evaluate =
      FileOutcome.metrics all >>= rule.evaluate) ∧
    (∀ failure, options.report root rest now = .error failure ↔
      options.report root all now = .error failure) ∧
    ∀ report other, options.report root all now = .ok report →
      options.report root rest now = .ok other →
        other.SameFindings report ∧
          (rest ≠ [] ∨ all = [] → other.summary.notes = report.summary.notes) := by
  refine ⟨h.metrics_eq, by rw [h.analyses_eq], by rw [h.analyses_eq], ?_, ?_, ?_⟩
  · -- the findings of each rule
    intro rule
    rw [h.metrics_eq]
  · -- neither the metrics nor the weights can make one run fail alone
    intro failure
    rw [report_eq_error_iff, report_eq_error_iff, h.metrics_eq]
  · -- the reports
    intro report other hReport hOther
    obtain ⟨metrics, hMetrics, -, rfl⟩ := exists_of_report_ok hReport
    obtain ⟨metrics', hMetrics', -, rfl⟩ := exists_of_report_ok hOther
    rw [h.metrics_eq, hMetrics] at hMetrics'
    cases hMetrics'
    refine ⟨options.reportOn_sameFindings h root now metrics, fun hLeft => ?_⟩
    show (if rest.isEmpty then _ else _) = if all.isEmpty then _ else _
    rw [h.isEmpty_eq hLeft]

/-- A file that imports itself. -/
def selfImport : FileAnalysis where
  path := ⟨"/a.js"⟩
  metrics := []
  blocks := []
  imports := [⟨"/a.js"⟩]

/-- Looks for import cycles. -/
def cycleOptions : RunOptions where
  path := ⟨"/"⟩
  selection := ⟨["**"], []⟩
  weights := .standard
  rules := [.circularDependency]
  parallel := false
  quiet := true

theorem skipped_files_do_not_interfere_selfImport :
    ∃ report other,
      cycleOptions.report ⟨"/"⟩ [.failed "b.js", .analyzed selfImport, .unsupported] ⟨0, 0, 0⟩ =
        .ok report ∧
      cycleOptions.report ⟨"/"⟩ [.analyzed selfImport] ⟨0, 0, 0⟩ = .ok other ∧
      other.SameFindings report ∧ other.summary.notes = report.summary.notes ∧
      report.findings.length = 1 := by
  let all : List FileOutcome := [.failed "b.js", .analyzed selfImport, .unsupported]
  have hRemoved : SkipsRemoved all [.analyzed selfImport] :=
    .failed _ (.keep _ (.unsupported .nil))
  have hFindings : ((cycleOptions.report ⟨"/"⟩ all ⟨0, 0, 0⟩).toOption.map
      fun report => report.findings.length) = some 1 := by decide +kernel
  have hSame := skipped_files_do_not_interfere cycleOptions hRemoved ⟨"/"⟩ ⟨0, 0, 0⟩
  obtain ⟨-, -, -, -, hFails, hReports⟩ := hSame
  cases hReport : cycleOptions.report ⟨"/"⟩ all ⟨0, 0, 0⟩ with
  | error failure =>
    rw [hReport] at hFindings
    cases hFindings
  | ok report =>
    rw [hReport] at hFindings
    cases hOther : cycleOptions.report ⟨"/"⟩ [.analyzed selfImport] ⟨0, 0, 0⟩ with
    | error failure =>
      rw [(hFails failure).mp hOther] at hReport
      cases hReport
    | ok other =>
      obtain ⟨hSame, hNotes⟩ := hReports report other hReport hOther
      exact ⟨report, other, rfl, rfl, hSame, hNotes (.inl (List.cons_ne_nil _ _)),
        Option.some.inj hFindings⟩

/-- Removing the only file, which is not supported, changes the notes of the report. -/
theorem notes_change_without_files :
    SkipsRemoved [.unsupported] [] ∧
    ∃ report other,
      cycleOptions.report ⟨"/"⟩ [.unsupported] ⟨0, 0, 0⟩ = .ok report ∧
      cycleOptions.report ⟨"/"⟩ [] ⟨0, 0, 0⟩ = .ok other ∧
      report.summary.notes = [] ∧ other.summary.notes = ["No source files found"] := by
  have hNotes : ∀ outcomes : List FileOutcome,
      (cycleOptions.report ⟨"/"⟩ outcomes ⟨0, 0, 0⟩).toOption.isSome = true →
        ∃ report, cycleOptions.report ⟨"/"⟩ outcomes ⟨0, 0, 0⟩ = .ok report ∧
          report.summary.notes = if outcomes.isEmpty then [noFilesNote] else [] := by
    intro outcomes hSome
    cases hReport : cycleOptions.report ⟨"/"⟩ outcomes ⟨0, 0, 0⟩ with
    | error failure =>
      rw [hReport] at hSome
      cases hSome
    | ok report =>
      obtain ⟨metrics, -, -, rfl⟩ := exists_of_report_ok hReport
      exact ⟨_, rfl, rfl⟩
  obtain ⟨report, hReport, hSome⟩ := hNotes [.unsupported] (by decide +kernel)
  obtain ⟨other, hOther, hNone⟩ := hNotes [] (by decide +kernel)
  exact ⟨.unsupported .nil, report, other, hReport, hOther, hSome, hNone⟩

end RunOptions

end DebtGauge
