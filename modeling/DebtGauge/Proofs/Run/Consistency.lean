import DebtGauge.Proofs.Run.Report

/-!
# A report agrees with itself

Counts, findings, categories and scores of a report are made at different places. They fit
together all the same: each discovered file is parsed, warned about or not supported, the
findings stand rule by rule, and a category's score is that of the findings which the
report lists for it.

Main definitions and results:

* `Report.Consistent` — how the parts of a report fit together;
* `report_consistent` — they do so in the report on any project.
-/

namespace DebtGauge

/-! ## Files -/

namespace FileOutcome

/-- A file is analysed or fails if its name selects a language, and else is passed over. -/
theorem ofFile_cases {parser : Parser} {fs : FileSystem} {path : FilePath} {outcome : FileOutcome}
    (h : ofFile parser fs path = .ok outcome) :
    (Language.isSupported path = true ∧ ∃ analysis, outcome = .analyzed analysis) ∨
      (Language.isSupported path = true ∧ ∃ warning, outcome = .failed warning) ∨
      (Language.isSupported path = false ∧ outcome = .unsupported) := by
  unfold ofFile at h
  by_cases hSupported : Language.isSupported path = true
  · rw [if_pos hSupported] at h
    cases hAnalysis : analyzeFile parser fs path with
    | ok analysis =>
      rw [hAnalysis] at h
      cases h
      exact .inl ⟨hSupported, analysis, rfl⟩
    | error failure =>
      rw [hAnalysis] at h
      dsimp only at h
      by_cases hRecoverable : failure.isRecoverable = true
      · rw [if_pos hRecoverable] at h
        cases h
        exact .inr (.inl ⟨hSupported, _, rfl⟩)
      · rw [if_neg hRecoverable] at h
        cases h
  · rw [if_neg hSupported] at h
    cases h
    exact .inr (.inr ⟨eq_false_of_ne_true hSupported, rfl⟩)

/-- Each file is parsed, warned about or not supported. -/
theorem length_eq_of_outcomes {parser : Parser} {fs : FileSystem} {files : List FilePath}
    {outcomes : List FileOutcome}
    (h : List.Forall₂ (fun path outcome => ofFile parser fs path = .ok outcome) files outcomes) :
    outcomes.length = (analyses outcomes).length + (warnings outcomes).length +
      files.countP fun path => !Language.isSupported path := by
  induction h with
  | nil => rfl
  | @cons path outcome files outcomes hOutcome _ ih =>
    rw [List.countP_cons, List.length_cons, ih]
    obtain ⟨hSupported, analysis, rfl⟩ | ⟨hSupported, warning, rfl⟩ | ⟨hSupported, rfl⟩ :=
      ofFile_cases hOutcome
    · -- parsed
      have hAnalyses : (analyses (.analyzed analysis :: outcomes)).length =
          (analyses outcomes).length + 1 := rfl
      have hWarnings : warnings (.analyzed analysis :: outcomes) = warnings outcomes := rfl
      rw [hAnalyses, hWarnings, if_neg (by rw [hSupported]; decide)]
      omega
    · -- warned about
      have hAnalyses : analyses (.failed warning :: outcomes) = analyses outcomes := rfl
      have hWarnings : (warnings (.failed warning :: outcomes)).length =
          (warnings outcomes).length + 1 := rfl
      rw [hAnalyses, hWarnings, if_neg (by rw [hSupported]; decide)]
      omega
    · -- not supported
      have hAnalyses : analyses (.unsupported :: outcomes) = analyses outcomes := rfl
      have hWarnings : warnings (.unsupported :: outcomes) = warnings outcomes := rfl
      rw [hAnalyses, hWarnings, if_pos (by rw [hSupported]; decide)]
      omega

end FileOutcome

/-! ## Findings -/

theorem Rule.id_injective {rule other : Rule} (h : rule.id = other.id) : rule = other := by
  rw [← Option.some_inj, ← ofId?_id rule, h, ofId?_id]

namespace RunOptions

/-- Among the findings of different rules, those with the identifier of one of the rules are
the findings of that rule. -/
theorem filter_flatMap_found {rules : List Rule} (hRules : rules.Nodup) {rule : Rule}
    (hRule : rule ∈ rules) (metrics : List Metric) :
    (rules.flatMap (·.found metrics)).filter (·.ruleId = rule.id) = rule.found metrics := by
  have hOwn : (rule.found metrics).filter (·.ruleId = rule.id) = rule.found metrics :=
    List.filter_eq_self.mpr fun finding hFinding =>
      decide_eq_true (Rule.ruleId_of_mem_found hFinding)
  -- the findings of another rule are all dropped
  have hOther : ∀ others : List Rule, rule ∉ others →
      (others.flatMap (·.found metrics)).filter (·.ruleId = rule.id) = [] := by
    intro others hNotMem
    refine List.filter_eq_nil_iff.mpr fun finding hFinding hId => ?_
    obtain ⟨other, hMem, hFound⟩ := List.mem_flatMap.mp hFinding
    have hSame : other = rule :=
      Rule.id_injective ((Rule.ruleId_of_mem_found hFound).symm.trans (of_decide_eq_true hId))
    exact hNotMem (hSame ▸ hMem)
  -- the rule stands once in the list, with other rules before and after it
  obtain ⟨before, after, rfl⟩ := List.append_of_mem hRule
  have hBefore : rule ∉ before := fun hMem =>
    (List.nodup_append.mp hRules).2.2 rule hMem rule (List.mem_cons_self ..) rfl
  have hAfter : rule ∉ after :=
    (List.nodup_cons.mp (List.nodup_append.mp hRules).2.1).1
  rw [List.flatMap_append, List.flatMap_cons, List.filter_append, List.filter_append,
    hOther before hBefore, hOwn, hOther after hAfter, List.nil_append, List.append_nil]

end RunOptions

/-! ## The report -/

/-- The findings that a rule makes of metrics, all of them with the rule's identifier. -/
def Rule.IsBlock (metrics : List Metric) (rule : Rule) (block : List Finding) : Prop :=
  rule.evaluate metrics = .ok block ∧ ∀ finding ∈ block, finding.ruleId = rule.id

/-- A category of a report that belongs to a rule: its score is that of the findings which
the report lists for it, in a run over as many files as the report counts. -/
def Report.IsCategory (report : Report) (rule : Rule) (category : CategoryScore) : Prop :=
  category.name = rule.id ∧
    category.score = rule.score (some report.summary.filesAnalyzed)
      (report.findingsFor category.name)

/-- How the parts of a report on files and their metrics fit together. -/
structure Report.Consistent (rules : List Rule) (files : List FilePath) (metrics : List Metric)
    (report : Report) : Prop where
  filesAnalyzed_eq : report.summary.filesAnalyzed = files.length
  /-- Each file is parsed, warned about or not supported. -/
  files_accounted : report.summary.filesAnalyzed = report.summary.filesParsed +
    report.summary.warnings.length + files.countP fun path => !Language.isSupported path
  /-- The findings stand rule by rule. -/
  findings_blocks : ∃ blocks, List.Forall₂ (Rule.IsBlock metrics) rules blocks ∧
    report.findings = blocks.flatten
  categories_scored : List.Forall₂ report.IsCategory rules report.score.categories
  totals_filesAnalyzed : report.score.totals.filesAnalyzed = report.summary.filesAnalyzed
  totals_totalFindings : report.score.totals.totalFindings = report.findings.length

/-- The report on the metrics of files is consistent if different rules were evaluated. -/
theorem RunOptions.reportOn_consistent {options : RunOptions} {parser : Parser}
    {fs : FileSystem} {files : List FilePath} {outcomes : List FileOutcome}
    (hRules : options.rules.Nodup)
    (hOutcomes : files.mapM (FileOutcome.ofFile parser fs) = .ok outcomes) (root : FilePath)
    (now : Instant) (metrics : List Metric) :
    (options.reportOn root outcomes now metrics).Consistent options.rules files metrics := by
  have hAll := forall₂_of_mapM hOutcomes
  have hBlocks : List.Forall₂ (Rule.IsBlock metrics) options.rules
      (options.rules.map (·.found metrics)) :=
    List.forall₂_map_right_iff.mpr (List.forall₂_same.mpr fun rule _ =>
      ⟨rule.evaluate_eq metrics, fun _ => Rule.ruleId_of_mem_found⟩)
  have hMade := forall₂_categoriesOf options.weights (options.scores outcomes.length metrics)
  have hScored : List.Forall₂ (options.reportOn root outcomes now metrics).IsCategory options.rules
      (options.reportOn root outcomes now metrics).score.categories := by
    -- the categories stand beside the rules, whose findings are picked out by identifier
    refine ((List.forall₂_and_left _ _).mpr
      ⟨fun _ hRule => hRule, List.forall₂_map_left_iff.mp hMade⟩).imp ?_
    rintro rule category ⟨hRule, hName, hScore⟩
    have hFindings : (options.reportOn root outcomes now metrics).findingsFor category.name =
        rule.found metrics := by
      rw [hName]
      exact filter_flatMap_found hRules hRule metrics
    refine ⟨hName, ?_⟩
    rw [hFindings]
    exact hScore
  exact
    { filesAnalyzed_eq := hAll.length_eq.symm
      files_accounted := FileOutcome.length_eq_of_outcomes hAll
      findings_blocks := ⟨_, hBlocks, List.flatMap_def ..⟩
      categories_scored := hScored
      totals_filesAnalyzed := rfl
      totals_totalFindings := rfl }

/-- The report on a project whose rules are different is consistent with the files that were
discovered and with the metrics of their outcomes. -/
theorem report_consistent {parser : Parser} {fs : FileSystem} {now : Instant}
    {options : RunOptions} {report : Report} (hRules : options.rules.Nodup)
    (h : analyzeProject parser fs now options = .ok report) :
    ∃ root files outcomes metrics,
      options.path.absoluteFrom? fs.workingDirectory = some root ∧
      fs.sourceFiles root options.selection = .ok files ∧
      files.mapM (FileOutcome.ofFile parser fs) = .ok outcomes ∧
      FileOutcome.metrics outcomes = .ok metrics ∧
      report.Consistent options.rules files metrics := by
  unfold analyzeProject at h
  cases hRoot : options.path.absoluteFrom? fs.workingDirectory with
  | none =>
    rw [hRoot] at h
    cases h
  | some root =>
    rw [hRoot] at h
    obtain ⟨files, hFiles, h⟩ := exists_of_bind_ok h
    obtain ⟨outcomes, hOutcomes, h⟩ := exists_of_bind_ok h
    obtain ⟨metrics, hMetrics, -, rfl⟩ := RunOptions.exists_of_report_ok h
    exact ⟨root, files, outcomes, metrics, rfl, hFiles, hOutcomes, hMetrics,
      RunOptions.reportOn_consistent hRules hOutcomes root now metrics⟩

/-- A part of the script `(a,b,c,d,e,f)=>0`. -/
def scriptNode (kind : String) (field : Option String) (start stop : Nat)
    (children : List SyntaxTree) : SyntaxTree :=
  .node { kind, field, isNamed := true, isError := false, isMissing := false, hasError := false
          start := ⟨start, 0, start⟩, stop := ⟨stop, 0, stop⟩ } children

/-- A function with six parameters. -/
def sixParameters : SyntaxTree :=
  scriptNode "program" none 0 16 [scriptNode "arrow_function" none 0 16
    [scriptNode "formal_parameters" (some "parameters") 0 13
      ((List.range 6).map fun i => scriptNode "identifier" none (2 * i + 1) (2 * i + 2) []),
     scriptNode "number" (some "body") 15 16 []]]

/-- A script that no tree is found for, a script with a function, and a text. -/
def mixedProject : FileSystem where
  tree := .directory [("broken.js", .file (Text.toBytes "(")),
    ("good.js", .file (Text.toBytes "(a,b,c,d,e,f)=>0")), ("notes.txt", .file (Text.toBytes "-"))]
  workingDirectory := ⟨"/"⟩

/-- Looks at all files, for the size of functions and the use of `any`. -/
def mixedOptions : RunOptions where
  path := ⟨"/"⟩
  selection := ⟨["**"], []⟩
  weights := .standard
  rules := [.size, .typeSafety]
  parallel := false
  quiet := true

theorem report_consistent_mixedProject :
    ∃ report files metrics,
      analyzeProject (fun _ text => if text = "(" then none else some sixParameters) mixedProject
        ⟨0, 0, 0⟩ mixedOptions = .ok report ∧
      report.Consistent [.size, .typeSafety] files metrics ∧ files.length = 3 ∧
      report.summary.warnings.length = 1 ∧ report.findings.length = 1 := by
  let parser : Parser := fun _ text => if text = "(" then none else some sixParameters
  let files : List FilePath := [⟨"/broken.js"⟩, ⟨"/good.js"⟩, ⟨"/notes.txt"⟩]
  have hSort : FilePath.sort files = files := List.mergeSort_of_pairwise (by decide +kernel)
  have hFiles : mixedProject.sourceFiles ⟨"/"⟩ mixedOptions.selection = .ok files := by
    have hFound : mixedProject.sourceFiles ⟨"/"⟩ mixedOptions.selection =
        .ok (FilePath.sort files) := rfl
    rw [hFound, hSort]
  have hAnalysis : analyzeProject parser mixedProject ⟨0, 0, 0⟩ mixedOptions =
      files.mapM (FileOutcome.ofFile parser mixedProject) >>= fun outcomes =>
        mixedOptions.report ⟨"/"⟩ outcomes ⟨0, 0, 0⟩ := by
    show (mixedProject.sourceFiles ⟨"/"⟩ mixedOptions.selection >>= _) = _
    rw [hFiles]
    rfl
  have hOutcome : ((analyzeProject parser mixedProject ⟨0, 0, 0⟩ mixedOptions).toOption.map
      fun report => (report.summary.filesAnalyzed, report.summary.warnings.length,
        report.findings.length)) = some (3, 1, 1) := by
    rw [hAnalysis]
    decide +kernel
  cases hReport : analyzeProject parser mixedProject ⟨0, 0, 0⟩ mixedOptions with
  | error failure =>
    rw [hReport] at hOutcome
    cases hOutcome
  | ok report =>
    have hRules : mixedOptions.rules.Nodup := by decide
    obtain ⟨_, files, _, metrics, _, _, _, _, hConsistent⟩ := report_consistent hRules hReport
    rw [hReport] at hOutcome
    simp only [Except.toOption, Option.map_some, Option.some.injEq, Prod.mk.injEq] at hOutcome
    obtain ⟨hAnalyzed, hWarnings, hFindings⟩ := hOutcome
    exact ⟨report, files, metrics, rfl, hConsistent,
      hConsistent.filesAnalyzed_eq.symm.trans hAnalyzed, hWarnings, hFindings⟩

end DebtGauge
