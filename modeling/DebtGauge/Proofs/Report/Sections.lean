import DebtGauge.CommandLine.Options
import DebtGauge.Proofs.Run.FindingPaths
import DebtGauge.Report.Terminal

/-!
# What the sections of a report add up to

A report for a terminal counts its findings in the header, and again in the headings of its
sections, where they are picked out by the names of the categories. There is one category for
each time that a rule is named, so that a rule which is named twice has two sections with all its
findings in each. The counts agree just if no rule with findings is named more than once.

Main definitions and results:

* `Report.Shows` — the lines of a report that show its counts;
* `Report.sum_sections`, `Report.countP_sections` — the counts of the sections, and in how many
  of them a finding stands;
* `sections_account` — when the sections add up to the header;
* `repeated_rule_counted_twice` — a command line for which they do not.
-/

namespace DebtGauge

open DebtGauge.Text (Style)

/-! ## Sums -/

theorem sum_map_eq_iff {α : Type} {f g : α → Nat} {xs : List α} (h : ∀ x ∈ xs, f x ≤ g x) :
    (xs.map g).sum = (xs.map f).sum ↔ ∀ x ∈ xs, g x = f x := by
  induction xs with
  | nil => simp
  | cons x xs ih =>
    obtain ⟨hFirst, hRest⟩ := List.forall_mem_cons.mp h
    have hSum : (xs.map f).sum ≤ (xs.map g).sum := List.sum_le_sum hRest
    rw [List.forall_mem_cons, ← ih hRest, List.map_cons, List.map_cons, List.sum_cons,
      List.sum_cons]
    omega

/-! ## Sections -/

namespace Report

variable {report : Report} {finding : Finding} {category : String}

theorem mem_sectionOf : finding ∈ (report.sectionOf category).findings ↔
    finding ∈ report.findings ∧ finding.ruleId = category := by
  show finding ∈ List.mergeSort _ _ ↔ _
  rw [List.mem_mergeSort, findingsFor, List.mem_filter, decide_eq_true_eq]

theorem length_sectionOf (report : Report) (category : String) :
    (report.sectionOf category).findings.length = (report.findingsFor category).length :=
  List.length_mergeSort _

/-- Sections that are left out would have counted nothing. -/
theorem sum_sections (report : Report) : (report.sections.map (·.findings.length)).sum =
    ((report.score.categories.map (·.name)).map fun name => (report.findingsFor name).length).sum := by
  unfold sections
  generalize report.score.categories = categories
  induction categories with
  | nil => rfl
  | cons category categories ih =>
    have hLength := report.length_sectionOf category.name
    rw [List.map_cons, List.filter_cons, List.map_cons, List.map_cons, List.sum_cons, ← ih]
    cases hFindings : (report.sectionOf category.name).findings with
    | nil =>
      -- the section is left out, and its category has no findings
      rw [hFindings, List.length_nil] at hLength
      rw [List.isEmpty_nil, Bool.not_true, if_neg Bool.false_ne_true, ← hLength, Nat.zero_add]
    | cons finding rest =>
      rw [List.isEmpty_cons, Bool.not_false, if_pos rfl, List.map_cons, List.sum_cons, hLength]

/-- A finding stands in one section for each category of its name. -/
theorem countP_sections (h : finding ∈ report.findings) :
    report.sections.countP (finding ∈ ·.findings) =
      (report.score.categories.map (·.name)).count finding.ruleId := by
  unfold sections
  rw [List.countP_filter, List.countP_map, List.count, List.countP_map]
  refine List.countP_congr fun category _ => ?_
  have hMem : finding ∈ (report.sectionOf category.name).findings ↔
      finding.ruleId = category.name := by
    rw [mem_sectionOf]
    exact and_iff_right h
  rw [Function.comp_apply, Function.comp_apply, Bool.and_eq_true, decide_eq_true_eq, hMem,
    beq_iff_eq, eq_comm]
  constructor
  · exact fun hBoth => hBoth.1
  · -- the section is not left out, for the finding stands in it
    intro hName
    refine ⟨hName, ?_⟩
    rw [Bool.not_eq_true', List.isEmpty_eq_false_iff]
    exact List.ne_nil_of_mem (hMem.mpr hName.symm)

/-- The lines of a report show a total in the header, and a count in the heading of each
section. -/
structure Shows (report : Report) (styled : Bool) (total : Nat) (counts : List Nat) : Prop where
  header : ∃ before after, report.headerLines styled = before ++
    (s!"Files: {report.summary.filesAnalyzed} analyzed, {report.summary.filesParsed} parsed" ++
      s!"  ·  Findings: {total}  ·  {report.summary.elapsedMilliseconds} ms") :: after
  headings : List.Forall₂ (fun (sec : Section) count => ∃ heading rest,
    heading = Style.apply { bold := true } styled (Text.upper sec.category) ∧
      sec.lines styled = s!"{heading} ({count})" :: rest) report.sections counts
  lines : report.terminalLines styled = report.headerLines styled ++
    report.categoryLines styled ++ (if report.findings = [] then
      [Style.apply { colour := some .green } styled "✓ No findings"]
      else report.sections.flatMap (·.lines styled)) ++ report.noteLines styled

theorem shows_counts (report : Report) (styled : Bool) :
    report.Shows styled report.findings.length (report.sections.map (·.findings.length)) where
  header := by
    unfold headerLines
    exact ⟨[_, _, _, _, _], [_], rfl⟩
  headings := List.forall₂_map_right_iff.mpr (List.forall₂_same.mpr fun sec _ =>
    ⟨_, _, rfl, rfl⟩)
  lines := by
    unfold terminalLines findingLines
    simp only [List.isEmpty_iff]

end Report

/-! ## Rules and categories -/

namespace RunOptions

theorem map_name_categories (options : RunOptions) (root : FilePath)
    (outcomes : List FileOutcome) (now : Instant) (metrics : List Metric) :
    (options.reportOn root outcomes now metrics).score.categories.map (·.name) =
      options.rules.map Rule.id := by
  have hMade := forall₂_categoriesOf options.weights (options.scores outcomes.length metrics)
  have hNames : List.Forall₂ (fun (rule : Rule) (category : CategoryScore) =>
      category.name = rule.id) options.rules
      (options.reportOn root outcomes now metrics).score.categories :=
    (List.forall₂_map_left_iff.mp hMade).imp fun _ _ h => h.1
  rw [eq_comm, ← List.forall₂_eq_eq_eq, List.forall₂_map_left_iff, List.forall₂_map_right_iff]
  exact hNames.imp fun _ _ h => h.symm

/-- The findings that carry the identifier of a rule are those of the rule, as often as it is
named. -/
theorem length_filter_found (rules : List Rule) (rule : Rule) (metrics : List Metric) :
    ((rules.flatMap (·.found metrics)).filter (·.ruleId = rule.id)).length =
      rules.count rule * (rule.found metrics).length := by
  induction rules with
  | nil => simp
  | cons other rules ih =>
    rw [List.flatMap_cons, List.filter_append, List.length_append, ih, List.count_cons]
    -- a rule gives all its findings or none, for rules differ in their identifiers
    by_cases hSame : other = rule
    · subst hSame
      have hAll : (other.found metrics).filter (·.ruleId = other.id) = other.found metrics :=
        List.filter_eq_self.mpr fun finding hFinding =>
          decide_eq_true (Rule.ruleId_of_mem_found hFinding)
      rw [hAll, beq_self_eq_true, if_pos rfl, Nat.succ_mul, Nat.add_comm]
    · have hNone : (other.found metrics).filter (·.ruleId = rule.id) = [] := by
        refine List.filter_eq_nil_iff.mpr fun finding hFinding hId => hSame ?_
        exact Rule.id_injective
          ((Rule.ruleId_of_mem_found hFinding).symm.trans (of_decide_eq_true hId))
      rw [hNone, beq_false_of_ne hSame, if_neg Bool.false_ne_true, List.length_nil, Nat.zero_add,
        Nat.add_zero]

variable {options : RunOptions} {root : FilePath} {outcomes : List FileOutcome} {now : Instant}
  {metrics : List Metric}

/-- A finding of a report stands in as many sections as its rule is named. -/
theorem countP_sections_of_mem_found {rule : Rule} {finding : Finding} (hRule : rule ∈ options.rules)
    (hFound : finding ∈ rule.found metrics) :
    (options.reportOn root outcomes now metrics).sections.countP (finding ∈ ·.findings) =
      options.rules.count rule := by
  have hMem : finding ∈ (options.reportOn root outcomes now metrics).findings :=
    List.mem_flatMap.mpr ⟨rule, hRule, hFound⟩
  rw [Report.countP_sections hMem, map_name_categories, Rule.ruleId_of_mem_found hFound]
  exact List.count_map_of_injective options.rules Rule.id (fun _ _ => Rule.id_injective) rule

/-- The sections add up to the findings just if each rule with findings is named once. -/
theorem sum_sections_eq_iff_count :
    ((options.reportOn root outcomes now metrics).sections.map (·.findings.length)).sum =
        (options.found metrics).length ↔
      ∀ rule ∈ options.rules, rule.found metrics ≠ [] → options.rules.count rule = 1 := by
  have hSections : ((options.reportOn root outcomes now metrics).sections.map
      (·.findings.length)).sum = (options.rules.map fun rule =>
        options.rules.count rule * (rule.found metrics).length).sum := by
    rw [Report.sum_sections, map_name_categories, List.map_map]
    congr 1
    exact List.map_congr_left fun rule _ => length_filter_found options.rules rule metrics
  have hFindings : (options.found metrics).length =
      (options.rules.map fun rule => (rule.found metrics).length).sum := List.length_flatMap
  have hAtLeast : ∀ rule ∈ options.rules, (rule.found metrics).length ≤
      options.rules.count rule * (rule.found metrics).length :=
    fun rule hRule => Nat.le_mul_of_pos_left _ (List.count_pos_iff.mpr hRule)
  -- no section counts too few, so the sums agree just if each section counts right
  rw [hSections, hFindings, sum_map_eq_iff hAtLeast]
  refine forall₂_congr fun rule _ => ?_
  constructor
  · intro hEach hFound
    exact Nat.eq_of_mul_eq_mul_right (List.length_pos_of_ne_nil hFound)
      (hEach.trans (Nat.one_mul _).symm)
  · intro hOnce
    by_cases hFound : rule.found metrics = []
    · rw [hFound, List.length_nil, Nat.mul_zero]
    · rw [hOnce hFound, Nat.one_mul]

/-- The sections add up to the findings just if each finding stands in one of them. -/
theorem sum_sections_eq_iff :
    ((options.reportOn root outcomes now metrics).sections.map (·.findings.length)).sum =
        (options.found metrics).length ↔
      ∀ finding ∈ options.found metrics, (options.reportOn root outcomes now metrics).sections.countP
        (finding ∈ ·.findings) = 1 := by
  rw [sum_sections_eq_iff_count]
  constructor
  · intro hOnce finding hFinding
    obtain ⟨rule, hRule, hFound⟩ := List.mem_flatMap.mp hFinding
    rw [countP_sections_of_mem_found hRule hFound]
    exact hOnce rule hRule (List.ne_nil_of_mem hFound)
  · intro hOne rule hRule hNe
    obtain ⟨finding, hFound⟩ := List.exists_mem_of_ne_nil _ hNe
    rw [← countP_sections_of_mem_found hRule hFound]
    exact hOne finding (List.mem_flatMap.mpr ⟨rule, hRule, hFound⟩)

end RunOptions

/-! ## Main result -/

open CommandLine

/-- Without a list of rules on the command line, each rule is evaluated once. -/
theorem rules_of_options {arguments : AnalyzeArguments} {settings : Settings}
    {options : RunOptions} (h : arguments.options settings = .ok options)
    (hNone : arguments.rules = none) : options.rules = Rule.all := by
  obtain ⟨weights, -, h⟩ := exists_of_bind_ok h
  obtain ⟨rules, hRules, h⟩ := exists_of_bind_ok h
  cases h
  rw [hNone] at hRules
  cases hRules
  rfl

/-- The text for a terminal shows the number of findings in its header and the numbers of those
in each section in the headings. A finding stands in as many sections as its rule is named, so
that the sections add up to the header just if every finding stands in one section. They do if no
rule is named twice, and so they do without a list of rules on the command line. -/
theorem sections_account {arguments : AnalyzeArguments} {settings : Settings}
    {options : RunOptions} {parser : Parser} {fs : FileSystem} {now : Instant} {report : Report}
    (hOptions : arguments.options settings = .ok options)
    (hReport : analyzeProject parser fs now options = .ok report) :
    (∀ styled, report.Shows styled report.findings.length
      (report.sections.map (·.findings.length))) ∧
    (∀ finding ∈ report.findings, ∃ rule ∈ options.rules, finding.ruleId = rule.id ∧
      report.sections.countP (finding ∈ ·.findings) = options.rules.count rule) ∧
    ((report.sections.map (·.findings.length)).sum = report.findings.length ↔
      ∀ finding ∈ report.findings, report.sections.countP (finding ∈ ·.findings) = 1) ∧
    (options.rules.Nodup →
      (report.sections.map (·.findings.length)).sum = report.findings.length) ∧
    (arguments.rules = none →
      (report.sections.map (·.findings.length)).sum = report.findings.length) := by
  obtain ⟨root, files, outcomes, metrics, -, -, -, -, rfl⟩ := exists_of_analyzeProject_ok hReport
  have hNodup : options.rules.Nodup →
      ((options.reportOn root outcomes now metrics).sections.map (·.findings.length)).sum =
        (options.found metrics).length := fun hRules =>
    RunOptions.sum_sections_eq_iff_count.mpr fun rule hRule _ =>
      List.count_eq_one_of_mem hRules hRule
  refine ⟨fun styled => Report.shows_counts _ styled, ?_, RunOptions.sum_sections_eq_iff, hNodup, ?_⟩
  · -- the sections that a finding stands in
    intro finding hFinding
    obtain ⟨rule, hRule, hFound⟩ := List.mem_flatMap.mp hFinding
    exact ⟨rule, hRule, Rule.ruleId_of_mem_found hFound,
      RunOptions.countP_sections_of_mem_found hRule hFound⟩
  · -- all rules, each of them once
    intro hNone
    refine hNodup ?_
    rw [rules_of_options hOptions hNone]
    decide

/-- A command line that asks for import cycles below `./` with a list of rules. -/
def cyclesArguments (rules : List String) : AnalyzeArguments where
  path := ⟨"./"⟩
  format := .terminal
  output := none
  included := some ["**"]
  ignored := some []
  weights := none
  rules := some rules
  noParallel := true
  jobs := 0
  failUnder := none
  quiet := true

/-- The options that the command line leads to. -/
def cyclesOptions (rules : List Rule) : RunOptions :=
  { cyclesBelow "./" with rules }

/-- With the rule named once, the finding is counted once. -/
theorem sections_account_selfImport :
    ∃ report, analyzeProject selfImportParser selfImportProject ⟨0, 0, 0⟩
        (cyclesOptions [.circularDependency]) = .ok report ∧
      report.Shows true 1 (report.sections.map (·.findings.length)) ∧
      (report.sections.map (·.findings.length)).sum = 1 := by
  have hOptions : (cyclesArguments ["circular-dependency"]).options .standard =
      .ok (cyclesOptions [.circularDependency]) := rfl
  have hCount : (analyzeProject selfImportParser selfImportProject ⟨0, 0, 0⟩
      (cyclesOptions [.circularDependency])).toOption.map (·.findings.length) = some 1 := by
    decide +kernel
  obtain ⟨report, hReport, hFindings⟩ := exists_of_toOption_map hCount
  obtain ⟨hShows, -, -, hNodup, -⟩ := sections_account hOptions hReport
  rw [hFindings] at hShows hNodup
  exact ⟨report, hReport, hShows true, hNodup (List.nodup_singleton _)⟩

/-- With the rule named twice, the header counts two findings and the sections count four. -/
theorem repeated_rule_counted_twice :
    ∃ options report,
      (cyclesArguments ["circular-dependency", "circular-dependency"]).options .standard =
        .ok options ∧
      analyzeProject selfImportParser selfImportProject ⟨0, 0, 0⟩ options = .ok report ∧
      report.findings.length = 2 ∧ (report.sections.map (·.findings.length)).sum = 4 := by
  have hOptions : (cyclesArguments ["circular-dependency", "circular-dependency"]).options
      .standard = .ok (cyclesOptions [.circularDependency, .circularDependency]) := rfl
  have hCounts : (analyzeProject selfImportParser selfImportProject ⟨0, 0, 0⟩
      (cyclesOptions [.circularDependency, .circularDependency])).toOption.map
        (fun report => (report.findings.length, ((report.score.categories.map (·.name)).map
          fun name => (report.findingsFor name).length).sum)) = some (2, 4) := by
    decide +kernel
  obtain ⟨report, hReport, hCounted⟩ := exists_of_toOption_map hCounts
  obtain ⟨hFindings, hSum⟩ := Prod.mk.inj hCounted
  exact ⟨_, report, hOptions, hReport, hFindings, by rw [Report.sum_sections, hSum]⟩

end DebtGauge
