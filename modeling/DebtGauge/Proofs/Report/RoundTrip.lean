import DebtGauge.Proofs.Json.RoundTrip
import DebtGauge.Report.Json

/-!
# Reports survive being written and read

A report is written with the names of its fields, and its optional fields are left out if they
have no value. Reading it back gives the report, whatever characters its texts have and whatever
is left out. That the texts of doubles and of instants are read back is an assumption about the
doubles and instants of the report: for some other doubles it does not hold, as a numeral is read
with two roundings.

Main definitions:

* `ReadsBack` — the text of a double is read back;
* `Report.counts`, `Report.doubles`, `Report.instants` — the numbers and instants of a report.

Main results:

* `Report.ofJson?_toJson` — the value of a report describes the report;
* `Report.isReadable_toJson` — the text of that value is read back;
* `Report.ofJson?_jsonText` — the text of a report is read as the report.
-/

namespace DebtGauge

open Json (IsReadable)

/-! ## Records as values -/

theorem listOf?_map {α : Type} {read : Json → Option α} {write : α → Json} {xs : List α}
    (h : ∀ x ∈ xs, read (write x) = some x) : listOf? read (.array (xs.map write)) = some xs := by
  show (xs.map write).mapM read = some xs
  induction xs with
  | nil => rfl
  | cons x xs ih =>
    rw [List.map_cons, List.mapM_cons, h x (List.mem_cons_self ..),
      ih fun y hy => h y (List.mem_cons_of_mem _ hy)]
    rfl

theorem listOf?_string (texts : List String) :
    listOf? Json.string? (.array (texts.map .string)) = some texts :=
  listOf?_map fun _ _ => rfl

/-- A field that is left out, or written with a value that is not null, is read as it was. -/
theorem optional?_map {α : Type} {read : Json → Option α} {write : α → Json} {value? : Option α}
    (hRead : ∀ value, read (write value) = some value)
    (hNull : ∀ value, (write value).isNull = false) :
    optional? read (value?.map write) = some value? := by
  cases value? with
  | none => rfl
  | some value =>
    rw [Option.map_some, optional?, hNull value, if_neg Bool.false_ne_true, hRead value,
      Option.map_some]

theorem optional?_string (text? : Option String) :
    optional? Json.string? (text?.map .string) = some text? :=
  optional?_map (fun _ => rfl) (fun _ => rfl)

theorem Severity.ofJson?_name (severity : Severity) :
    ofJson? (.string severity.name) = some severity := Severity.ofName?_name severity

theorem Location.ofJson?_toJson (location : Location) :
    ofJson? location.toJson = some location := rfl

theorem Finding.ofJson?_toJson (finding : Finding) : ofJson? finding.toJson = some finding := by
  have hValues : recordValues?
      ["rule_id", "severity", "message", "file_path", "location", "suggestion"] finding.toJson =
    some [some (.string finding.ruleId), some (.string finding.severity.name),
      some (.string finding.message), some (.string finding.path.text),
      finding.location.map Location.toJson, finding.suggestion.map .string] := by
    obtain ⟨ruleId, severity, message, path, location, suggestion⟩ := finding
    -- either optional field may be left out
    cases location <;>
      cases suggestion <;>
      rfl
  have hLocation : optional? Location.ofJson? (finding.location.map Location.toJson) =
      some finding.location :=
    optional?_map Location.ofJson?_toJson (fun _ => rfl)
  rw [Finding.ofJson?, hValues]
  simp only [required?, Option.bind_eq_bind, Option.bind_some, Option.pure_def, Json.string?,
    FilePath.ofJson?, Option.map_some, Severity.ofJson?_name, hLocation, optional?_string]

theorem CategoryScore.ofJson?_toJson (category : CategoryScore) :
    ofJson? category.toJson = some category := by
  have hValues : recordValues? ["name", "score", "weight", "description"] category.toJson =
      some [some (.string category.name), some (.real category.score),
        some (.real category.weight), category.description.map .string] := by
    obtain ⟨name, score, weight, description⟩ := category
    cases description <;> rfl
  rw [CategoryScore.ofJson?, hValues]
  simp only [required?, Option.bind_eq_bind, Option.bind_some, Option.pure_def, Json.string?,
    Json.float?, optional?_string]

theorem ScoreTotals.ofJson?_toJson (totals : ScoreTotals) : ofJson? totals.toJson = some totals :=
  rfl

theorem Instant.ofJson?_text {instant : Instant} (h : read? instant.text = some instant) :
    ofJson? (.string instant.text) = some instant := by
  rw [Instant.ofJson?, Json.string?, Option.bind_some, h]

theorem Json.nat?_nat (n : Nat) : nat? (.nat n) = some n := rfl

theorem Score.ofJson?_toJson {score : Score}
    (hInstant : Instant.read? score.timestamp.text = some score.timestamp) :
    ofJson? score.toJson = some score := by
  have hValues : recordValues? ["overall", "categories", "timestamp", "metadata"] score.toJson =
      some [some (.real score.overall),
        some (.array (score.categories.map CategoryScore.toJson)),
        some (.string score.timestamp.text), some score.totals.toJson] := rfl
  have hCategories : listOf? CategoryScore.ofJson?
      (.array (score.categories.map CategoryScore.toJson)) = some score.categories :=
    listOf?_map fun category _ => category.ofJson?_toJson
  rw [Score.ofJson?, hValues]
  simp only [required?, Option.bind_eq_bind, Option.bind_some, Option.pure_def, Json.float?,
    hCategories, Instant.ofJson?_text hInstant, ScoreTotals.ofJson?_toJson]

theorem RunSummary.ofJson?_toJson {summary : RunSummary}
    (hInstant : Instant.read? summary.timestamp.text = some summary.timestamp) :
    ofJson? summary.toJson = some summary := by
  have hValues : recordValues?
      ["files_analyzed", "files_parsed", "elapsed_ms", "timestamp", "warnings", "notes"]
      summary.toJson =
    some [some (.nat summary.filesAnalyzed), some (.nat summary.filesParsed),
      some (.nat summary.elapsedMilliseconds), some (.string summary.timestamp.text),
      some (.array (summary.warnings.map .string)),
      some (.array (summary.notes.map .string))] := rfl
  rw [RunSummary.ofJson?, hValues]
  simp only [required?, Option.bind_eq_bind, Option.bind_some, Option.pure_def, Json.nat?_nat,
    Instant.ofJson?_text hInstant, listOf?_string]

/-- The value of a report describes the report. -/
theorem Report.ofJson?_toJson {report : Report}
    (hScore : Instant.read? report.score.timestamp.text = some report.score.timestamp)
    (hSummary : Instant.read? report.summary.timestamp.text = some report.summary.timestamp) :
    ofJson? report.toJson = some report := by
  have hValues : recordValues? ["root", "score", "findings", "metadata"] report.toJson =
      some [some (.string report.root.text), some report.score.toJson,
        some (.array (report.findings.map Finding.toJson)), some report.summary.toJson] := rfl
  have hFindings : listOf? Finding.ofJson? (.array (report.findings.map Finding.toJson)) =
      some report.findings := listOf?_map fun finding _ => finding.ofJson?_toJson
  rw [Report.ofJson?, hValues]
  simp only [required?, Option.bind_eq_bind, Option.bind_some, Option.pure_def, FilePath.ofJson?,
    Json.string?, Option.map_some, Score.ofJson?_toJson hScore, hFindings,
    RunSummary.ofJson?_toJson hSummary]

/-! ## Records as texts -/

/-- The lines and columns of a span. -/
def Location.counts (location : Location) : List Nat :=
  [location.startLine, location.endLine, location.startColumn, location.endColumn]

/-- The whole numbers of a report. -/
def Report.counts (report : Report) : List Nat :=
  [report.score.totals.filesAnalyzed, report.score.totals.totalMetrics,
    report.score.totals.totalFindings, report.summary.filesAnalyzed, report.summary.filesParsed,
    report.summary.elapsedMilliseconds] ++
  report.findings.flatMap fun finding => finding.location.toList.flatMap Location.counts

/-- The scores and weights of a report. -/
def Report.doubles (report : Report) : List Float :=
  report.score.overall ::
    report.score.categories.flatMap fun category => [category.score, category.weight]

/-- The instants of a report. -/
def Report.instants (report : Report) : List Instant :=
  [report.score.timestamp, report.summary.timestamp]

/-- The text of the double is read back as the double. -/
def ReadsBack (x : Float) : Prop := Json.read? (Decimal.jsonText x) = some (.real x)

variable {depth : Nat}

theorem isReadable_optionalField {α : Type} {name : String} {write : α → Json} {value? : Option α}
    (h : ∀ value ∈ value?, IsReadable depth (write value)) :
    ∀ field ∈ optionalField name write value?, IsReadable depth field.2 := by
  intro field hField
  obtain ⟨value, hValue, rfl⟩ := List.mem_map.mp hField
  exact h value (Option.mem_toList.mp hValue)

theorem Location.isReadable_toJson {location : Location} (h : ∀ n ∈ location.counts, n < 2 ^ 64) :
    IsReadable (depth + 1) location.toJson := by
  simp only [counts, List.forall_mem_cons] at h
  obtain ⟨hStartLine, hEndLine, hStartColumn, hEndColumn, -⟩ := h
  refine .object ?_
  simp only [List.forall_mem_cons]
  exact ⟨.nat _ hStartLine, .nat _ hEndLine, .nat _ hStartColumn, .nat _ hEndColumn, nofun⟩

theorem Finding.isReadable_toJson {finding : Finding}
    (h : ∀ location ∈ finding.location, ∀ n ∈ location.counts, n < 2 ^ 64) :
    IsReadable (depth + 2) finding.toJson := by
  refine .object (List.forall_mem_append.mpr ⟨List.forall_mem_append.mpr ⟨?_, ?_⟩, ?_⟩)
  · -- the fields that are always there, then those that may be left out
    simp only [List.forall_mem_cons]
    exact ⟨.string _ _, .string _ _, .string _ _, .string _ _, nofun⟩
  · exact isReadable_optionalField fun location hLocation =>
      Location.isReadable_toJson (h location hLocation)
  · exact isReadable_optionalField fun suggestion _ => .string _ suggestion

theorem CategoryScore.isReadable_toJson {category : CategoryScore} (hScore : ReadsBack category.score)
    (hWeight : ReadsBack category.weight) : IsReadable (depth + 1) category.toJson := by
  refine .object (List.forall_mem_append.mpr ⟨?_, ?_⟩)
  · simp only [List.forall_mem_cons]
    exact ⟨.string _ _, .real _ hScore, .real _ hWeight, nofun⟩
  · exact isReadable_optionalField fun description _ => .string _ description

theorem isReadable_strings (texts : List String) :
    IsReadable (depth + 1) (.array (texts.map .string)) := by
  refine .array fun item hItem => ?_
  obtain ⟨text, -, rfl⟩ := List.mem_map.mp hItem
  exact .string depth text

theorem Report.isReadable_toJson {report : Report} (hCounts : ∀ n ∈ report.counts, n < 2 ^ 64)
    (hDoubles : ∀ x ∈ report.doubles, ReadsBack x) : IsReadable (depth + 4) report.toJson := by
  obtain ⟨hTotals, hSpans⟩ := List.forall_mem_append.mp hCounts
  simp only [List.forall_mem_cons] at hTotals
  obtain ⟨hFiles, hMetrics, hFindings, hAnalyzed, hParsed, hElapsed, -⟩ := hTotals
  obtain ⟨hOverall, hCategories⟩ := List.forall_mem_cons.mp hDoubles
  have hScore : IsReadable (depth + 3) report.score.toJson := by
    refine .object ?_
    simp only [List.forall_mem_cons]
    refine ⟨.real _ hOverall, .array fun item hItem => ?_, .string _ _, .object ?_, nofun⟩
    · -- the categories
      obtain ⟨category, hCategory, rfl⟩ := List.mem_map.mp hItem
      have hBoth : ∀ x ∈ [category.score, category.weight], ReadsBack x := fun x hx =>
        hCategories x (List.mem_flatMap.mpr ⟨category, hCategory, hx⟩)
      exact CategoryScore.isReadable_toJson (hBoth _ (by simp)) (hBoth _ (by simp))
    · -- the totals
      simp only [List.forall_mem_cons]
      exact ⟨.nat _ hFiles, .nat _ hMetrics, .nat _ hFindings, nofun⟩
  have hFound : IsReadable (depth + 3) (.array (report.findings.map Finding.toJson)) := by
    refine .array fun item hItem => ?_
    obtain ⟨finding, hFinding, rfl⟩ := List.mem_map.mp hItem
    refine Finding.isReadable_toJson fun location hLocation n hn => hSpans n ?_
    exact List.mem_flatMap.mpr ⟨finding, hFinding,
      List.mem_flatMap.mpr ⟨location, Option.mem_toList.mpr hLocation, hn⟩⟩
  have hSummary : IsReadable (depth + 3) report.summary.toJson := by
    refine .object ?_
    simp only [List.forall_mem_cons]
    exact ⟨.nat _ hAnalyzed, .nat _ hParsed, .nat _ hElapsed, .string _ _,
      isReadable_strings _, isReadable_strings _, nofun⟩
  refine .object ?_
  simp only [List.forall_mem_cons]
  exact ⟨.string _ _, hScore, hFound, hSummary, nofun⟩

/-! ## Reports -/

/-- The text of a report is read as the report, whatever its texts are and whichever optional
fields have a value. Its whole numbers are machine words and its scores and weights are finite;
what is assumed is that their texts, and those of its instants, are read back. -/
theorem Report.ofJson?_jsonText {report : Report} (hCounts : ∀ n ∈ report.counts, n < 2 ^ 64)
    (hFinite : ∀ x ∈ report.doubles, x.isFinite = true)
    (hDoubles : ∀ x ∈ report.doubles, x.isFinite = true → ReadsBack x)
    (hInstants : ∀ instant ∈ report.instants, Instant.read? instant.text = some instant) :
    (Json.read? report.jsonText).bind Report.ofJson? = some report := by
  obtain ⟨hScore, hSummary⟩ : _ ∧ _ := by simpa [instants] using hInstants
  have hReadable : IsReadable Json.depthLimit report.toJson :=
    isReadable_toJson hCounts fun x hx => hDoubles x hx (hFinite x hx)
  rw [jsonText, Json.read?_pretty hReadable, Option.bind_some, ofJson?_toJson hScore hSummary]

/-- A report whose texts hold quotes, a backslash, control characters and a character beyond the
first plane of Unicode; optional fields have values in one place and none in another. -/
def unusualReport : Report where
  root := ⟨"C:\\src \"𝄞\""⟩
  score :=
    { overall := 72.5
      categories := [⟨"complexity", 72.5, 0.1, some "\t\x00é"⟩, ⟨"", -0.0, 1e-7, none⟩]
      timestamp := ⟨739000, 86399, 1999999999⟩
      totals := ⟨2, 2 ^ 64 - 1, 2⟩ }
  findings :=
    [⟨"size", .high, "line\nbreak\x1f\x7f", ⟨"a.ts"⟩, some ⟨1, 2, 3, 4⟩, none⟩,
      ⟨"null", .low, "𝄞", ⟨""⟩, none, some "\x0c\x08/\\"⟩]
  summary :=
    { filesAnalyzed := 2
      filesParsed := 0
      elapsedMilliseconds := 3
      timestamp := ⟨719468, 0, 5000⟩
      warnings := ["", "a.ts: \"\r\""]
      notes := [] }

theorem Report.ofJson?_jsonText_unusualReport :
    (Json.read? unusualReport.jsonText).bind Report.ofJson? = some unusualReport := by
  refine Report.ofJson?_jsonText (by decide +kernel) (by decide +kernel) ?_ (by decide +kernel)
  intro x hx _
  simp only [Report.doubles, unusualReport, List.flatMap_cons, List.flatMap_nil, List.mem_cons,
    List.cons_append, List.nil_append, List.not_mem_nil, or_false] at hx
  obtain rfl | rfl | rfl | rfl | rfl := hx <;> rfl

end DebtGauge
