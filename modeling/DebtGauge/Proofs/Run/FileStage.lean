import DebtGauge.Proofs.Discovery.SourceFiles
import DebtGauge.Proofs.Double.Count
import DebtGauge.Proofs.FunctionUnit.Bounds
import DebtGauge.Run.Outcome

/-!
# One file of a run

What is extracted from a file carries the file's path. A file that has a path and that a machine
can hold is always analysed once it is parsed, so that a text can only fail to be parsed; and
that, like a file that cannot be read, is a failure that a run goes on after.

Main definitions and results:

* `Metric.path_of_create`, `Metric.exists_create` — which metrics are made, and when;
* `FileAnalysis.IsOf` — an analysis whose metrics and blocks all carry one path;
* `ParsedFile.exists_analyze` — a parsed file is analysed;
* `FileSystem.FitsMachine` — machine words count the files, their bytes and the nodes of trees;
* `FileOutcome.exists_ofFile` — no file ends a run.
-/

namespace DebtGauge

/-! ## Metrics -/

namespace Metric

variable {kind : MetricKind} {value : Float} {path : FilePath} {location : Option Location}
  {context : Option String} {metric : Metric}

theorem path_of_create (h : create kind value path location context = .ok metric) :
    metric.path = path ∧ metric.kind = kind := by
  unfold create at h
  split at h
  · split at h
    · cases h
      exact ⟨rfl, rfl⟩
    · cases h
  · cases h

/-- A metric is made if it has a path and a finite value. -/
theorem exists_create (hPath : path.text ≠ "") (hValue : value.isFinite = true) :
    ∃ metric, create kind value path location context = .ok metric := by
  rw [create, dif_pos hPath, dif_pos hValue]
  exact ⟨_, rfl⟩

end Metric

/-! ## Analyses -/

/-- The kinds of the metrics that are made of single files. -/
def MetricKind.OfFile (kind : MetricKind) : Prop :=
  kind ≠ .codeDuplication ∧ kind ≠ .circularDependency

/-- Everything that was extracted from a file carries its path. -/
structure FileAnalysis.IsOf (path : FilePath) (analysis : FileAnalysis) : Prop where
  path_eq : analysis.path = path
  metrics_of : ∀ metric ∈ analysis.metrics, metric.path = path ∧ metric.kind.OfFile
  blocks_path : ∀ block ∈ analysis.blocks, block.path = path

namespace ParsedFile

variable {file : ParsedFile} {analysis : FileAnalysis}

theorem ofFile_of_mem_measurements {unit : FunctionUnit} {kind : MetricKind} {value : Nat}
    (h : (kind, value) ∈ unit.measurements) : kind.OfFile := by
  unfold FunctionUnit.measurements at h
  dsimp only at h
  split_ifs at h <;> simp at h <;> unfold MetricKind.OfFile <;> grind

theorem metrics_of_functionUnit {unit : FunctionUnit} {path : FilePath} {metrics : List Metric}
    (h : unit.metrics path = .ok metrics) :
    ∀ metric ∈ metrics, metric.path = path ∧ metric.kind.OfFile := by
  intro metric hMetric
  obtain ⟨⟨kind, value⟩, hMeasured, hCreate⟩ := exists_of_mem_of_mapM h hMetric
  obtain ⟨hPath, hKind⟩ := Metric.path_of_create hCreate
  exact ⟨hPath, hKind ▸ ofFile_of_mem_measurements hMeasured⟩

/-- The metrics of a file as a whole are of three kinds. -/
theorem kind_of_mem_fileMetrics {metrics : List Metric} (h : file.fileMetrics = .ok metrics) :
    ∀ metric ∈ metrics, metric.path = file.path ∧
      metric.kind ∈ [MetricKind.fileLength, .todoComments, .fixmeComments] := by
  obtain ⟨length, hLength, h⟩ := exists_of_bind_ok h
  obtain ⟨found, hFound, h⟩ := exists_of_bind_ok h
  cases h
  refine List.forall_mem_cons.mpr ⟨?_, ?_⟩
  · -- the metric of the length
    obtain ⟨hPath, hKind⟩ := Metric.path_of_create hLength
    exact ⟨hPath, hKind ▸ List.mem_cons_self ..⟩
  · -- a marker's metric
    intro metric hMetric
    obtain ⟨⟨kind, marker, count⟩, hMarker, hCreate⟩ := exists_of_mem_of_mapM hFound hMetric
    obtain ⟨hPath, hKind⟩ := Metric.path_of_create hCreate
    obtain ⟨⟨_, _⟩, hListed, hEq⟩ := List.mem_map.mp (List.mem_of_mem_filter hMarker)
    cases hEq
    have hMarkers := List.mem_map_of_mem (f := Prod.fst) hListed
    exact ⟨hPath, hKind ▸ List.mem_cons_of_mem _ hMarkers⟩

theorem metrics_of_fileMetrics {metrics : List Metric} (h : file.fileMetrics = .ok metrics) :
    ∀ metric ∈ metrics, metric.path = file.path ∧ metric.kind.OfFile := by
  intro metric hMetric
  obtain ⟨hPath, hKind⟩ := kind_of_mem_fileMetrics h metric hMetric
  refine ⟨hPath, ?_⟩
  constructor
  all_goals
    intro hEq
    rw [hEq] at hKind
    revert hKind
    decide

theorem path_of_mem_codeBlocks {block : CodeBlock} (h : block ∈ file.codeBlocks) :
    block.path = file.path := by
  obtain ⟨_, -, rfl⟩ := List.mem_map.mp (List.mem_of_mem_filter h)
  rfl

theorem isOf_of_analyze (h : file.analyze = .ok analysis) : analysis.IsOf file.path := by
  obtain ⟨metrics, hMetrics, h⟩ := exists_of_bind_ok h
  cases h
  obtain ⟨ofFile, hOfFile, hMetrics⟩ := exists_of_bind_ok hMetrics
  obtain ⟨ofFunctions, hOfFunctions, hMetrics⟩ := exists_of_bind_ok hMetrics
  cases hMetrics
  refine ⟨rfl, fun metric hMetric => ?_, fun block hBlock => path_of_mem_codeBlocks hBlock⟩
  rcases List.mem_append.mp hMetric with hMetric | hMetric
  · exact metrics_of_fileMetrics hOfFile metric hMetric
  · obtain ⟨metrics, hMem, hMetric⟩ := List.mem_flatten.mp hMetric
    obtain ⟨unit, -, hUnit⟩ := exists_of_mem_of_mapM hOfFunctions hMem
    exact metrics_of_functionUnit hUnit metric hMetric

/-- A file has no more blocks than its tree has nodes. -/
theorem length_blocks_le (h : file.analyze = .ok analysis) :
    analysis.blocks.length ≤ file.tree.size := by
  obtain ⟨metrics, -, h⟩ := exists_of_bind_ok h
  cases h
  -- blocks are made of functions, and functions are nodes that the walk reaches
  have hBlocks : file.codeBlocks.length ≤ file.tree.functions.length := by
    refine Nat.le_trans (List.length_filter_le _ _) ?_
    rw [List.length_map]
  have hFunctions : file.tree.functions.length ≤ file.tree.size :=
    Nat.le_trans (List.length_filter_le _ _) (SyntaxTree.length_visited_le _ _ _)
  exact Nat.le_trans hBlocks hFunctions

theorem exists_fileMetrics (hPath : file.path.text ≠ "") (hFits : file.FitsMachine) :
    ∃ metrics, file.fileMetrics = .ok metrics := by
  refine exists_bind ?_ fun length _ => exists_bind (exists_mapM ?_) fun found _ => ⟨_, rfl⟩
  · exact Metric.exists_create hPath (Double.isFinite_ofNat hFits.lineCount_lt)
  · rintro ⟨kind, marker, count⟩ hFound
    obtain ⟨⟨_, _⟩, -, hEq⟩ := List.mem_map.mp (List.mem_of_mem_filter hFound)
    cases hEq
    exact Metric.exists_create hPath (Double.isFinite_ofNat_of_lt (hFits.markerCount_lt marker))

theorem exists_functionMetrics (hPath : file.path.text ≠ "") (hFits : file.FitsMachine)
    {unit : FunctionUnit} (hUnit : unit ∈ file.functionUnits) :
    ∃ metrics, unit.metrics file.path = .ok metrics := by
  refine exists_mapM ?_
  rintro ⟨kind, value⟩ hMeasured
  exact Metric.exists_create hPath
    (Double.isFinite_ofNat_of_lt (hFits.measurement_lt hUnit hMeasured))

/-- Every file with a path that a machine can hold is analysed. -/
theorem exists_analyze (hPath : file.path.text ≠ "") (hFits : file.FitsMachine) :
    ∃ analysis, file.analyze = .ok analysis := by
  refine exists_bind ?_ fun metrics _ => ⟨_, rfl⟩
  -- first the metrics of the file, then those of each function
  refine exists_bind (exists_fileMetrics hPath hFits) fun ofFile _ => ?_
  refine exists_bind (exists_mapM fun unit hUnit => ?_) fun ofFunctions _ => ⟨_, rfl⟩
  exact exists_functionMetrics hPath hFits hUnit

end ParsedFile

/-! ## Files of a run -/

/-- Machine words count the nodes and the rows of every tree that a parser gives. -/
def Parser.FitsMachine (parser : Parser) : Prop :=
  ∀ language text tree, parser language text = some tree → tree.FitsMachine

/-- Machine words count the files and the bytes of each of them, and the nodes and the rows of
the trees that a parser gives. -/
structure FileSystem.FitsMachine (parser : Parser) (fs : FileSystem) : Prop where
  trees_fit : Parser.FitsMachine parser
  bytes_lt : ∀ content ∈ fs.tree.contents, content.size < 2 ^ 64
  files_lt : fs.tree.contents.length < 2 ^ 64

namespace ParsedFile

variable {parser : Parser} {path : FilePath} {text : String} {parsed : ParsedFile}

/-- A file that is parsed has the tree that the parser gives for its text. -/
theorem exists_of_parse (h : parse parser path text = .ok parsed) :
    parsed.path = path ∧ parsed.source = .ofString text ∧
      ∃ language, parser language text = some parsed.tree := by
  unfold parse at h
  split at h
  · cases h
  case h_2 language _ =>
    unfold parseAs at h
    split at h
    · cases h
    case h_2 tree hTree =>
      split at h
      · cases h
      · cases h
        exact ⟨rfl, rfl, language, hTree⟩

theorem isRecoverable_of_parse {failure : Failure} (h : parse parser path text = .error failure) :
    failure.isRecoverable = true := by
  unfold parse at h
  split at h
  · cases h
    rfl
  · unfold parseAs at h
    split at h
    · cases h
      rfl
    case h_2 tree _ =>
      split at h
      · cases h
        unfold SyntaxTree.failure
        split <;> rfl
      · cases h

theorem fitsMachine_of_parse (hTrees : Parser.FitsMachine parser) (hText : text.length < 2 ^ 64)
    (h : parse parser path text = .ok parsed) : parsed.FitsMachine := by
  obtain ⟨-, hSource, language, hTree⟩ := exists_of_parse h
  refine ⟨hTrees language text _ hTree, ?_⟩
  rw [hSource, Source.ofString, List.size_toArray, String.length_toList]
  exact hText

/-- The analysis of a text can only fail because it is not parsed. -/
theorem isRecoverable_of_analyze (hPath : path.text ≠ "") (hTrees : Parser.FitsMachine parser)
    (hText : text.length < 2 ^ 64) {failure : Failure}
    (h : (parse parser path text >>= analyze) = .error failure) : failure.isRecoverable = true := by
  cases hParse : parse parser path text with
  | error other =>
    rw [hParse] at h
    cases h
    exact isRecoverable_of_parse hParse
  | ok parsed =>
    -- what is parsed is analysed, so that there is no failure at all
    have hParsed : parsed.path.text ≠ "" := (exists_of_parse hParse).1 ▸ hPath
    obtain ⟨analysis, hAnalysis⟩ :=
      exists_analyze hParsed (fitsMachine_of_parse hTrees hText hParse)
    rw [hParse] at h
    change parsed.analyze = .error failure at h
    rw [hAnalysis] at h
    cases h

end ParsedFile

namespace FileOutcome

variable {parser : Parser} {fs : FileSystem} {path : FilePath}

/-- A file that is analysed has been read and parsed before. -/
theorem exists_of_analyzeFile {analysis : FileAnalysis}
    (h : analyzeFile parser fs path = .ok analysis) :
    ∃ text parsed, fs.readText? path = some text ∧ ParsedFile.parse parser path text = .ok parsed ∧
      parsed.analyze = .ok analysis := by
  obtain ⟨file, hFile, hRest⟩ := exists_of_bind_ok h
  obtain ⟨parsed, hParsed, hAnalyze⟩ := exists_of_bind_ok hRest
  unfold SourceFile.read at hFile
  cases hText : fs.readText? path with
  | none =>
    rw [hText] at hFile
    cases hFile
  | some text =>
    rw [hText] at hFile
    cases hFile
    exact ⟨text, parsed, rfl, hParsed, hAnalyze⟩

theorem isOf_of_ofFile {analysis : FileAnalysis}
    (h : ofFile parser fs path = .ok (.analyzed analysis)) :
    analyzeFile parser fs path = .ok analysis ∧ analysis.IsOf path := by
  unfold ofFile at h
  split at h
  · cases hAnalysis : analyzeFile parser fs path with
    | error failure =>
      rw [hAnalysis] at h
      dsimp only at h
      split at h <;> cases h
    | ok other =>
      rw [hAnalysis] at h
      cases h
      obtain ⟨text, parsed, -, hParse, hAnalyze⟩ := exists_of_analyzeFile hAnalysis
      have hOf := ParsedFile.isOf_of_analyze hAnalyze
      rw [(ParsedFile.exists_of_parse hParse).1] at hOf
      exact ⟨rfl, hOf⟩
  · cases h

theorem isRecoverable_of_analyzeFile (hFits : fs.FitsMachine parser) (hPath : path.text ≠ "")
    {failure : Failure} (h : analyzeFile parser fs path = .error failure) :
    failure.isRecoverable = true := by
  unfold analyzeFile SourceFile.read at h
  cases hText : fs.readText? path with
  | none =>
    rw [hText] at h
    cases h
    rfl
  | some text =>
    rw [hText] at h
    -- a text takes no more characters than its file has bytes
    obtain ⟨content, hContent, hLength⟩ := FileSystem.exists_content_of_readText? hText
    have hShort := Nat.lt_of_le_of_lt hLength (hFits.bytes_lt content hContent)
    exact ParsedFile.isRecoverable_of_analyze hPath hFits.trees_fit hShort h

/-- No file with a path ends a run. -/
theorem exists_ofFile (hFits : fs.FitsMachine parser) (hPath : path.text ≠ "") :
    ∃ outcome, ofFile parser fs path = .ok outcome := by
  unfold ofFile
  split
  case isFalse => exact ⟨_, rfl⟩
  case isTrue =>
    cases hAnalysis : analyzeFile parser fs path with
    | ok analysis => exact ⟨_, rfl⟩
    | error failure =>
      dsimp only
      rw [if_pos (isRecoverable_of_analyzeFile hFits hPath hAnalysis)]
      exact ⟨_, rfl⟩

end FileOutcome

end DebtGauge
