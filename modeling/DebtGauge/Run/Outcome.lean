import DebtGauge.FileAnalysis
import DebtGauge.ImportGraph.Cycles
import DebtGauge.Duplication.Grouping
import DebtGauge.SourceFile

/-!
# Outcomes of files

Each file of a run is read, parsed and analysed on its own. A file that cannot be read or
parsed is left out with a warning; any other failure ends the run. What several files have
to do with each other is found once all outcomes are there.

Main definitions:

* `FileOutcome.ofFile` — the outcome of a file;
* `FileOutcome.analyses`, `FileOutcome.warnings` — what is left of a list of outcomes;
* `FileOutcome.metrics` — the metrics of the files, of their duplicates and of the cycles
  among them.
-/

namespace DebtGauge

/-- What becomes of a file. -/
inductive FileOutcome where
  | analyzed (analysis : FileAnalysis)
  /-- No language belongs to the file's name. -/
  | unsupported
  /-- The file cannot be read or parsed, for the reason that the warning gives. -/
  | failed (warning : String)

namespace FileOutcome

/-- Reads, parses and analyses a file. -/
def analyzeFile (parser : Parser) (fs : FileSystem) (path : FilePath) :
    Except Failure FileAnalysis := do
  let file ← SourceFile.read fs path
  let parsed ← ParsedFile.parse parser path file.text
  parsed.analyze

/-- The outcome of a file, or the failure that ends the run. -/
def ofFile (parser : Parser) (fs : FileSystem) (path : FilePath) :
    Except Failure FileOutcome :=
  if Language.isSupported path then
    match analyzeFile parser fs path with
    | .ok analysis => .ok (.analyzed analysis)
    | .error failure =>
      if failure.isRecoverable then .ok (.failed s!"{path.text}: {failure.message}")
      else .error failure
  else .ok .unsupported

/-- The analysis of an outcome. -/
def analysis? : FileOutcome → Option FileAnalysis
  | analyzed analysis => some analysis
  | _ => none

/-- The warning of an outcome. -/
def warning? : FileOutcome → Option String
  | failed warning => some warning
  | _ => none

/-- The analyses among outcomes. -/
def analyses (outcomes : List FileOutcome) : List FileAnalysis :=
  outcomes.filterMap analysis?

/-- The warnings among outcomes. -/
def warnings (outcomes : List FileOutcome) : List String :=
  outcomes.filterMap warning?

end FileOutcome

namespace FileAnalysis

/-- The blocks of all files. -/
def detector (analyses : List FileAnalysis) : DuplicateDetector :=
  analyses.foldl (fun detector analysis => detector.add analysis.blocks) .empty

/-- The imports of all files. -/
def importGraph (analyses : List FileAnalysis) : ImportGraph :=
  analyses.foldl (fun graph analysis => graph.add analysis.path analysis.imports) .empty

end FileAnalysis

/-- The metrics of a run: those of the files one after the other, then those of duplicates,
then those of import cycles. -/
def FileOutcome.metrics (outcomes : List FileOutcome) : Except Failure (List Metric) := do
  let analyses := FileOutcome.analyses outcomes
  let duplicates ← (FileAnalysis.detector analyses).metrics
  let cycles ← (FileAnalysis.importGraph analyses).cycleMetrics
  return analyses.flatMap (·.metrics) ++ duplicates ++ cycles

end DebtGauge
