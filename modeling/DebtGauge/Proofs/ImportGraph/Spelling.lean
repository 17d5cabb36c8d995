import DebtGauge.ImportGraph.Cycles
import DebtGauge.Proofs.FilePath.Normal
import DebtGauge.Proofs.ImportGraph.History

/-!
# Spellings of paths in an import graph

A graph holds normal forms only, and what it is asked for it looks up by its normal form. So it
does not matter how the paths of a run are spelled. For a file this needs more than the normal
form of its path, since its imports start from the directory above it: the path has to end in
the name of the file.

Main definitions and results:

* `GraphCall`, `ImportGraph.answers` — a use of a graph, and what is seen of a graph in a run;
* `GraphCall.Respelled` — a use with other spellings of its paths;
* `ImportGraph.spelling_irrelevant` — with other spellings a run has the same answers.
-/

namespace DebtGauge

/-! ## Runs -/

/-- A use of a graph: it is changed, or asked for what a module imports. -/
inductive GraphCall where
  | change (step : ImportStep)
  | ask (path : FilePath)

/-- All that can be seen of a graph without naming a path. -/
structure GraphView where
  moduleCount : Nat
  importCount : Nat
  dependencies : List (FilePath × List FilePath)
  cycles : List Cycle
  metrics : Except Failure (List Metric)

/-- What is seen of a graph when it has been used. -/
inductive GraphAnswer where
  | view (view : GraphView)
  | dependencies (paths : List FilePath)

namespace ImportGraph

/-- The counts, dependencies, cycles and metrics of a graph. -/
def view (graph : ImportGraph) : GraphView where
  moduleCount := graph.moduleCount
  importCount := graph.importCount
  dependencies := graph.paths.map fun path => (path, graph.dependencies path)
  cycles := graph.cycles
  metrics := graph.cycleMetrics

/-- The answers of a run: after each change all that can be seen, and for a question what the
module imports. -/
def answers (graph : ImportGraph) : List GraphCall → List GraphAnswer
  | [] => []
  | .change step :: calls =>
    .view (graph.change step).view :: answers (graph.change step) calls
  | .ask path :: calls => .dependencies (graph.dependencies path) :: answers graph calls

end ImportGraph

/-! ## Respelling -/

/-- A change with other spellings of its paths. The path of a file is spelled with the name of
the file at its end, and the imports in its source are left as they are. -/
inductive ImportStep.Respelled : ImportStep → ImportStep → Prop
  | add {path other : FilePath} {imports others : List FilePath} :
    path.normalize = other.normalize →
    List.Forall₂ (fun a b => a.normalize = b.normalize) imports others →
    Respelled (.add path imports) (.add other others)
  | addFile {file : ParsedFile} {other : FilePath} :
    file.path.normalize = other.normalize → file.path.fileName?.isSome → other.fileName?.isSome →
    Respelled (.addFile file) (.addFile { file with path := other })
  | refl (step : ImportStep) : Respelled step step

/-- A use of a graph with other spellings of its paths. -/
inductive GraphCall.Respelled : GraphCall → GraphCall → Prop
  | change {step other : ImportStep} :
    step.Respelled other → Respelled (.change step) (.change other)
  | ask {path other : FilePath} :
    path.normalize = other.normalize → Respelled (.ask path) (.ask other)

theorem map_normalize_of_forall₂ {paths others : List FilePath}
    (h : List.Forall₂ (fun a b => a.normalize = b.normalize) paths others) :
    paths.map FilePath.normalize = others.map FilePath.normalize := by
  induction h with
  | nil => rfl
  | cons hHead _ ih => rw [List.map_cons, List.map_cons, hHead, ih]

/-- The imports of a file start from the same directory, however its path is spelled. -/
theorem ParsedFile.imports_respelled {file : ParsedFile} {other : FilePath}
    (h : file.path.normalize = other.normalize) (hName : file.path.fileName?.isSome)
    (hOther : other.fileName?.isSome) :
    ({ file with path := other } : ParsedFile).imports = file.imports := by
  obtain ⟨directory, otherDirectory, hAbove, hOtherAbove, hSame⟩ :=
    FilePath.normalize_parent h hName hOther
  unfold ParsedFile.imports
  dsimp only
  -- the specifiers are the same, so only the directory they are seen from can matter
  rw [hAbove, hOtherAbove]
  exact List.map_congr_left fun specifier _ => (FilePath.resolve_congr hSame specifier).symm

namespace ImportGraph

theorem change_respelled (graph : ImportGraph) {step other : ImportStep}
    (h : step.Respelled other) : graph.change step = graph.change other := by
  refine eq_of_toModuleTable ?_
  cases h with
  | refl => rfl
  | add hPath hImports =>
    show graph.toModuleTable.add _ _ = graph.toModuleTable.add _ _
    rw [ModuleTable.add, ModuleTable.add, hPath, map_normalize_of_forall₂ hImports]
  | addFile hPath hName hOther =>
    show graph.toModuleTable.add _ _ = graph.toModuleTable.add _ _
    rw [ModuleTable.add, ModuleTable.add, hPath, ParsedFile.imports_respelled hPath hName hOther]

theorem dependencies_respelled (graph : ImportGraph) {path other : FilePath}
    (h : path.normalize = other.normalize) :
    graph.dependencies path = graph.dependencies other := by
  rw [dependencies, dependencies, h]

/-! ## Main result -/

/-- Paths that are joined lead to the same place, whether or not the first of them is normalised
before. In any two runs whose paths differ only in their spelling, a graph has the same counts,
dependencies, cycles and metrics after each change, and the same answers to all questions. -/
theorem spelling_irrelevant :
    (∀ base relative : FilePath,
      (base.join relative).normalize = (base.normalize.join relative).normalize) ∧
    ∀ (graph : ImportGraph) (calls others : List GraphCall),
      List.Forall₂ GraphCall.Respelled calls others →
        graph.answers calls = graph.answers others := by
  refine ⟨FilePath.normalize_join, fun graph calls others h => ?_⟩
  -- both runs have the same graph after each call
  induction h generalizing graph with
  | nil => rfl
  | cons hCall _ ih =>
    cases hCall with
    | change hStep => rw [answers, answers, graph.change_respelled hStep, ih]
    | ask hPath => rw [answers, answers, graph.dependencies_respelled hPath, ih]

/-- The file `src/a.ts` with the source `import './b'`. -/
def importingFile : ParsedFile where
  path := ⟨"src/a.ts"⟩
  source := .ofString "import './b'"
  language := .typeScript
  tree :=
    let part (kind : String) (field : Option String) (start stop : Nat) : NodeInfo :=
      { kind, field, isNamed := true, isError := false, isMissing := false, hasError := false
        start := ⟨start, 0, start⟩, stop := ⟨stop, 0, stop⟩ }
    .node (part "program" none 0 12) [.node (part "import_statement" none 0 12)
      [.node (part "string" (some "source") 7 12) []]]

/-- Two modules that import each other. -/
def plainCalls : List GraphCall :=
  [.change (.addFile importingFile), .change (.add ⟨"src/b.ts"⟩ [⟨"src/a"⟩, ⟨"/c"⟩]),
    .ask ⟨"src/a.ts"⟩]

/-- The same modules, with every path spelled in another way. -/
def respelledCalls : List GraphCall :=
  [.change (.addFile { importingFile with path := ⟨"./lib/..//src/./a.ts/."⟩ }),
    .change (.add ⟨"src/x/../b.ts/"⟩ [⟨"x/../src/./a"⟩, ⟨"/../c"⟩]),
    .ask ⟨"x/../src/../src/a.ts"⟩]

theorem spelling_irrelevant_respelledCalls :
    List.Forall₂ GraphCall.Respelled plainCalls respelledCalls ∧
      empty.answers plainCalls = empty.answers respelledCalls := by
  have hFile : (ImportStep.addFile importingFile).Respelled
      (.addFile { importingFile with path := ⟨"./lib/..//src/./a.ts/."⟩ }) :=
    .addFile (by decide +kernel) (by decide +kernel) (by decide +kernel)
  have hAdd : (ImportStep.add ⟨"src/b.ts"⟩ [⟨"src/a"⟩, ⟨"/c"⟩]).Respelled
      (.add ⟨"src/x/../b.ts/"⟩ [⟨"x/../src/./a"⟩, ⟨"/../c"⟩]) :=
    .add (by decide +kernel) (.cons (by decide +kernel) (.cons (by decide +kernel) .nil))
  have hAsk : GraphCall.Respelled (.ask ⟨"src/a.ts"⟩) (.ask ⟨"x/../src/../src/a.ts"⟩) :=
    .ask (by decide +kernel)
  have hCalls : List.Forall₂ GraphCall.Respelled plainCalls respelledCalls :=
    .cons (.change hFile) (.cons (.change hAdd) (.cons hAsk .nil))
  exact ⟨hCalls, spelling_irrelevant.2 empty plainCalls respelledCalls hCalls⟩

end ImportGraph

end DebtGauge
