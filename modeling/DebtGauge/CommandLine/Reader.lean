import DebtGauge.CommandLine.Basic
import DebtGauge.Decimal.Reader

/-!
# Reading command lines

Words are read from left to right. A value is looked at only when the next argument
starts, or at the end; so a word that nothing is known of is refused before a faulty value
in front of it. Behind `--` every word is a path.

Main definitions:

* `Word` — the shapes of words;
* `Given`, `Draft` — what has been given so far;
* `read` — the invocation that the words of a command line describe.
-/

namespace DebtGauge.CommandLine

/-! ## Words -/

/-- A word by its shape. -/
inductive Word where
  /-- Two hyphens alone. -/
  | separator
  /-- A name behind two hyphens, perhaps with a value behind an equals sign. -/
  | long (name : String) (value : Option String)
  /-- Letters behind one hyphen. -/
  | letters (cs : List Char)
  | plain (text : String)

/-- The shape of a word; a hyphen alone is a plain word. -/
def Word.ofText (text : String) : Word :=
  match text.toList with
  | ['-', '-'] => .separator
  | '-' :: '-' :: cs =>
    let name := cs.takeWhile (· ≠ '=')
    let value := if name.length < cs.length then
      some (String.ofList (cs.drop (name.length + 1))) else none
    .long (String.ofList name) value
  | '-' :: c :: cs => .letters (c :: cs)
  | _ => .plain text

/-! ## Values -/

/-- Everything given so far. -/
structure Given where
  verbosity : Nat := 0
  path : Option FilePath := none
  format : Option ReportFormat := none
  output : Option FilePath := none
  included : Option (List String) := none
  ignored : Option (List String) := none
  weights : Option (List String) := none
  rules : Option (List String) := none
  noParallel : Bool := false
  jobs : Option Nat := none
  failUnder : Option Float := none
  quiet : Bool := false
  force : Bool := false

/-- A path must not be empty. -/
def readPath (text : String) : Except Refusal FilePath :=
  if text = "" then .error .improperValue else .ok ⟨text⟩

/-- A format is given by its name. -/
def readFormat (text : String) : Except Refusal ReportFormat :=
  match ReportFormat.ofName? text with
  | some format => .ok format
  | none => .error .improperValue

/-- A number of threads is a whole number of at most sixty-four bits. -/
def readCount (text : String) : Except Refusal Nat :=
  let digits := match text.toList with
    | '+' :: rest => rest
    | cs => cs
  let count := Decimal.digitsValue digits
  if !digits.isEmpty && digits.all Char.isDigit && count < Nat.pow 2 64 then .ok count
  else .error .unreadableNumber

/-- A score is a number. -/
def readScore (text : String) : Except Refusal Float :=
  match Decimal.readDouble? text with
  | some score => .ok score
  | none => .error .unreadableNumber

/-- A list with the items of a text behind it; commas stand between items. -/
def extend (items : Option (List String)) (text : String) : Option (List String) :=
  some (items.getD [] ++ (Text.splitOn ',' text.toList).map String.ofList)

/-- How much can be logged at most. -/
def mostVerbose : Nat := 255

namespace Given

/-- Refuses what was given before. -/
def once (given : Bool) : Except Refusal Unit :=
  if given then .error .repeatedArgument else .ok ()

/-- Adds an argument with its value; arguments without a value ignore it. -/
def add (given : Given) (value : String) : Argument → Except Refusal Given
  | .path => do
    once given.path.isSome
    return { given with path := some (← readPath value) }
  | .format => do
    once given.format.isSome
    return { given with format := some (← readFormat value) }
  | .output => do
    once given.output.isSome
    return { given with output := some (← readPath value) }
  | .included => return { given with included := extend given.included value }
  | .ignored => return { given with ignored := extend given.ignored value }
  | .weights => return { given with weights := extend given.weights value }
  | .rules => return { given with rules := extend given.rules value }
  | .noParallel => do
    once given.noParallel
    return { given with noParallel := true }
  | .jobs => do
    once given.jobs.isSome
    return { given with jobs := some (← readCount value) }
  | .failUnder => do
    once given.failUnder.isSome
    return { given with failUnder := some (← readScore value) }
  | .quiet => do
    once given.quiet
    return { given with quiet := true }
  | .force => do
    once given.force
    return { given with force := true }
  | .verbose => return { given with verbosity := min (given.verbosity + 1) mostVerbose }
  | .help => .error .helpWanted
  | .version => .error .versionWanted

end Given

/-! ## Drafts -/

/-- An argument that has not been looked at yet: it waits for its value, or has it. -/
inductive Waiting where
  | forValue (argument : Argument)
  | withValue (argument : Argument) (value : String)

/-- A part of a command line that is being read. -/
structure Draft where
  given : Given
  waiting : Option Waiting

namespace Draft

/-- What is given once the argument that waits is looked at. -/
def settle (draft : Draft) : Except Refusal Given :=
  match draft.waiting with
  | none => .ok draft.given
  | some (.forValue _) => .error .improperValue
  | some (.withValue argument value) => draft.given.add value argument

/-- One more argument with its value. -/
def take (draft : Draft) (argument : Argument) (value : String) : Except Refusal Draft := do
  let given ← draft.settle
  return ⟨← given.add value argument, none⟩

/-- One more argument, whose value is the next word. -/
def await (draft : Draft) (argument : Argument) : Except Refusal Draft := do
  return ⟨← draft.settle, some (.forValue argument)⟩

/-- Whether the path is given, looked at or not. -/
def hasPath (draft : Draft) : Bool :=
  draft.given.path.isSome || match draft.waiting with
    | some (.withValue .path _) => true
    | _ => false

/-- A word that is no value: the path, where one may stand and none was given. -/
def place (scope : Scope) (draft : Draft) (text : String) : Except Refusal Draft := do
  if !scope.arguments.contains .path || draft.hasPath then throw .unknownArgument
  return ⟨← draft.settle, some (.withValue .path text)⟩

/-- A plain word: the value that is waited for, or the path. -/
def plain (scope : Scope) (draft : Draft) (text : String) : Except Refusal Draft :=
  match draft.waiting with
  | some (.forValue argument) => .ok { draft with waiting := some (.withValue argument text) }
  | _ => draft.place scope text

/-- Letters behind a hyphen. What follows a letter that takes a value is its value. -/
def letters (scope : Scope) (draft : Draft) : List Char → Except Refusal Draft
  | [] => .ok draft
  | c :: rest =>
    match scope.lettered? c with
    | none => .error .unknownArgument
    | some argument =>
      if argument.takesValue then
        match rest with
        | [] => draft.await argument
        | '=' :: value => draft.take argument (String.ofList value)
        | value => draft.take argument (String.ofList value)
      else do
        let draft ← draft.take argument ""
        draft.letters scope rest

/-- A name behind two hyphens. -/
def long (scope : Scope) (draft : Draft) (name : String) (value : Option String) :
    Except Refusal Draft :=
  match scope.named? name with
  | none => .error .unknownArgument
  | some argument =>
    match argument.takesValue, value with
    | true, some value => draft.take argument value
    | true, none => draft.await argument
    | false, none => draft.take argument ""
    | false, some _ => .error .unexpectedValue

/-- Reads the words of a scope. -/
def words (scope : Scope) (draft : Draft) : List String → Except Refusal Draft
  | [] => .ok draft
  | text :: rest =>
    match Word.ofText text with
    | .separator => rest.foldlM (place scope) draft
    | .long name value => do (← draft.long scope name value).words scope rest
    | .letters cs => do (← draft.letters scope cs).words scope rest
    | .plain text => do (← draft.plain scope text).words scope rest

end Draft

/-! ## Commands -/

/-- Everything given in a scope. -/
def readScope (scope : Scope) (words : List String) : Except Refusal Given := do
  (← (Draft.mk {} none).words scope words).settle

/-- What the command that analyses a project was told; it must be told a path. -/
def Given.analyzeArguments (given : Given) : Except Refusal AnalyzeArguments :=
  match given.path with
  | none => .error .missingArgument
  | some path =>
    .ok { path, format := given.format.getD .terminal, output := given.output
          included := given.included, ignored := given.ignored, weights := given.weights
          rules := given.rules, noParallel := given.noParallel, jobs := given.jobs.getD 0
          failUnder := given.failUnder, quiet := given.quiet }

/-- The names of commands. -/
def commandNames : List String := ["analyze", "init", "help"]

/-- What comes of asking for help about topics. -/
def helpAbout : List String → Refusal
  | [] => .helpWanted
  | [topic] => if commandNames.contains topic then .helpWanted else .unknownCommand
  | _ => .unknownCommand

/-- Reads a command with what follows it. What is given behind the command outranks what
was given in front of it. -/
def readCommand (before : Given) (name : String) (rest : List String) :
    Except Refusal Invocation := do
  let verbosity (given : Given) :=
    if given.verbosity = 0 then before.verbosity else given.verbosity
  match name with
  | "analyze" =>
    let given ← readScope .analyze rest
    return ⟨verbosity given, .analyze (← given.analyzeArguments)⟩
  | "init" =>
    let given ← readScope .init rest
    return ⟨verbosity given, .init given.force⟩
  | "help" => throw (helpAbout rest)
  | _ => throw .unknownCommand

/-- What is wrong with words that hold no command. -/
def withoutCommand (given : Given) : Refusal :=
  if given.verbosity = 0 then .nothingGiven else .missingCommand

/-- Reads the words up to a command, and the command. -/
def readProgram (given : Given) : List String → Except Refusal Invocation
  | [] => .error (withoutCommand given)
  | text :: rest =>
    match Word.ofText text with
    | .separator =>
      match rest with
      | [] => .error (withoutCommand given)
      | next :: _ =>
        .error (if commandNames.contains next then .unknownArgument else .unknownCommand)
    | .long name value => do
      readProgram (← (Draft.mk given none).long .program name value).given rest
    | .letters cs => do
      readProgram (← (Draft.mk given none).letters .program cs).given rest
    | .plain text => readCommand given text rest

/-- Reads a command line, whose first word is the name of the program. -/
def read (words : List String) : Except Refusal Invocation :=
  readProgram {} (words.drop 1)

end DebtGauge.CommandLine
