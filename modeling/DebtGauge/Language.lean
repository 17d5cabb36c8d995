import DebtGauge.FilePath.Basic

/-!
# Languages

The extension of a file's name selects the grammar with which it is parsed. The match is
case-sensitive, and a file with another extension is not analysed.
-/

namespace DebtGauge

/-- A grammar. -/
inductive Language where
  | javaScript
  | jsx
  | typeScript
  | tsx
deriving DecidableEq

namespace Language

/-- The name of a language. -/
def name : Language → String
  | javaScript => "JavaScript"
  | jsx => "Jsx"
  | typeScript => "TypeScript"
  | tsx => "Tsx"

/-- All languages. -/
def all : List Language := [javaScript, jsx, typeScript, tsx]

/-- The language of a given name. -/
def ofName? (text : String) : Option Language :=
  all.find? (·.name = text)

theorem ofName?_name (language : Language) : ofName? language.name = some language := by
  cases language <;> decide

/-- The extensions of a language's files. -/
def extensions : Language → List String
  | javaScript => ["js", "mjs", "cjs"]
  | jsx => ["jsx"]
  | typeScript => ["ts", "mts", "cts"]
  | tsx => ["tsx"]

/-- The language whose files have the extension. -/
def ofExtension? (text : String) : Option Language :=
  all.find? (text ∈ ·.extensions)

/-- The language of a file. -/
def ofPath? (path : FilePath) : Option Language :=
  path.extension?.bind ofExtension?

/-- A file is analysed if its name selects a language. -/
def isSupported (path : FilePath) : Bool :=
  (ofPath? path).isSome

end Language

end DebtGauge
