/-!
# TOML documents

A document is a table of values. How a table came about decides which later parts of a
document may add to it.

Main definitions:

* `Toml` — a value;
* `TableForm` — how a table came about;
* `Toml.insert?`, `Toml.openTable?`, `Toml.openItem?` — the three kinds of statement.
-/

namespace DebtGauge

/-- How a table came about. -/
inductive TableForm where
  /-- It has a header of its own, or is the document itself. -/
  | header
  /-- It is only named in the header of a table inside of it. -/
  | implied
  /-- It is named by the first parts of a dotted key. -/
  | dotted
  /-- It is written in braces. -/
  | braces
deriving DecidableEq

/-- A value of a document. -/
inductive Toml where
  | string (value : String)
  | integer (value : Int)
  | float (value : Float)
  | boolean (value : Bool)
  /-- A date, a time, or both; nothing more is known of it. -/
  | date
  | array (items : List Toml)
  /-- The tables under a header in double brackets. -/
  | tables (items : List Toml)
  | table (form : TableForm) (entries : List (String × Toml))

namespace Toml

/-- The entries of a table. -/
abbrev Entries := List (String × Toml)

/-- A table that may still change. -/
structure OpenTable where
  form : TableForm
  entries : Entries

/-- The table as a value. -/
def OpenTable.close (current : OpenTable) : Toml := .table current.form current.entries

/-- The entries with another value for a key that is there already. -/
def replace (key : String) (value : Toml) (entries : Entries) : Entries :=
  entries.map fun (name, old) => if name = key then (name, value) else (name, old)

/-- Whether a table may be named again by a dotted key, or by a header. -/
def mayContinue (byDottedKey : Bool) (form : TableForm) : Bool :=
  form ≠ .braces && (!byDottedKey || form = .implied || form = .dotted)

/-- Changes the table at the end of a path of keys. Tables that are missing on the way are
made; of the tables under a header in double brackets the last one is taken. -/
def changeAt? (byDottedKey : Bool) (change : OpenTable → Option OpenTable) :
    List String → OpenTable → Option OpenTable
  | [], current => change current
  | key :: path, current =>
    match current.entries.lookup key with
    | none => do
      let form := if byDottedKey then TableForm.dotted else .implied
      let inner ← changeAt? byDottedKey change path ⟨form, []⟩
      return { current with entries := current.entries ++ [(key, inner.close)] }
    | some (.table form entries) => do
      if !mayContinue byDottedKey form then none
      let inner ← changeAt? byDottedKey change path ⟨form, entries⟩
      return { current with entries := replace key inner.close current.entries }
    | some (.tables items) => do
      let (form, entries) ← match items.getLast? with
        | some (.table form entries) => some (form, entries)
        | _ => none
      let inner ← changeAt? byDottedKey change path ⟨form, entries⟩
      return { current with
        entries := replace key (.tables (items.dropLast ++ [inner.close])) current.entries }
    | some _ => none

/-- Adds a value under a key that is not there yet. -/
def addEntry? (key : String) (value : Toml) (current : OpenTable) : Option OpenTable :=
  if (current.entries.lookup key).isSome then none
  else some { current with entries := current.entries ++ [(key, value)] }

/-- A key with its value, the key given as the path before its last part and that part.
A dotted key adds only to tables that dotted keys have made. -/
def insert? (path : List String) (key : String) (value : Toml) (current : OpenTable) :
    Option OpenTable :=
  changeAt? true (fun inner =>
    if (inner.form == .dotted) == path.isEmpty then none
    else addEntry? key value inner) path current

/-- The header of a table. A table that was only implied so far gets its header now. -/
def openTable? (path : List String) (key : String) (document : OpenTable) : Option OpenTable :=
  changeAt? false (fun outer =>
    match outer.entries.lookup key with
    | none => some { outer with entries := outer.entries ++ [(key, .table .header [])] }
    | some (.table .implied entries) =>
      some { outer with entries := replace key (.table .header entries) outer.entries }
    | some _ => none) path document

/-- A header in double brackets, which opens one more table of a list. -/
def openItem? (path : List String) (key : String) (document : OpenTable) : Option OpenTable :=
  changeAt? false (fun outer =>
    match outer.entries.lookup key with
    | none => some { outer with entries := outer.entries ++ [(key, .tables [.table .header []])] }
    | some (.tables items) =>
      some { outer with
        entries := replace key (.tables (items ++ [.table .header []])) outer.entries }
    | some _ => none) path document

end Toml

end DebtGauge
