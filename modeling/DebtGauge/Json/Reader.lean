import DebtGauge.Json.Numeral

/-!
# Reading JSON texts

Main definitions:

* `Json.readValue?` — reads a value off the front of a text;
* `Json.read?` — the value that a whole text denotes, if it is well-formed and nested
  less than `depthLimit` deep.
-/

namespace DebtGauge.Json

/-- White space of JSON. -/
def isSpace (c : Char) : Bool :=
  c = ' ' || c = '\t' || c = '\n' || c = '\r'

/-- A text behind its leading white space. -/
def skipSpace (cs : List Char) : List Char :=
  cs.dropWhile isSpace

/-! ## Strings -/

/-- The value of a hexadecimal digit. -/
def hexDigit? (c : Char) : Option Nat :=
  if c.isDigit then some (c.toNat - '0'.toNat)
  else if 'a' ≤ c ∧ c ≤ 'f' then some (c.toNat - 'a'.toNat + 10)
  else if 'A' ≤ c ∧ c ≤ 'F' then some (c.toNat - 'A'.toNat + 10)
  else none

/-- The number of four hexadecimal digits. -/
def hexFour? (a b c d : Char) : Option Nat := do
  return ((← hexDigit? a) * 16 + (← hexDigit? b)) * 256 + (← hexDigit? c) * 16 + (← hexDigit? d)

/-- The character that two halves of a surrogate pair stand for. -/
def surrogatePair? (high low : Nat) : Option Char :=
  if 0xD800 ≤ high ∧ high < 0xDC00 ∧ 0xDC00 ≤ low ∧ low < 0xE000 then
    some (Char.ofNat (0x10000 + (high - 0xD800) * 0x400 + (low - 0xDC00)))
  else none

/-- The character with a code point that is no half of a surrogate pair. -/
def plainChar? (code : Nat) : Option Char :=
  if 0xD800 ≤ code ∧ code < 0xE000 then none else some (Char.ofNat code)

/-- The character that a letter behind a backslash stands for. -/
def escaped? : Char → Option Char
  | '"' => some '"'
  | '\\' => some '\\'
  | '/' => some '/'
  | 'b' => some '\x08'
  | 'f' => some '\x0c'
  | 'n' => some '\n'
  | 'r' => some '\r'
  | 't' => some '\t'
  | _ => none

/-- Reads the rest of a string behind its opening quote; `done` holds the characters read
so far, last first. -/
def readString? (done : List Char) : List Char → Option (String × List Char)
  | [] => none
  | '"' :: rest => some (String.ofList done.reverse, rest)
  | '\\' :: 'u' :: a :: b :: c :: d :: rest =>
    match hexFour? a b c d with
    | none => none
    | some code =>
      match plainChar? code with
      | some ch => readString? (ch :: done) rest
      | none =>
        match rest with
        | '\\' :: 'u' :: e :: f :: g :: h :: rest =>
          match (hexFour? e f g h).bind (surrogatePair? code) with
          | some ch => readString? (ch :: done) rest
          | none => none
        | _ => none
  | '\\' :: c :: rest =>
    match escaped? c with
    | some ch => readString? (ch :: done) rest
    | none => none
  | c :: rest => if c.toNat < 0x20 || c = '\\' then none else readString? (c :: done) rest

/-! ## Values -/

/-- Reads items up to a closing bracket; between two items stands a comma. `done` holds
the items read so far, last first, and `steps` bounds their number. -/
def readItems? (item : List Char → Option (α × List Char)) (close : Char) (done : List α) :
    Nat → List Char → Option (List α × List Char)
  | 0, _ => none
  | steps + 1, cs =>
    match item (skipSpace cs) with
    | none => none
    | some (value, rest) =>
      match skipSpace rest with
      | ',' :: rest => readItems? item close (value :: done) steps rest
      | c :: rest => if c = close then some ((value :: done).reverse, rest) else none
      | [] => none

/-- Reads at most `limit` items up to a closing bracket; there may be none. -/
def readList? (item : List Char → Option (α × List Char)) (close : Char) (limit : Nat)
    (cs : List Char) : Option (List α × List Char) :=
  match skipSpace cs with
  | c :: rest =>
    if c = close then some ([], rest) else readItems? item close [] limit (c :: rest)
  | [] => none

/-- Reads a field of an object: its name, a colon and its value. -/
def readField? (value : List Char → Option (Json × List Char)) (cs : List Char) :
    Option ((String × Json) × List Char) := do
  let rest ← match cs with
    | '"' :: rest => some rest
    | _ => none
  let (name, rest) ← readString? [] rest
  let rest ← match skipSpace rest with
    | ':' :: rest => some rest
    | _ => none
  let (json, rest) ← value (skipSpace rest)
  return ((name, json), rest)

/-- Reads a word that stands for a value. -/
def readWord? (word : String) (json : Json) (cs : List Char) : Option (Json × List Char) :=
  if word.toList.isPrefixOf cs then some (json, cs.drop word.length) else none

/-- Reads a value that is nested less than `depth` deep off the front of a text. No list in
it has more than `limit` items; a text has fewer items than characters, so its length is a
limit that refuses nothing. -/
def readValue? (limit : Nat) : Nat → List Char → Option (Json × List Char)
  | _, '"' :: rest => (readString? [] rest).map fun (text, rest) => (string text, rest)
  | _, 't' :: rest => readWord? "true" (bool true) ('t' :: rest)
  | _, 'f' :: rest => readWord? "false" (bool false) ('f' :: rest)
  | _, 'n' :: rest => readWord? "null" null ('n' :: rest)
  | depth + 1, '[' :: rest =>
    (readList? (readValue? limit depth) ']' limit rest).map fun (items, rest) => (array items, rest)
  | depth + 1, '\x7b' :: rest =>
    (readList? (readField? (readValue? limit depth)) '\x7d' limit rest).map
      fun (fields, rest) => (object fields, rest)
  | _, cs => do
    let (numeral, rest) ← Numeral.take? cs
    return (← numeral.value?, rest)

/-- How deep values may be nested. -/
def depthLimit : Nat := 127

/-- The value that a whole text denotes. -/
def read? (text : String) : Option Json := do
  let (json, rest) ← readValue? text.length depthLimit (skipSpace text.toList)
  if (skipSpace rest).isEmpty then return json else none

end DebtGauge.Json
