import DebtGauge.Json.Basic
import DebtGauge.Decimal.Layout

/-!
# Writing JSON texts

Main definitions:

* `Json.quoted` — a string with its quotes and escapes;
* `Json.compact` — a value on one line, without white space;
* `Json.pretty` — a value with each item and field on a line of its own, two blanks of
  indentation for each level.
-/

namespace DebtGauge.Json

/-- A hexadecimal digit in lower case. -/
def hexChar (n : Nat) : Char :=
  Char.ofNat (if n < 10 then '0'.toNat + n else 'a'.toNat + (n - 10))

/-- A character inside a string. Quotes, backslashes and control characters are
escaped. -/
def escape (c : Char) : List Char :=
  match c with
  | '"' => ['\\', '"']
  | '\\' => ['\\', '\\']
  | '\x08' => ['\\', 'b']
  | '\x0c' => ['\\', 'f']
  | '\n' => ['\\', 'n']
  | '\r' => ['\\', 'r']
  | '\t' => ['\\', 't']
  | c =>
    if c.toNat < 0x20 then
      ['\\', 'u', '0', '0', hexChar (c.toNat / 16), hexChar (c.toNat % 16)]
    else [c]

/-- A string with its quotes. -/
def quoted (text : String) : List Char :=
  '"' :: text.toList.flatMap escape ++ ['"']

/-- A value that holds no other. -/
def scalar : Json → List Char
  | bool true => "true".toList
  | bool false => "false".toList
  | integer value => (toString value).toList
  | real value => (Decimal.jsonText value).toList
  | string value => quoted value
  | _ => "null".toList

mutual

/-- A value on one line. -/
def compactChars : Json → List Char
  | array items => '[' :: compactItems items ++ [']']
  | object fields => '\x7b' :: compactFields fields ++ ['\x7d']
  | json => scalar json

/-- Items with commas between them. -/
def compactItems : List Json → List Char
  | [] => []
  | [item] => compactChars item
  | item :: rest => compactChars item ++ ',' :: compactItems rest

/-- Fields with commas between them. -/
def compactFields : List (String × Json) → List Char
  | [] => []
  | [(name, json)] => quoted name ++ ':' :: compactChars json
  | (name, json) :: rest => quoted name ++ ':' :: compactChars json ++ ',' :: compactFields rest

end

/-- A value on one line, without white space. -/
def compact (json : Json) : String := String.ofList json.compactChars

/-- A line end and the indentation of a level. -/
def newLine (level : Nat) : List Char :=
  '\n' :: List.replicate (2 * level) ' '

mutual

/-- A value whose own line is indented `level` deep. -/
def prettyChars (level : Nat) : Json → List Char
  | array [] => ['[', ']']
  | array items => '[' :: prettyItems (level + 1) items ++ newLine level ++ [']']
  | object [] => ['\x7b', '\x7d']
  | object fields => '\x7b' :: prettyFields (level + 1) fields ++ newLine level ++ ['\x7d']
  | json => scalar json

/-- Items, each on a line of its own. -/
def prettyItems (level : Nat) : List Json → List Char
  | [] => []
  | [item] => newLine level ++ prettyChars level item
  | item :: rest => newLine level ++ prettyChars level item ++ ',' :: prettyItems level rest

/-- Fields, each on a line of its own. -/
def prettyFields (level : Nat) : List (String × Json) → List Char
  | [] => []
  | [(name, json)] => newLine level ++ quoted name ++ ':' :: ' ' :: prettyChars level json
  | (name, json) :: rest =>
    newLine level ++ quoted name ++ ':' :: ' ' :: prettyChars level json ++
      ',' :: prettyFields level rest

end

/-- A value with each item and field on a line of its own. -/
def pretty (json : Json) : String := String.ofList (json.prettyChars 0)

end DebtGauge.Json
