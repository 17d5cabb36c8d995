/-!
# JSON values

Main definitions:

* `Json` — a JSON value; whole numbers are kept apart from the others;
* `Json.field?` — the value of a field; of two fields of one name the later one counts, where
  no record is read that may have each field only once;
* views of a value as a boolean, a number, a text or a list.
-/

namespace DebtGauge

/-- A JSON value. Objects keep their fields in the order of the text. -/
inductive Json where
  | null
  | bool (value : Bool)
  | integer (value : Int)
  | real (value : Float)
  | string (value : String)
  | array (items : List Json)
  | object (fields : List (String × Json))

namespace Json

/-- The value of the field of an object, if there is one. -/
def field? (name : String) : Json → Option Json
  | object fields => fields.reverse.lookup name
  | _ => none

/-- The value of the field of an object; a missing field counts as null. -/
def field (name : String) (json : Json) : Json :=
  (json.field? name).getD null

/-- Whether a value is null. -/
def isNull : Json → Bool
  | null => true
  | _ => false

/-- A boolean. -/
def bool? : Json → Option Bool
  | bool value => some value
  | _ => none

/-- A text. -/
def string? : Json → Option String
  | string value => some value
  | _ => none

/-- A whole number that is not negative. -/
def nat? : Json → Option Nat
  | integer (.ofNat value) => some value
  | _ => none

/-- A number as a double. -/
def float? : Json → Option Float
  | integer (.ofNat value) => some (Float.ofNat value)
  | integer (.negSucc value) => some (-Float.ofNat (value + 1))
  | real value => some value
  | _ => none

/-- The items of an array. -/
def array? : Json → Option (List Json)
  | array items => some items
  | _ => none

/-- The fields of an object. -/
def object? : Json → Option (List (String × Json))
  | object fields => some fields
  | _ => none

/-- A value that may be null. -/
def ofOption (write : α → Json) : Option α → Json
  | some value => write value
  | none => null

/-- A whole number that is not negative, as a value. -/
def nat (value : Nat) : Json := integer value

end Json

end DebtGauge
