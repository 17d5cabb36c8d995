import DebtGauge.Json.Reader

/-!
# Strings of TOML

Basic strings stand in double quotes and have escapes; literal strings stand in single
quotes and have none. Either kind may span lines if its quotes are tripled; a line feed
right behind the opening quotes does not count, and a carriage return before a line feed
never does.

Main definitions:

* `Toml.readString?` — reads a string of any kind off the front of a text.
-/

namespace DebtGauge.Toml

/-- Characters that stand for themselves: all but control characters, a tab aside. -/
def isPlain (c : Char) : Bool :=
  c = '\t' || (0x20 ≤ c.toNat && c.toNat ≠ 0x7F)

/-- Blanks within a line. -/
def isSpace (c : Char) : Bool := c = ' ' || c = '\t'

/-- The character that a letter behind a backslash stands for. -/
def escaped? : Char → Option Char
  | 'b' => some '\x08'
  | 't' => some '\t'
  | 'n' => some '\n'
  | 'f' => some '\x0c'
  | 'r' => some '\r'
  | 'e' => some '\x1b'
  | '"' => some '"'
  | '\\' => some '\\'
  | _ => none

/-- The character whose code point hexadecimal digits give. -/
def hexChar? (digits : List Char) : Option Char := do
  let code := (← digits.mapM Json.hexDigit?).foldl (fun n d => 16 * n + d) 0
  if h : code.isValidChar then return Char.ofNatAux code h else none

/-- Reads an escape behind its backslash: its character, and how many characters it is
long. -/
def readEscape? : List Char → Option (Char × Nat)
  | 'x' :: rest => (hexOf? 2 rest).map (·, 3)
  | 'u' :: rest => (hexOf? 4 rest).map (·, 5)
  | 'U' :: rest => (hexOf? 8 rest).map (·, 9)
  | c :: _ => (escaped? c).map (·, 1)
  | [] => none
where
  /-- The character that the first `count` digits give, if there are so many. -/
  hexOf? (count : Nat) (cs : List Char) : Option Char :=
    if (cs.take count).length = count then hexChar? (cs.take count) else none

/-- Reads a basic string on one line behind its opening quote; the next `skip` characters
belong to an escape already read, and `done` holds the characters so far, last first. -/
def readBasic? (done : List Char) : Nat → List Char → Option (String × List Char)
  | _, [] => none
  | skip + 1, _ :: rest => readBasic? done skip rest
  | 0, '"' :: rest => some (String.ofList done.reverse, rest)
  | 0, '\\' :: rest =>
    match readEscape? rest with
    | some (c, length) => readBasic? (c :: done) length rest
    | none => none
  | 0, c :: rest => if isPlain c then readBasic? (c :: done) 0 rest else none

/-- Reads a literal string on one line behind its opening quote. -/
def readLiteral? (cs : List Char) : Option (String × List Char) :=
  let content := cs.takeWhile (· ≠ '\'')
  match cs.drop content.length with
  | _ :: rest => if content.all isPlain then some (String.ofList content, rest) else none
  | [] => none

/-- The end of a string in tripled quotes, behind these: up to two more quotes belong to
the string. -/
def closeTripled? (quote : Char) (done rest : List Char) : Option (String × List Char) :=
  let extra := rest.takeWhile (· = quote)
  if extra.length ≤ 2 then
    some (String.ofList (done.reverse ++ extra), rest.drop extra.length)
  else none

/-- Whether a line ends behind the next blanks. -/
def endsLine (cs : List Char) : Bool :=
  match cs.dropWhile isSpace with
  | '\n' :: _ | '\r' :: '\n' :: _ => true
  | _ => false

/-- What is done with the next characters of a basic string that spans lines. -/
inductive Skipping where
  | nothing
  /-- So many characters belong to an escape already read. -/
  | characters (count : Nat)
  /-- Blanks and line ends behind a backslash at the end of a line do not count. -/
  | blanks

/-- Reads a basic string that spans lines, behind its opening quotes. -/
def readBasicLines? (done : List Char) : Skipping → List Char → Option (String × List Char)
  | _, [] => none
  | .characters (count + 2), _ :: rest => readBasicLines? done (.characters (count + 1)) rest
  | .characters _, _ :: rest => readBasicLines? done .nothing rest
  | skipping, c :: rest =>
    let blank := isSpace c || c = '\n' || (c = '\r' && rest.head? = some '\n')
    match skipping, blank with
    | .blanks, true => readBasicLines? done .blanks rest
    | _, _ =>
      if c = '"' then
        match rest with
        | '"' :: '"' :: rest => closeTripled? '"' done rest
        | rest => readBasicLines? ('"' :: done) .nothing rest
      else if c = '\\' then
        if endsLine rest then readBasicLines? done .blanks rest
        else match readEscape? rest with
          | some (c, length) => readBasicLines? (c :: done) (.characters length) rest
          | none => none
      else if c = '\n' then readBasicLines? ('\n' :: done) .nothing rest
      else if c = '\r' && rest.head? = some '\n' then readBasicLines? done .nothing rest
      else if isPlain c then readBasicLines? (c :: done) .nothing rest
      else none

/-- Reads a literal string that spans lines, behind its opening quotes. -/
def readLiteralLines? (done : List Char) : List Char → Option (String × List Char)
  | [] => none
  | '\'' :: '\'' :: '\'' :: rest => closeTripled? '\'' done rest
  | '\r' :: '\n' :: rest => readLiteralLines? ('\n' :: done) rest
  | c :: rest =>
    if c = '\n' || isPlain c then readLiteralLines? (c :: done) rest else none

/-- A text behind the line end it may start with. -/
def skipLineEnd : List Char → List Char
  | '\n' :: rest => rest
  | '\r' :: '\n' :: rest => rest
  | cs => cs

/-- Reads a string that does not span lines. -/
def readOneLine? : List Char → Option (String × List Char)
  | '"' :: rest => readBasic? [] 0 rest
  | '\'' :: rest => readLiteral? rest
  | _ => none

/-- Reads a string of any kind. -/
def readString? : List Char → Option (String × List Char)
  | '"' :: '"' :: '"' :: rest => readBasicLines? [] .nothing (skipLineEnd rest)
  | '\'' :: '\'' :: '\'' :: rest => readLiteralLines? [] (skipLineEnd rest)
  | cs => readOneLine? cs

end DebtGauge.Toml
