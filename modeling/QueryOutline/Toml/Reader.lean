import QueryOutline.Json.Reader.Text
import QueryOutline.Toml.Scalar

/-!
# Reading TOML texts

A reader returns what it read with the rest of the text, or nothing when the text is malformed. Loops are bounded by
the length of the text and nested values by a budget.

* **Strings**: basic and literal ones, on one line or on several.
* **Values** (`readValue`): scalars, arrays and inline tables; the latter two may end in a comma, and line breaks and
  comments may stand between their parts.
* **Documents** (`read`): a byte order mark at the front is skipped; each statement ends its line.
-/

namespace QueryOutline.Toml

open Json (hexNumber?)

/-! ## Blanks and comments -/

def skipBlanks (text : List Char) : List Char := text.dropWhile fun c => c = ' ' || c = '\t'

/-- A character that may stand in comments and on one line of strings. -/
def isPrintable (c : Char) : Bool := c = '\t' || (' ' ≤ c && c ≠ '\x7f')

/-- The rest after blanks, line breaks and comments, inside a comment or not. -/
def skipLines (inComment : Bool) : List Char → Option (List Char)
  | [] => some []
  | '\n' :: rest => skipLines false rest
  | '\r' :: '\n' :: rest => skipLines false rest
  | c :: rest =>
    if inComment then (if isPrintable c then skipLines true rest else none)
    else if c = ' ' || c = '\t' then skipLines false rest
    else if c = '#' then skipLines true rest
    else some (c :: rest)

/-- The rest after a comment up to the end of its line. -/
def skipComment : List Char → Option (List Char)
  | [] => some []
  | '\n' :: rest => some rest
  | '\r' :: '\n' :: rest => some rest
  | c :: rest => if isPrintable c then skipComment rest else none

/-- The rest after the end of a line: blanks, perhaps a comment, and a line break or the end of the text. -/
def endLine (text : List Char) : Option (List Char) :=
  match skipBlanks text with
  | [] => some []
  | '\n' :: rest => some rest
  | '\r' :: '\n' :: rest => some rest
  | '#' :: rest => skipComment rest
  | _ => none

/-! ## Strings -/

/-- The character with a hexadecimal number of exactly `count` digits. -/
def readHexChar (count : Nat) (text : List Char) : Option (Char × List Char) :=
  let digits := text.take count
  match hexNumber? digits with
  | some n => if digits.length = count ∧ n.isValidChar then some (Char.ofNat n, text.drop count) else none
  | none => none

/-- What follows a backslash. -/
def readEscape : List Char → Option (Char × List Char)
  | 'b' :: rest => some ('\x08', rest)
  | 't' :: rest => some ('\t', rest)
  | 'n' :: rest => some ('\n', rest)
  | 'f' :: rest => some ('\x0c', rest)
  | 'r' :: rest => some ('\r', rest)
  | 'e' :: rest => some ('\x1b', rest)
  | '"' :: rest => some ('"', rest)
  | '\\' :: rest => some ('\\', rest)
  | 'x' :: rest => readHexChar 2 rest
  | 'u' :: rest => readHexChar 4 rest
  | 'U' :: rest => readHexChar 8 rest
  | _ => none

/-- A string on one line up to and with its closing quote; only basic strings know escapes. -/
def readLine (quote : Char) : Nat → List Char → Option (List Char × List Char)
  | 0, _ => none
  | _, [] => none
  | bound + 1, c :: rest =>
    if c = quote then some ([], rest)
    else if c = '\\' ∧ quote = '"' then do
      let (c, rest) ← readEscape rest
      let (cs, rest) ← readLine quote bound rest
      some (c :: cs, rest)
    else if isPrintable c then do
      let (cs, rest) ← readLine quote bound rest
      some (c :: cs, rest)
    else none

/-- The rest after blanks and line breaks. -/
def skipSpacing : List Char → List Char
  | '\r' :: '\n' :: rest => skipSpacing rest
  | c :: rest => if c = ' ' || c = '\t' || c = '\n' then skipSpacing rest else c :: rest
  | [] => []

/-- The rest after a backslash at the end of a line: all blanks and line breaks that follow. -/
def afterLineEnd? (text : List Char) : Option (List Char) :=
  match skipBlanks text with
  | '\n' :: rest => some (skipSpacing rest)
  | '\r' :: '\n' :: rest => some (skipSpacing rest)
  | _ => none

/-- A string over several lines up to and with its three closing quotes, which up to two quotes may precede. -/
def readBlock (quote : Char) : Nat → List Char → Option (List Char × List Char)
  | 0, _ => none
  | _, [] => none
  | bound + 1, c :: rest =>
    if c = quote then
      let quotes := (c :: rest).takeWhile (· = quote)
      let after := (c :: rest).dropWhile (· = quote)
      if quotes.length < 3 then do
        let (cs, rest) ← readBlock quote bound after
        some (quotes ++ cs, rest)
      else if quotes.length ≤ 5 then some (quotes.drop 3, after)
      else none
    else if c = '\\' ∧ quote = '"' then
      match afterLineEnd? rest with
      | some rest => readBlock quote bound rest
      | none => do
        let (c, rest) ← readEscape rest
        let (cs, rest) ← readBlock quote bound rest
        some (c :: cs, rest)
    else if c = '\r' ∧ rest.head? ≠ some '\n' then none
    else if isPrintable c || c = '\n' || c = '\r' then do
      let (cs, rest) ← readBlock quote bound rest
      some (c :: cs, rest)
    else none

/-- A string over several lines after its opening quotes; a line break directly after them does not belong to it. -/
def readBlockString (quote : Char) (text : List Char) : Option (String × List Char) :=
  let text := match text with
    | '\n' :: rest => rest
    | '\r' :: '\n' :: rest => rest
    | text => text
  (readBlock quote text.length text).map fun (cs, rest) => (String.ofList cs, rest)

/-- A string on one line after its opening quote. -/
def readLineString (quote : Char) (text : List Char) : Option (String × List Char) :=
  (readLine quote text.length text).map fun (cs, rest) => (String.ofList cs, rest)

/-! ## Keys -/

def isBareKey (c : Char) : Bool := c.isAlphanum || c = '_' || c = '-'

/-- One key: bare, or a string on one line. -/
def readKey (text : List Char) : Option (String × List Char) :=
  match text with
  | '"' :: rest => readLineString '"' rest
  | '\'' :: rest => readLineString '\'' rest
  | text =>
    let key := text.takeWhile isBareKey
    if key = [] then none else some (String.ofList key, text.dropWhile isBareKey)

/-- A key with the dotted path before it; the rest begins after the blanks behind it. -/
def readKeyPath : Nat → List Char → Option ((List String × String) × List Char)
  | 0, _ => none
  | bound + 1, text => do
    let (key, rest) ← readKey text
    match skipBlanks rest with
    | '.' :: rest => do
      let ((path, last), rest) ← readKeyPath bound (skipBlanks rest)
      some ((key :: path, last), rest)
    | rest => some (([], key), rest)

/-! ## Values -/

/-- A reader of the values inside brackets. -/
abbrev ValueReader := List Char → Option (Value × List Char)

/-- Items up to and with the closing bracket, perhaps none. -/
def readItems (read : ValueReader) : Nat → List Char → Option (List Value × List Char)
  | 0, _ => none
  | bound + 1, text => do
    match ← skipLines false text with
    | ']' :: rest => some ([], rest)
    | text =>
      let (item, rest) ← read text
      match ← skipLines false rest with
      | ']' :: rest => some ([item], rest)
      | ',' :: rest =>
        let (items, rest) ← readItems read bound rest
        some (item :: items, rest)
      | _ => none

/-- A key, an equals sign and a value; `gap` skips what may stand around the equals sign. -/
def readAssignment (gap : List Char → Option (List Char)) (read : ValueReader) (text : List Char) :
    Option (((List String × String) × Value) × List Char) := do
  let (key, rest) ← readKeyPath text.length text
  match ← gap rest with
  | '=' :: rest =>
    let (value, rest) ← read (← gap rest)
    some ((key, value), rest)
  | _ => none

/-- Assignments up to and with the closing brace, perhaps none. -/
def readFields (read : ValueReader) : Nat → Fields → List Char → Option (Fields × List Char)
  | 0, _, _ => none
  | bound + 1, fields, text => do
    match ← skipLines false text with
    | '}' :: rest => some (fields, rest)
    | text =>
      let (((path, key), value), rest) ← readAssignment (skipLines false) read text
      let fields ← assign path key value .header fields
      match ← skipLines false rest with
      | '}' :: rest => some (fields, rest)
      | ',' :: rest => readFields read bound fields rest
      | _ => none

/-- A value; `nested` reads the values inside its brackets, and without it brackets are refused. -/
def readValueWith (nested : Option ValueReader) (text : List Char) : Option (Value × List Char) :=
  match text with
  | '"' :: '"' :: '"' :: rest => (readBlockString '"' rest).map fun (s, rest) => (.string s, rest)
  | '\'' :: '\'' :: '\'' :: rest => (readBlockString '\'' rest).map fun (s, rest) => (.string s, rest)
  | '"' :: rest => (readLineString '"' rest).map fun (s, rest) => (.string s, rest)
  | '\'' :: rest => (readLineString '\'' rest).map fun (s, rest) => (.string s, rest)
  | '[' :: rest => do
    let read ← nested
    let (items, rest) ← readItems read (rest.length + 1) rest
    some (.array items, rest)
  | '{' :: rest => do
    let read ← nested
    let (fields, rest) ← readFields read (rest.length + 1) [] rest
    some (.table (closeFields fields), rest)
  | text => readScalar text

/-- A value with at most the given number of arrays and inline tables inside one another. -/
def readValue : Nat → List Char → Option (Value × List Char)
  | 0 => readValueWith none
  | budget + 1 => readValueWith (some (readValue budget))

/-- How many arrays and inline tables may be inside one another. -/
def nestingLimit : Nat := 80

/-! ## Documents -/

/-- A header or an assignment, without the end of its line. -/
def readStatement (text : List Char) : Option (Statement × List Char) :=
  match text with
  | '[' :: '[' :: rest => do
    let ((path, key), rest) ← readKeyPath rest.length (skipBlanks rest)
    match rest with
    | ']' :: ']' :: rest => some (.element path key, rest)
    | _ => none
  | '[' :: rest => do
    let ((path, key), rest) ← readKeyPath rest.length (skipBlanks rest)
    match rest with
    | ']' :: rest => some (.table path key, rest)
    | _ => none
  | text => do
    let (((path, key), value), rest) ← readAssignment (some ∘ skipBlanks) (readValue nestingLimit) text
    some (.assignment path key value, rest)

/-- The statements of a text. -/
def readStatements : Nat → List Char → Option (List Statement)
  | 0, _ => some []
  | bound + 1, text => do
    match ← skipLines false text with
    | [] => some []
    | text =>
      let (statement, rest) ← readStatement text
      let statements ← readStatements bound (← endLine rest)
      some (statement :: statements)

/-- The fields of a document. -/
def read (source : String) : Option (List (String × Value)) := do
  let text := match source.toList with
    | '\ufeff' :: rest => rest
    | text => text
  build (← readStatements (text.length + 1) text)

end QueryOutline.Toml
