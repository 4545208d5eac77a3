import QueryOutline.Decimal.Text
import QueryOutline.Json.Value

/-!
# Writing JSON texts

* **Strings** (`quoted`): quotes, backslashes and control characters below the blank are escaped, all else is written
  as it is.
* **Numbers**: floating-point numbers are written with the fewest digits that read back, plainly from 0.00001 up to
  below 10 ^ 16.
* **Two layouts**: `compact` without blanks, `pretty` with one item or field a line and two blanks a level.
-/

namespace QueryOutline.Json

/-- The hexadecimal digit, in lower case, of a number below 16. -/
def hexDigit (n : Nat) : Char := Nat.digitChar n

/-- A character inside quotes. -/
def escaped (c : Char) : List Char :=
  if c = '"' then ['\\', '"']
  else if c = '\\' then ['\\', '\\']
  else if c = '\x08' then ['\\', 'b']
  else if c = '\x0c' then ['\\', 'f']
  else if c = '\n' then ['\\', 'n']
  else if c = '\r' then ['\\', 'r']
  else if c = '\t' then ['\\', 't']
  else if c < ' ' then ['\\', 'u', '0', '0', hexDigit (c.toNat / 16), hexDigit (c.toNat % 16)]
  else [c]

/-- A string with its quotes. -/
def quoted (s : String) : List Char := '"' :: (s.toList.flatMap escaped ++ ['"'])

/-- Plain notation from 0.00001 up to below 10 ^ 16. -/
def realStyle : Decimal.Style := ⟨-5, 16⟩

def Number.text : Number → List Char
  | .integer n => (if n < 0 then ['-'] else []) ++ digitsOf n.natAbs
  | .real x => (if x.negative then ['-'] else []) ++ x.shortest.text realStyle

mutual

/-- The text without blanks. -/
def compactText : Value → List Char
  | .null => ['n', 'u', 'l', 'l']
  | .bool true => ['t', 'r', 'u', 'e']
  | .bool false => ['f', 'a', 'l', 's', 'e']
  | .number n => n.text
  | .string s => quoted s
  | .array items => '[' :: (compactItems items ++ [']'])
  | .object fields => '{' :: (compactFields fields ++ ['}'])
termination_by structural v => v

def compactItems : List Value → List Char
  | [] => []
  | [v] => compactText v
  | v :: vs => compactText v ++ ',' :: compactItems vs
termination_by structural vs => vs

def compactFields : List (String × Value) → List Char
  | [] => []
  | [(k, v)] => quoted k ++ ':' :: compactText v
  | (k, v) :: fs => quoted k ++ ':' :: compactText v ++ ',' :: compactFields fs
termination_by structural fs => fs

end

/-- A line break and the margin of a level. -/
def newLine (level : Nat) : List Char := '\n' :: List.replicate (2 * level) ' '

mutual

/-- The text with one item or field a line, inside brackets of the given level. -/
def prettyText (level : Nat) : Value → List Char
  | .array [] => ['[', ']']
  | .array items => '[' :: (prettyItems (level + 1) items ++ newLine level ++ [']'])
  | .object [] => ['{', '}']
  | .object fields => '{' :: (prettyFields (level + 1) fields ++ newLine level ++ ['}'])
  | .null => ['n', 'u', 'l', 'l']
  | .bool true => ['t', 'r', 'u', 'e']
  | .bool false => ['f', 'a', 'l', 's', 'e']
  | .number n => n.text
  | .string s => quoted s
termination_by structural v => v

def prettyItems (level : Nat) : List Value → List Char
  | [] => []
  | [v] => newLine level ++ prettyText level v
  | v :: vs => newLine level ++ prettyText level v ++ ',' :: prettyItems level vs
termination_by structural vs => vs

def prettyFields (level : Nat) : List (String × Value) → List Char
  | [] => []
  | [(k, v)] => newLine level ++ quoted k ++ ':' :: ' ' :: prettyText level v
  | (k, v) :: fs => newLine level ++ quoted k ++ ':' :: ' ' :: prettyText level v ++ ',' :: prettyFields level fs
termination_by structural fs => fs

end

/-- The compact text of a value. -/
def compact (v : Value) : String := String.ofList (compactText v)

/-- The text of a value over several lines. -/
def pretty (v : Value) : String := String.ofList (prettyText 0 v)

end QueryOutline.Json
