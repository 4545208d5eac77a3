/-!
# Quoted names

A name is written between single quotes, or between double quotes when it holds a single and no double quote. The quote
in use, backslashes and ASCII control characters are escaped.

* **Names** (`quoteName`): one quoted name.
* **Lists** (`referenceList`): quoted names in brackets, and the word `None` for no names.
-/

namespace QueryOutline

/-- The quote around a name. -/
def quoteFor (name : List Char) : Char := if '\'' ∈ name ∧ '"' ∉ name then '"' else '\''

def isControl (c : Char) : Bool := c.toNat < 32 || c.toNat = 127

/-- A character between the given quotes. -/
def escapeWithin (quote c : Char) : List Char :=
  if c = '\\' then ['\\', '\\']
  else if c = '\n' then ['\\', 'n']
  else if c = '\r' then ['\\', 'r']
  else if c = '\t' then ['\\', 't']
  else if c = quote then ['\\', c]
  else if isControl c then ['\\', 'x', Nat.digitChar (c.toNat / 16), Nat.digitChar (c.toNat % 16)]
  else [c]

/-- The characters of a quoted name. -/
def quoteChars (name : List Char) : List Char :=
  let quote := quoteFor name
  quote :: (name.flatMap (escapeWithin quote) ++ [quote])

/-- A name in quotes. -/
def quoteName (name : String) : String := String.ofList (quoteChars name.toList)

/-- Quoted names in brackets; `None` stands for no names. -/
def referenceList (names : List String) : String :=
  match names with
  | [] => "None"
  | names => "[" ++ ", ".intercalate (names.map quoteName) ++ "]"

end QueryOutline
