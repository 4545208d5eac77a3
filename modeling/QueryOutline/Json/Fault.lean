/-!
# What can be wrong with a JSON text

A fault names the problem and where reading stopped. Its place is given by the text that is left and by the number of
further bytes that belong to the offending part; `Fault.locate` turns it into a line and a column of the source.
-/

namespace QueryOutline.Json

inductive Problem where
  | endInValue
  | endInList
  | endInObject
  | endInString
  | expectedValue
  | expectedWord
  | expectedColon
  | expectedListEnd
  | expectedObjectEnd
  | keyNotString
  | trailingComma
  | trailingCharacters
  | invalidNumber
  | numberOutOfRange
  | invalidEscape
  | loneSurrogate
  | brokenSurrogatePair
  | controlCharacter
  | tooDeep
  deriving DecidableEq, Repr

def Problem.message : Problem → String
  | endInValue => "EOF while parsing a value"
  | endInList => "EOF while parsing a list"
  | endInObject => "EOF while parsing an object"
  | endInString => "EOF while parsing a string"
  | expectedValue => "expected value"
  | expectedWord => "expected ident"
  | expectedColon => "expected `:`"
  | expectedListEnd => "expected `,` or `]`"
  | expectedObjectEnd => "expected `,` or `\x7d`"
  | keyNotString => "key must be a string"
  | trailingComma => "trailing comma"
  | trailingCharacters => "trailing characters"
  | invalidNumber => "invalid number"
  | numberOutOfRange => "number out of range"
  | invalidEscape => "invalid escape"
  | loneSurrogate => "lone leading surrogate in hex escape"
  | brokenSurrogatePair => "unexpected end of hex escape"
  | controlCharacter => "control character (\\u0000-\\u001F) found while parsing a string"
  | tooDeep => "recursion limit exceeded"

/-- A problem found when `rest` was left of the text; the offending part reaches `beyond` bytes into it. -/
structure Fault where
  problem : Problem
  rest : List Char
  beyond : Nat
  deriving DecidableEq, Repr

/-- The bytes of a text. -/
def byteCount (text : List Char) : Nat := text.foldr (fun c bytes => c.utf8Size + bytes) 0

/-- A problem with its line, counted from 1, and the number of bytes of that line up to it. -/
structure SyntaxError where
  problem : Problem
  line : Nat
  column : Nat
  deriving DecidableEq, Repr

def SyntaxError.message (e : SyntaxError) : String :=
  e.problem.message ++ " at line " ++ String.ofList (Nat.toDigits 10 e.line) ++ " column " ++
    String.ofList (Nat.toDigits 10 e.column)

/-- The line and column after the first `bytes` bytes of a text, counted on from the given ones. -/
def lineAndColumn (line column : Nat) : Nat → List Char → Nat × Nat
  | 0, _ => (line, column)
  | _, [] => (line, column)
  | bytes + 1, c :: rest =>
    if c = '\n' then lineAndColumn (line + 1) 0 bytes rest
    else if bytes + 1 < c.utf8Size then (line, column + bytes + 1)
    else lineAndColumn line (column + c.utf8Size) (bytes + 1 - c.utf8Size) rest
termination_by structural _ text => text

/-- The fault's place in the source text: the offending part never reaches past the end. -/
def Fault.locate (source : List Char) (f : Fault) : SyntaxError :=
  let total := byteCount source
  let place := lineAndColumn 1 0 (min total (total - byteCount f.rest + f.beyond)) source
  ⟨f.problem, place.1, place.2⟩

end QueryOutline.Json
