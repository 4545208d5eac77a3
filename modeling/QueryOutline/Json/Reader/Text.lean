import QueryOutline.Json.Fault

/-!
# Reading JSON strings

A reader takes the text that is left and returns what it read with the rest, or the fault that stopped it. Loops carry
a bound that is at least the length of the text, so the bound is spent only when the text is.

* **Escapes** (`readEscape`): the single-letter escapes, and `\u` with four hex digits, where a character beyond the
  first 65536 takes a pair of surrogates.
* **Strings** (`readString`): up to the closing quote; control characters are refused.
-/

namespace QueryOutline.Json

/-- The outcome of reading a part of a text: what was read and the text that is left. -/
abbrev Reading (α : Type) := Except Fault (α × List Char)

/-- Goes on with what was read and the text that is left. -/
def Reading.andThen {α β : Type} (reading : Reading α) (next : α → List Char → Reading β) : Reading β :=
  match reading with
  | .ok (a, rest) => next a rest
  | .error fault => .error fault

/-- The text ends too early. -/
def atEnd {α : Type} (problem : Problem) : Reading α := .error ⟨problem, [], 0⟩

/-- The offending byte is the first of the text that is left. -/
def atNext {α : Type} (problem : Problem) (rest : List Char) : Reading α := .error ⟨problem, rest, 1⟩

/-- The fault is noticed after the last byte read. -/
def atLast {α : Type} (problem : Problem) (rest : List Char) : Reading α := .error ⟨problem, rest, 0⟩

def isBlank (c : Char) : Bool := c = ' ' || c = '\n' || c = '\t' || c = '\r'

def skipBlank (text : List Char) : List Char := text.dropWhile isBlank

/-- The value of a hexadecimal digit. -/
def hexDigit? (c : Char) : Option Nat :=
  if '0' ≤ c ∧ c ≤ '9' then some (c.toNat - '0'.toNat)
  else if 'a' ≤ c ∧ c ≤ 'f' then some (c.toNat - 'a'.toNat + 10)
  else if 'A' ≤ c ∧ c ≤ 'F' then some (c.toNat - 'A'.toNat + 10)
  else none

/-- The number that hexadecimal digits denote. -/
def hexNumber? (digits : List Char) : Option Nat :=
  digits.foldl (fun n c => n.bind fun n => (hexDigit? c).map (16 * n + ·)) (some 0)

/-- Four hexadecimal digits; what is not a digit counts as four bytes. -/
def readHex (text : List Char) : Reading Nat :=
  if byteCount (text.take 4) < 4 then atEnd .endInString
  else match hexNumber? (text.take 4) with
    | some n => .ok (n, text.drop 4)
    | none => .error ⟨.invalidEscape, text, 4⟩

def isHighSurrogate (n : Nat) : Bool := 0xD800 ≤ n && n ≤ 0xDBFF

def isLowSurrogate (n : Nat) : Bool := 0xDC00 ≤ n && n ≤ 0xDFFF

/-- The second half of a surrogate pair. -/
def readLowSurrogate (high : Nat) : List Char → Reading Char
  | [] => atEnd .endInString
  | '\\' :: [] => atEnd .endInString
  | '\\' :: 'u' :: rest =>
    (readHex rest).andThen fun low rest =>
    if isLowSurrogate low then .ok (Char.ofNat (0x10000 + (high - 0xD800) * 0x400 + (low - 0xDC00)), rest)
    else atLast .loneSurrogate rest
  | '\\' :: rest => atNext .brokenSurrogatePair rest
  | rest => atNext .brokenSurrogatePair rest

/-- What follows a backslash. -/
def readEscape : List Char → Reading Char
  | [] => atEnd .endInString
  | '"' :: rest => .ok ('"', rest)
  | '\\' :: rest => .ok ('\\', rest)
  | '/' :: rest => .ok ('/', rest)
  | 'b' :: rest => .ok ('\x08', rest)
  | 'f' :: rest => .ok ('\x0c', rest)
  | 'n' :: rest => .ok ('\n', rest)
  | 'r' :: rest => .ok ('\r', rest)
  | 't' :: rest => .ok ('\t', rest)
  | 'u' :: rest =>
    (readHex rest).andThen fun n rest =>
    if isLowSurrogate n then atLast .loneSurrogate rest
    else if isHighSurrogate n then readLowSurrogate n rest
    else .ok (Char.ofNat n, rest)
  | rest => atNext .invalidEscape rest

/-- The characters of a string up to and with its closing quote. -/
def readChars : Nat → List Char → Reading (List Char)
  | 0, _ => atEnd .endInString
  | _, [] => atEnd .endInString
  | _, '"' :: rest => .ok ([], rest)
  | bound + 1, '\\' :: rest =>
    (readEscape rest).andThen fun c rest =>
    (readChars bound rest).andThen fun cs rest => .ok (c :: cs, rest)
  | bound + 1, c :: rest =>
    if c < ' ' then atNext .controlCharacter (c :: rest)
    else (readChars bound rest).andThen fun cs rest => .ok (c :: cs, rest)

/-- A string after its opening quote. -/
def readString (text : List Char) : Reading String :=
  (readChars text.length text).andThen fun cs rest => .ok (String.ofList cs, rest)

end QueryOutline.Json
