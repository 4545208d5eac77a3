import QueryOutline.Json.Reader.Number
import QueryOutline.Keyed

/-!
# Reading JSON texts

A value is read with a budget of nested arrays and objects. The loops over items and fields take the reader of the
nested values as a parameter and are bounded by the length of the text, so all recursion is structural.

* **Objects** keep their fields in increasing order of the keys; of two fields with one key the later wins.
* **Nesting** (`readValue`): a bracket beyond the budget is refused where it stands.
* **Texts** (`read`): one value with blanks around it.
-/

namespace QueryOutline.Json

/-- The rest of a fixed word. -/
def readWord (value : Value) : List Char → List Char → Reading Value
  | [], rest => .ok (value, rest)
  | _ :: _, [] => atEnd .endInValue
  | w :: word, c :: rest => if c = w then readWord value word rest else atNext .expectedWord (c :: rest)

/-- Items up to and with the closing bracket; the first one starts here. -/
def readItems (read : List Char → Reading Value) : Nat → List Char → Reading (List Value)
  | 0, _ => atEnd .endInValue
  | bound + 1, text =>
    (read text).andThen fun item rest =>
    match skipBlank rest with
    | [] => atEnd .endInList
    | ']' :: rest => .ok ([item], rest)
    | ',' :: rest =>
      match skipBlank rest with
      | [] => atEnd .endInValue
      | ']' :: rest => atNext .trailingComma (']' :: rest)
      | rest => (readItems read bound rest).andThen fun items rest => .ok (item :: items, rest)
    | rest => atNext .expectedListEnd rest

/-- An array after its opening bracket. -/
def readArray (read : List Char → Reading Value) (text : List Char) : Reading Value :=
  match skipBlank text with
  | [] => atEnd .endInList
  | ']' :: rest => .ok (.array [], rest)
  | rest => (readItems read rest.length rest).andThen fun items rest => .ok (.array items, rest)

/-- A field: a key, a colon and a value. -/
def readField (read : List Char → Reading Value) : List Char → Reading (String × Value)
  | [] => atEnd .endInObject
  | '"' :: rest =>
    (readString rest).andThen fun key rest =>
    match skipBlank rest with
    | [] => atEnd .endInObject
    | ':' :: rest => (read rest).andThen fun value rest => .ok ((key, value), rest)
    | rest => atNext .expectedColon rest
  | rest => atNext .keyNotString rest

/-- Fields up to and with the closing brace; the first one starts here. -/
def readFields (read : List Char → Reading Value) : Nat → List Char → Reading (List (String × Value))
  | 0, _ => atEnd .endInObject
  | bound + 1, text =>
    (readField read text).andThen fun field rest =>
    match skipBlank rest with
    | [] => atEnd .endInObject
    | '}' :: rest => .ok ([field], rest)
    | ',' :: rest =>
      match skipBlank rest with
      | [] => atEnd .endInValue
      | '}' :: rest => atNext .trailingComma ('}' :: rest)
      | rest => (readFields read bound rest).andThen fun fields rest => .ok (field :: fields, rest)
    | rest => atNext .expectedObjectEnd rest

/-- An object after its opening brace. -/
def readObject (read : List Char → Reading Value) (text : List Char) : Reading Value :=
  match skipBlank text with
  | [] => atEnd .endInObject
  | '}' :: rest => .ok (.object [], rest)
  | rest =>
    (readFields read rest.length rest).andThen fun fields rest => .ok (.object (Keyed.ofList fields), rest)

/-- A value; `nested` reads the values inside its brackets, and without it brackets are refused. -/
def readValueWith (nested : Option (List Char → Reading Value)) (text : List Char) : Reading Value :=
  match skipBlank text with
  | [] => atEnd .endInValue
  | 'n' :: rest => readWord .null ['u', 'l', 'l'] rest
  | 't' :: rest => readWord (.bool true) ['r', 'u', 'e'] rest
  | 'f' :: rest => readWord (.bool false) ['a', 'l', 's', 'e'] rest
  | '"' :: rest => (readString rest).andThen fun s rest => .ok (.string s, rest)
  | '-' :: rest => (readNumber true rest).andThen fun n rest => .ok (.number n, rest)
  | '[' :: rest =>
    match nested with
    | some read => readArray read rest
    | none => atNext .tooDeep ('[' :: rest)
  | '{' :: rest =>
    match nested with
    | some read => readObject read rest
    | none => atNext .tooDeep ('{' :: rest)
  | c :: rest =>
    if c.isDigit then (readNumber false (c :: rest)).andThen fun n rest => .ok (.number n, rest)
    else atNext .expectedValue (c :: rest)

/-- A value with at most the given number of arrays and objects inside one another. -/
def readValue : Nat → List Char → Reading Value
  | 0 => readValueWith none
  | budget + 1 => readValueWith (some (readValue budget))

/-- How many arrays and objects may be inside one another. -/
def nestingLimit : Nat := 127

/-- A text that holds one value. -/
def readText (text : List Char) : Reading Value :=
  (readValue nestingLimit text).andThen fun value rest =>
  match skipBlank rest with
  | [] => .ok (value, [])
  | rest => atNext .trailingCharacters rest

/-- The value that a text denotes. -/
def read (source : String) : Except SyntaxError Value :=
  match readText source.toList with
  | .ok (value, _) => .ok value
  | .error fault => .error (fault.locate source.toList)

end QueryOutline.Json
