/-!
# Text without terminal control

Messages show what the user typed without the characters and sequences that control a terminal. Blanks and line breaks
stay.

* **Sequences** (`Sequence.step`): a sequence opens with the escape character; the characters after it decide how far it
  reaches. Another escape character opens a new one, and a line break inside the short ones ends them.
* **Texts** (`visible`): the characters outside of sequences, without the control characters among them.
-/

namespace QueryOutline

/-- Blanks and line breaks; the vertical tabulator is not among them. -/
def isSpacing (c : Char) : Bool := c = ' ' || c = '\t' || c = '\n' || c = '\r' || c = '\x0c'

/-- A character that is seen or separates what is seen. -/
def isVisible (c : Char) : Bool := isSpacing c || (' ' ≤ c && c ≠ '\x7f')

/-- Where a text stands with respect to control sequences. -/
inductive Sequence where
  | outside
  /-- Directly after the escape character. -/
  | opened
  /-- After characters that announce a final one. -/
  | announced
  /-- Among the parameters of a sequence that a letter ends. -/
  | parameters
  /-- In a string that the bell ends. -/
  | title
  /-- In a string that only another escape character ends. -/
  | data
  deriving DecidableEq, Repr

namespace Sequence

/-- Where a text stands after a printable ASCII character inside a sequence. -/
def after : Sequence → Char → Sequence
  | opened, c =>
    if c ≤ '/' then announced
    else if c = '[' then parameters
    else if c = ']' then title
    else if c ∈ ['P', 'X', '^', '_'] then data
    else outside
  | announced, c => if c ≤ '/' then announced else outside
  | parameters, c => if c ≤ '?' then parameters else outside
  | s, _ => s

/-- Whether a character is seen, and where the text stands after it. -/
def step (s : Sequence) (c : Char) : Bool × Sequence :=
  if c = '\x1b' then (false, opened)
  else if c = '\x18' || c = '\x1a' then (false, outside)
  else match s with
    | outside => (isVisible c, outside)
    | title => (false, if c = '\x07' then outside else title)
    | data => (false, data)
    | s =>
      if c ≠ ' ' && isSpacing c then (true, outside)
      else if ' ' ≤ c && c < '\x7f' then (false, s.after c)
      else (false, s)

end Sequence

/-- The characters that are seen. -/
def visibleChars : Sequence → List Char → List Char
  | _, [] => []
  | s, c :: rest =>
    let (seen, s) := s.step c
    if seen then c :: visibleChars s rest else visibleChars s rest

/-- A text without terminal control. -/
def visible (text : String) : String := String.ofList (visibleChars .outside text.toList)

end QueryOutline
