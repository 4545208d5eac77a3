import QueryOutline.References
import QueryOutline.Text.Quoted

/-!
# Rendering nodes as text

Steps, `let` blocks and unhandled nodes begin with an indentation of `width · depth` blanks, as far as words of 64 bits
count them; everything else is written in place. Missing parts show as placeholders.

* **Depth**: the parts of a node are one level deeper, but the head of a chain and the inside of a wrapper stay on the
  level of the node.
* **References**: below each step stands the list of names that the reference map has for it.
-/

namespace QueryOutline

/-- The width of one level of indentation unless another is asked for. -/
def defaultWidth : Nat := 2

/-- The greatest width of one level of indentation. -/
def greatestWidth : Nat := 8

/-- Accepts the widths from 1 to the greatest. -/
def checkWidth (width : Nat) : Except Error Nat :=
  if 1 ≤ width ∧ width ≤ greatestWidth then .ok width
  else .error (.config ("indent_width must be between 1 and " ++ String.ofList (Nat.toDigits 10 greatestWidth) ++
    ", got " ++ String.ofList (Nat.toDigits 10 width)))

/-- The blanks before a line. They are counted in a word of 64 bits, which starts again from zero. -/
def indentation (width depth : Nat) : String := String.ofList (List.replicate (width * depth % Nat.pow 2 64) ' ')

/-- The name under which a step without a name is shown and looked up. -/
def unknownKey : String := "Unknown Key"

/-- The line below a step. -/
def referenceLine (names : List String) : String := "\n  - References: " ++ referenceList names ++ "\n"

namespace Node

mutual

/-- The text of a node at a depth. -/
def render (references : ReferenceMap) (width depth : Nat) : Node → String
  | step key value =>
    indentation width depth ++ key.getD unknownKey ++ " = " ++
      renderOption references width (depth + 1) "Unknown Value" value ++
      referenceLine (references.get (key.getD unknownKey))
  | letBlock steps =>
    indentation width depth ++ "Let\n" ++ String.join (renderList references width (depth + 1) steps) ++ "\n" ++
      indentation width depth ++ "In"
  | list elements => "List(" ++ ", ".intercalate (renderList references width (depth + 1) elements) ++ ")"
  | function parameters body =>
    "Function(" ++ ", ".intercalate (renderList references width (depth + 1) parameters) ++ ") => " ++
      renderOption references width (depth + 1) "Unknown Body" body
  | arithmetic left operator right =>
    "(" ++ renderOption references width (depth + 1) "Unknown Left" left ++ " " ++ operator.getD "?" ++ " " ++
      renderOption references width (depth + 1) "Unknown Right" right ++ ")"
  | chain head tails =>
    renderOption references width depth "Unknown Head" head ++ "(" ++
      ", ".intercalate (renderList references width (depth + 1) tails) ++ ")"
  | invoke content => "Invoke(" ++ renderOption references width (depth + 1) "Unknown Content" content ++ ")"
  | group elements => ", ".intercalate (renderList references width (depth + 1) elements)
  | identifier name => name.getD "Unknown Identifier"
  | literal value => literalText value
  | wrapper inner => renderOption references width depth "Unknown Node" inner
  | unhandled kind => indentation width depth ++ kind ++ " (Unhandled Node)"
  | text t => t
termination_by structural node => node

/-- The text of an optional part, with a placeholder for a missing one. -/
def renderOption (references : ReferenceMap) (width depth : Nat) (placeholder : String) : Option Node → String
  | none => placeholder
  | some node => render references width depth node
termination_by structural node => node

/-- The texts of nodes at one depth. -/
def renderList (references : ReferenceMap) (width depth : Nat) : List Node → List String
  | [] => []
  | node :: nodes => render references width depth node :: renderList references width depth nodes
termination_by structural nodes => nodes

end

end Node

end QueryOutline
