import QueryOutline.Program

/-!
# The dump program

It prints the tree of nodes of one file: a line for each node, indented by its level, with the kind and a summary.
-/

namespace QueryOutline.Dump

/-- The text that tells a node from others of its kind. -/
def summaryText : Node → String
  | .step key _ => key.getD ""
  | .identifier name => name.getD ""
  | .literal value => literalText value
  | .arithmetic _ operator _ => operator.getD ""
  | .text text => text
  | _ => ""

/-- How many characters of a summary are shown. -/
def summaryLength : Nat := 50

/-- A line break is shown as a backslash and a letter. -/
def showBreaks (text : List Char) : List Char := text.flatMap fun c => if c = '\n' then ['\\', 'n'] else [c]

/-- The summary of a node: cut off when it is too long, and on one line. -/
def summary (node : Node) : String :=
  let text := (summaryText node).toList
  String.ofList (showBreaks (if summaryLength < text.length then text.take summaryLength ++ ['.', '.', '.'] else text))

/-- The line of a node. -/
def line (level : Nat) (node : Node) : String :=
  String.ofList (List.replicate (2 * level) ' ') ++ node.kind ++ "  \"" ++ summary node ++ "\"\n"

mutual

/-- The lines of a node and everything below it. -/
def lines (level : Nat) : Node → List String
  | .step key value => line level (.step key value) :: linesOption (level + 1) value
  | .letBlock steps => line level (.letBlock steps) :: linesList (level + 1) steps
  | .list elements => line level (.list elements) :: linesList (level + 1) elements
  | .function parameters body =>
    line level (.function parameters body) :: (linesList (level + 1) parameters ++ linesOption (level + 1) body)
  | .arithmetic left operator right =>
    line level (.arithmetic left operator right) :: (linesOption (level + 1) left ++ linesOption (level + 1) right)
  | .chain head tails =>
    line level (.chain head tails) :: (linesOption (level + 1) head ++ linesList (level + 1) tails)
  | .invoke content => line level (.invoke content) :: linesOption (level + 1) content
  | .group elements => line level (.group elements) :: linesList (level + 1) elements
  | .wrapper inner => line level (.wrapper inner) :: linesOption (level + 1) inner
  | .identifier name => [line level (.identifier name)]
  | .literal value => [line level (.literal value)]
  | .unhandled kind => [line level (.unhandled kind)]
  | .text text => [line level (.text text)]
termination_by structural node => node

def linesOption (level : Nat) : Option Node → List String
  | none => []
  | some node => lines level node
termination_by structural node => node

def linesList (level : Nat) : List Node → List String
  | [] => []
  | node :: nodes => lines level node ++ linesList level nodes
termination_by structural nodes => nodes

end

/-- The tree of a document. -/
def documentText (document : Document) : String :=
  (if document.hasVariableList then "" else "(no variableList)\n") ++ String.join (linesList 0 document.steps)

/-- A run of the program with the arguments after its name. -/
def run (environment : Environment) (arguments : List String) : Outcome :=
  match arguments with
  | [file] =>
    match environment.files.readText ⟨file⟩ with
    | .error cause => ⟨1, "", "Failed to read " ++ file ++ ": " ++ cause.message ++ "\n", []⟩
    | .ok source =>
      match readDocument source with
      | .error error => ⟨1, "", "Failed to load " ++ file ++ ": " ++ error.message ++ "\n", []⟩
      | .ok document => ⟨0, "AST for " ++ file ++ ":\n================\n" ++ documentText document, "", []⟩
  | _ => ⟨1, "", "Usage: dump_ast <ast.json>\n", []⟩

end QueryOutline.Dump
