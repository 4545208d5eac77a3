import QueryOutline.Render

/-!
# Outlines

An outline holds a document, its reference map and the width of indentation. It is shown as one text
(`Outline.text`) or as a report for each step (`Outline.stepReports`).
-/

namespace QueryOutline

/-- A top-level step: its name, if it declares one, the names it refers to and its text. -/
structure StepReport where
  name : Option String
  references : List String
  rendered : String
  deriving DecidableEq, Repr

structure Outline where
  document : Document
  references : ReferenceMap
  width : Nat

namespace Outline

def ofDocument (document : Document) : Outline := ⟨document, ReferenceMap.ofDocument document, defaultWidth⟩

/-- The outline of a source text. -/
def ofSource (source : String) : Except Error Outline := do return ofDocument (← readDocument source)

/-- The outline of no document. -/
def empty : Outline := ofDocument Document.empty

/-- The same outline with another width of indentation. -/
def withWidth (outline : Outline) (width : Nat) : Except Error Outline := do
  return { outline with width := ← checkWidth width }

/-- The text of a node at a depth, with the outline's references and width. -/
def renderNode (outline : Outline) (node : Node) (depth : Nat) : String :=
  node.render outline.references outline.width depth

/-- The texts of all steps, one after the other. -/
def text (outline : Outline) : String :=
  "\n".intercalate (outline.document.steps.map fun step => outline.renderNode step 0)

/-- The report of a step. -/
def stepReport (outline : Outline) (step : Node) : StepReport :=
  let name := step.asStep?.map Prod.fst
  ⟨name, (name.map outline.references.get).getD [], outline.renderNode step 0⟩

/-- The reports of all steps. -/
def stepReports (outline : Outline) : List StepReport := outline.document.steps.map outline.stepReport

/-- The kinds without a rendering of their own anywhere in the document, each once, in the order of first sight. -/
def unhandledKinds (outline : Outline) : List String :=
  Names.dedup (outline.document.steps.flatMap Node.unhandledKinds)

end Outline

end QueryOutline
