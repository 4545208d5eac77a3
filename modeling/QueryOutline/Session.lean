import QueryOutline.Outline

/-!
# Sessions

A session holds one outline. Actions replace it, change its width or ask it; one that fails leaves it as it is.
-/

namespace QueryOutline

namespace Session

inductive Action where
  /-- Replaces the outline by the one of a source text. -/
  | load (source : String)
  /-- Replaces the outline by the one of the given steps. -/
  | loadNodes (nodes : List Node)
  /-- Replaces the outline by the one of steps given as JSON texts. -/
  | loadSteps (sources : List String)
  | clear
  | setWidth (width : Nat)
  | render
  | reports
  | unhandled
  | showNode (node : Node) (depth : Nat)
  /-- Shows a node given as a JSON text. -/
  | renderNode (source : String) (depth : Nat)
  | get (name : String)
  | state
  deriving Repr

inductive Answer where
  | stepCount (count : Nat)
  | width (width : Nat)
  | text (text : String)
  | reports (reports : List StepReport)
  | unhandled (kinds : List String)
  | references (contained : Bool) (names : List String)
  | state (hasVariableList : Bool) (names : List String) (references : ReferenceMap)
  deriving DecidableEq, Repr

/-- The outline of the given steps, and their number. -/
def ofNodes (nodes : List Node) : Answer × Outline :=
  (.stepCount nodes.length, Outline.ofDocument (Document.ofSteps nodes))

/-- The answer of an action and the outline after it. -/
def perform (outline : Outline) : Action → Except Error (Answer × Outline)
  | .load source => do
    let loaded ← Outline.ofSource source
    return (.stepCount loaded.document.steps.length, loaded)
  | .loadNodes nodes => .ok (ofNodes nodes)
  | .loadSteps sources => do return ofNodes (← sources.mapM readNode)
  | .clear => .ok (.stepCount 0, Outline.empty)
  | .setWidth width => do
    let changed ← outline.withWidth width
    return (.width changed.width, changed)
  | .render => .ok (.text outline.text, outline)
  | .reports => .ok (.reports outline.stepReports, outline)
  | .unhandled => .ok (.unhandled outline.unhandledKinds, outline)
  | .showNode node depth => .ok (.text (outline.renderNode node depth), outline)
  | .renderNode source depth => do return (.text (outline.renderNode (← readNode source) depth), outline)
  | .get name => .ok (.references (outline.references.contains name) (outline.references.get name), outline)
  | .state =>
    .ok (.state outline.document.hasVariableList (outline.document.namedSteps.map Prod.fst) outline.references,
      outline)

/-- The outline after an action. -/
def after (outline : Outline) (action : Action) : Outline :=
  match perform outline action with
  | .ok (_, outline) => outline
  | .error _ => outline

/-- The answers of actions in order, from the given outline. -/
def run (outline : Outline) : List Action → List (Except Error Answer)
  | [] => []
  | action :: actions => (perform outline action).map Prod.fst :: run (after outline action) actions

end Session

end QueryOutline
