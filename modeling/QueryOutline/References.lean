import QueryOutline.Document
import QueryOutline.Node.Walk

/-!
# References between steps

A step refers to another when an identifier naming it is reached from the step's value through nodes that carry
references.

* **One value** (`stepReferences`): the declared names among its identifiers, in increasing order.
* **A document** (`ReferenceMap.ofDocument`): an entry for each declared name; of two declarations of a name the later
  counts.
-/

namespace QueryOutline

/-- The names among `names`, a list in increasing order, that the value refers to. -/
def stepReferences (value : Node) (names : List String) : List String :=
  let identifiers := value.collectIdentifiers
  names.filter fun name => name ∈ identifiers

/-- For each step, in increasing order, the names it refers to. -/
structure ReferenceMap where
  entries : List (String × List String)
  deriving DecidableEq, Repr

namespace ReferenceMap

def empty : ReferenceMap := ⟨[]⟩

/-- The references of a step; a step that is not declared has none. -/
def get (references : ReferenceMap) (step : String) : List String := (references.entries.lookup step).getD []

def contains (references : ReferenceMap) (step : String) : Bool := (references.entries.lookup step).isSome

def size (references : ReferenceMap) : Nat := references.entries.length

def isEmpty (references : ReferenceMap) : Bool := references.entries.isEmpty

/-- The references of all steps of a document. -/
def ofDocument (document : Document) : ReferenceMap :=
  let names := document.stepNames
  ⟨(Keyed.ofList document.namedSteps).map fun (name, value?) =>
    (name, (value?.map (stepReferences · names)).getD [])⟩

end ReferenceMap

end QueryOutline
