import QueryOutline.Error
import QueryOutline.Json.Reader
import QueryOutline.Node.OfJson

/-!
# Documents

A document is the list of steps of the outermost `let` of a JSON tree, or nothing when the tree holds none.

* **Search** (`variableList?`): a queue that begins with the root finds the first object with a field `variableList`,
  level by level and left to right within a level.
* **Steps** (`Document.ofJson`): the elements of that field, as nodes.
* **Names** (`namedSteps`, `stepNames`): the elements that declare a name.
-/

namespace QueryOutline

/-- The elements of an array, or of the array under `elements` of an object. -/
def elements? : Json.Value → Option (List Json.Value)
  | .array items => some items
  | .object fields => (fields.lookup "elements").bind Json.Value.array?
  | _ => none

/-- The search through a queue: the field `variableList` of the value in front, or else the search goes on with the
parts of that value at the end of the queue. -/
def searchQueue : List Json.Value → Option Json.Value
  | [] => none
  | value :: queue =>
    match value.field? "variableList" with
    | some list => some list
    | none => searchQueue (queue ++ value.parts)
termination_by queue => Json.Value.sizeOfItems queue
decreasing_by
  have := value.sizeOfItems_parts
  simp only [Json.Value.sizeOfItems, Json.Value.sizeOfItems_append]
  omega

/-- The field `variableList` that a search from the root finds first. -/
def variableList? (root : Json.Value) : Option Json.Value := searchQueue [root]

/-- What kind of value stands where a tree should. -/
def describe : Json.Value → String
  | .null => "null"
  | .bool _ => "a boolean"
  | .number _ => "a number"
  | .string _ => "a string"
  | .array _ => "an array"
  | .object _ => "an object"

/-- The steps of a query, or nothing when there is no list of steps at all. -/
structure Document where
  steps? : Option (List Node)

namespace Document

/-- The document without a list of steps. -/
def empty : Document := ⟨none⟩

def ofSteps (steps : List Node) : Document := ⟨some steps⟩

/-- The document in a JSON tree; a scalar is no tree. -/
def ofJson (root : Json.Value) : Except Error Document :=
  match root with
  | .array _ | .object _ =>
    .ok ⟨(variableList? root).map fun list => ((elements? list).getD []).map Node.ofJson⟩
  | scalar =>
    .error (.notATree ("expected a JSON object or array at the top level, found " ++ describe scalar))

def hasVariableList (document : Document) : Bool := document.steps?.isSome

/-- All elements of the list of steps, in order. -/
def steps (document : Document) : List Node := document.steps?.getD []

/-- The elements that declare a name, in order, with the name and the value. -/
def namedSteps (document : Document) : List (String × Option Node) := document.steps.filterMap Node.asStep?

/-- The declared names, each once, in increasing order. -/
def stepNames (document : Document) : List String := Names.ofList (document.namedSteps.map Prod.fst)

/-- Equality of documents, with nodes compared by `Node.same`. -/
def same (a b : Document) : Bool :=
  match a.steps?, b.steps? with
  | none, none => true
  | some as, some bs => Node.sameList as bs
  | _, _ => false

end Document

/-- The JSON value of a source text. -/
def readJson (source : String) : Except Error Json.Value := (Json.read source).mapError Error.json

/-- The document of a source text. -/
def readDocument (source : String) : Except Error Document := do Document.ofJson (← readJson source)

/-- The node of a source text. -/
def readNode (source : String) : Except Error Node := do return Node.ofJson (← readJson source)

end QueryOutline
