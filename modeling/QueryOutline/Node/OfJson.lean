import QueryOutline.Json.Printer
import QueryOutline.Node.Basic

/-!
# Nodes from the parser's JSON

Every JSON value becomes a node: objects by the name of their `kind`, all else as text. Parts that are missing or of
the wrong shape are left out, so the conversion never fails.

* **Sequences** may be bare arrays or objects with an array under `elements`.
* **Names and operators** may be bare strings or objects with a string under `literal` or `constantKind`.
* **Literals** (`literalText`): strings stand for themselves, truth values and the absent value have words of their own,
  and everything else is written as compact JSON.
* The conversion recurses once into every part of a value: `convert` gives for each part what it means as a node and
  as a sequence, and `ofObject` picks from these by field name.
-/

namespace QueryOutline

/-- The text of a literal's value. -/
def literalText : Json.Value → String
  | .string s => s
  | .bool true => "True"
  | .bool false => "False"
  | .null => "None"
  | value => Json.compact value

/-- A bare string, or the string under the given field. -/
def textOf? (field : String) : Json.Value → Option String
  | .string s => some s
  | .object fields => (fields.lookup field).bind Json.Value.string?
  | _ => none

/-- The name of an object's kind. -/
def kindName (fields : List (String × Json.Value)) : String :=
  ((fields.lookup "kind").bind Json.Value.string?).getD "Unknown"

namespace Node

/-- What a JSON value means: as a node, as a bare array, and as a sequence. -/
structure Meaning where
  node : Node
  items : Option (List Node)
  sequence : Option (List Node)

/-- The node that an object stands for, from its fields and what their values mean. -/
def ofObject (fields : List (String × Json.Value)) (meanings : List (String × Meaning)) : Node :=
  let child (name : String) : Option Node := (meanings.lookup name).map Meaning.node
  let sequence? (name : String) : Option (List Node) := (meanings.lookup name).bind Meaning.sequence
  let sequence (name : String) : List Node := (sequence? name).getD []
  match Kind.ofName? (kindName fields) with
  | some .step => step ((fields.lookup "key").bind (textOf? "literal")) (child "value")
  | some .letBlock => letBlock ((sequence? "expressions" <|> sequence? "variableList").getD [])
  | some .list => list (sequence "elements")
  | some .function => function (sequence "parameters") (child "body")
  | some .arithmetic =>
    arithmetic (child "left") ((fields.lookup "operatorConstant").bind (textOf? "constantKind")) (child "right")
  | some .chain => chain (child "head") (sequence "recursiveExpressions")
  | some .invoke => invoke (child "content")
  | some .group => group (sequence "elements")
  | some .identifier => identifier ((fields.lookup "identifier").bind (textOf? "literal"))
  | some .literal => literal ((fields.lookup "literal").getD .null)
  | some .wrapper => wrapper (child "node")
  | none => unhandled (kindName fields)

mutual

/-- What a JSON value means. -/
def convert : Json.Value → Meaning
  | .array items =>
    let nodes := convertItems items
    ⟨text (literalText (.array items)), some nodes, some nodes⟩
  | .object fields =>
    let meanings := convertFields fields
    ⟨ofObject fields meanings, none, (meanings.lookup "elements").bind Meaning.items⟩
  | .null => ⟨text (literalText .null), none, none⟩
  | .bool b => ⟨text (literalText (.bool b)), none, none⟩
  | .number n => ⟨text (literalText (.number n)), none, none⟩
  | .string s => ⟨text s, none, none⟩
termination_by structural v => v

def convertItems : List Json.Value → List Node
  | [] => []
  | v :: vs => (convert v).node :: convertItems vs
termination_by structural vs => vs

def convertFields : List (String × Json.Value) → List (String × Meaning)
  | [] => []
  | (k, v) :: fs => (k, convert v) :: convertFields fs
termination_by structural fs => fs

end

/-- The node that a JSON value stands for. -/
def ofJson (value : Json.Value) : Node := (convert value).node

end Node

end QueryOutline
