import QueryOutline.Json.Value
import QueryOutline.Node.Kind

/-!
# Nodes of a query's syntax tree

`Node` has one constructor for each kind with a rendering of its own, one for every other kind and one for plain text.
Parts that the parser may leave out are optional.

* **Children** (`Node.children`) are the direct subnodes in source order.
* **References** pass only through nodes that `carriesReferences`: arithmetic, chains, invocations and groupings, but
  not function bodies or list literals.
* **Steps** (`asStep?`) are the named declarations, seen through any wrappers.
-/

namespace QueryOutline

inductive Node where
  /-- A declaration `key = value` of a `let`. -/
  | step (key : Option String) (value : Option Node)
  | letBlock (steps : List Node)
  | list (elements : List Node)
  | function (parameters : List Node) (body : Option Node)
  | arithmetic (left : Option Node) (operator : Option String) (right : Option Node)
  /-- A head followed by invocations and accesses. -/
  | chain (head : Option Node) (tails : List Node)
  | invoke (content : Option Node)
  | group (elements : List Node)
  | identifier (name : Option String)
  | literal (value : Json.Value)
  /-- An element together with its separator. -/
  | wrapper (inner : Option Node)
  /-- A node of a kind without a rendering of its own. -/
  | unhandled (kind : String)
  /-- What is no node but has a text. -/
  | text (text : String)
  deriving Repr

instance : Inhabited Node := ⟨.text ""⟩

namespace Node

/-- The name of the node's kind. -/
def kind : Node → String
  | step .. => Kind.step.name
  | letBlock .. => Kind.letBlock.name
  | list .. => Kind.list.name
  | function .. => Kind.function.name
  | arithmetic .. => Kind.arithmetic.name
  | chain .. => Kind.chain.name
  | invoke .. => Kind.invoke.name
  | group .. => Kind.group.name
  | identifier .. => Kind.identifier.name
  | literal .. => Kind.literal.name
  | wrapper .. => Kind.wrapper.name
  | unhandled kind => kind
  | text .. => "Text"

/-- The direct subnodes in source order. -/
def children : Node → List Node
  | step _ value => value.toList
  | letBlock steps => steps
  | list elements => elements
  | function parameters body => parameters ++ body.toList
  | arithmetic left _ right => left.toList ++ right.toList
  | chain head tails => head.toList ++ tails
  | invoke content => content.toList
  | group elements => elements
  | wrapper inner => inner.toList
  | identifier _ => []
  | literal _ => []
  | unhandled _ => []
  | text _ => []

/-- Whether identifiers below the node count as references. -/
def carriesReferences : Node → Bool
  | arithmetic .. => true
  | chain .. => true
  | invoke .. => true
  | group .. => true
  | wrapper .. => true
  | _ => false

/-- The node inside all wrappers; a wrapper of nothing stays. -/
def unwrap : Node → Node
  | wrapper (some inner) => unwrap inner
  | node => node
termination_by structural node => node

/-- The name and value that the node declares, seen through wrappers. -/
def asStep? (node : Node) : Option (String × Option Node) :=
  match node.unwrap with
  | step (some key) value => some (key, value)
  | _ => none

mutual

/-- Equality of nodes; literals are compared by `Json.Value.same`. -/
def same : Node → Node → Bool
  | step k v, step l w => k = l && sameOption v w
  | letBlock as, letBlock bs => sameList as bs
  | list as, list bs => sameList as bs
  | function as v, function bs w => sameList as bs && sameOption v w
  | arithmetic a o b, arithmetic c p d => sameOption a c && o = p && sameOption b d
  | chain v as, chain w bs => sameOption v w && sameList as bs
  | invoke v, invoke w => sameOption v w
  | group as, group bs => sameList as bs
  | identifier a, identifier b => a = b
  | literal a, literal b => a.same b
  | wrapper v, wrapper w => sameOption v w
  | unhandled a, unhandled b => a = b
  | text a, text b => a = b
  | _, _ => false
termination_by structural a => a

def sameOption : Option Node → Option Node → Bool
  | none, none => true
  | some a, some b => same a b
  | _, _ => false
termination_by structural a => a

def sameList : List Node → List Node → Bool
  | [], [] => true
  | a :: as, b :: bs => same a b && sameList as bs
  | _, _ => false
termination_by structural as => as

end

end Node

end QueryOutline
