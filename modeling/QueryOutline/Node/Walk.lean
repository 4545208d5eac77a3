import QueryOutline.Keyed
import QueryOutline.Node.Basic

/-!
# Walking a tree of nodes

A walk visits a node before its children and asks a condition whether to go on below it.

* **Visits** (`Node.visited`): the visited nodes in order.
* **Events** (`Node.events`): what a walk tells at each node: an identifier, an unhandled kind, and the answer whether
  it goes on.
* **Identifiers** (`collectIdentifiers`): the names met when going on only below nodes that carry references.
* **Unhandled kinds** (`unhandledKinds`): the kinds without a rendering anywhere in the tree, each once.
-/

namespace QueryOutline

namespace Node

mutual

/-- The nodes of a walk that goes on below the nodes that satisfy `descend`. -/
def visited (descend : Node → Bool) : Node → List Node
  | step key value => step key value :: if descend (step key value) then visitedOption descend value else []
  | letBlock steps => letBlock steps :: if descend (letBlock steps) then visitedList descend steps else []
  | list elements => list elements :: if descend (list elements) then visitedList descend elements else []
  | function parameters body =>
    function parameters body ::
      if descend (function parameters body) then visitedList descend parameters ++ visitedOption descend body else []
  | arithmetic left operator right =>
    arithmetic left operator right ::
      if descend (arithmetic left operator right) then visitedOption descend left ++ visitedOption descend right
      else []
  | chain head tails =>
    chain head tails ::
      if descend (chain head tails) then visitedOption descend head ++ visitedList descend tails else []
  | invoke content => invoke content :: if descend (invoke content) then visitedOption descend content else []
  | group elements => group elements :: if descend (group elements) then visitedList descend elements else []
  | wrapper inner => wrapper inner :: if descend (wrapper inner) then visitedOption descend inner else []
  | identifier name => [identifier name]
  | literal value => [literal value]
  | unhandled kind => [unhandled kind]
  | text t => [text t]
termination_by structural node => node

def visitedOption (descend : Node → Bool) : Option Node → List Node
  | none => []
  | some node => visited descend node
termination_by structural node => node

def visitedList (descend : Node → Bool) : List Node → List Node
  | [] => []
  | node :: nodes => visited descend node ++ visitedList descend nodes
termination_by structural nodes => nodes

end

/-- The name of an identifier node. -/
def identifierName? : Node → Option String
  | identifier name => name
  | _ => none

/-- The kind of a node without a rendering of its own. -/
def unhandledKind? : Node → Option String
  | unhandled kind => some kind
  | _ => none

/-- What a walk tells about a node. -/
inductive Event where
  | identifier (name : String)
  | unhandled (kind : String)
  /-- Whether the walk goes on below a node of the kind. -/
  | descend (kind : String) (answer : Bool)
  deriving DecidableEq, Repr

/-- What a walk tells at one node, before its children. -/
def eventsAt (descend : Node → Bool) (node : Node) : List Event :=
  (node.identifierName?.map Event.identifier).toList ++ (node.unhandledKind?.map Event.unhandled).toList ++
    [.descend node.kind (descend node)]

/-- What a walk tells, in order. -/
def events (descend : Node → Bool) (node : Node) : List Event :=
  (visited descend node).flatMap (eventsAt descend)

/-- The names of the identifiers reached through nodes that carry references, in the order of the walk. -/
def collectIdentifiers (node : Node) : List String :=
  (visited carriesReferences node).filterMap identifierName?

/-- The kinds without a rendering of their own in the tree, each once, in the order of the walk. -/
def unhandledKinds (node : Node) : List String :=
  Names.dedup ((visited (fun _ => true) node).filterMap unhandledKind?)

end Node

end QueryOutline
