/-!
# Kinds of nodes

The parser tells nodes apart by the name of their kind. `Kind.all` lists the kinds with a rendering of their own, and
`Kind.ofName?` finds a kind by its name.
-/

namespace QueryOutline

/-- A kind of node that has a rendering of its own. -/
inductive Kind where
  | step
  | letBlock
  | list
  | function
  | arithmetic
  | chain
  | invoke
  | group
  | identifier
  | literal
  | wrapper
  deriving DecidableEq, Repr

namespace Kind

/-- All kinds, in the order in which they are listed. -/
def all : List Kind :=
  [step, letBlock, list, function, arithmetic, chain, invoke, group, identifier, literal, wrapper]

/-- The parser's name of a kind. -/
def name : Kind → String
  | step => "IdentifierPairedExpression"
  | letBlock => "LetExpression"
  | list => "ListExpression"
  | function => "FunctionExpression"
  | arithmetic => "ArithmeticExpression"
  | chain => "RecursivePrimaryExpression"
  | invoke => "InvokeExpression"
  | group => "ArrayWrapper"
  | identifier => "IdentifierExpression"
  | literal => "LiteralExpression"
  | wrapper => "Csv"

/-- What nodes of a kind look like in the outline. -/
def rendering : Kind → String
  | step => "<key> = <value>, followed by the step's reference list"
  | letBlock => "Let, the nested steps, then In"
  | list => "List(<element>, ...)"
  | function => "Function(<parameter>, ...) => <body>"
  | arithmetic => "(<left> <operator> <right>)"
  | chain => "<head>(<tail>, ...)"
  | invoke => "Invoke(<content>)"
  | group => "<element>, <element>, ..."
  | identifier => "the identifier literal"
  | literal => "the literal's textual form"
  | wrapper => "the wrapped node, unchanged"

/-- The kind with the given name. -/
def ofName? (name : String) : Option Kind := all.find? fun kind => kind.name = name

end Kind

end QueryOutline
