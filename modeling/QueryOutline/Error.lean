import QueryOutline.Json.Fault

/-!
# Why a document or a setting is refused

`Error.message` is the one place that words them. A failure seen from outside is a chain of texts (`chainText`), the
outermost circumstance first and the cause last.
-/

namespace QueryOutline

inductive Error where
  /-- The text is no JSON. -/
  | json (error : Json.SyntaxError)
  /-- The text is JSON but no tree. -/
  | notATree (detail : String)
  /-- A setting is out of range. -/
  | config (detail : String)
  | other (detail : String)
  deriving DecidableEq, Repr

namespace Error

def message : Error → String
  | json error => "invalid AST JSON: " ++ error.message
  | notATree detail => "input is not an AST: " ++ detail
  | config detail => "invalid configuration: " ++ detail
  | other detail => detail

/-- The error's text and, for a JSON error, the bare message of the reader behind it. -/
def links : Error → List String
  | json error => [(json error).message, error.message]
  | error => [error.message]

/-- The links with further circumstances around them, the last one outermost. -/
def linksWithin (error : Error) (contexts : List String) : List String := contexts.reverse ++ error.links

/-- The error that is left of a chain: its outermost text. -/
def ofLinks (links : List String) : Error := other (links.headD "")

end Error

/-- A chain of texts on one line, the outermost first. -/
def chainText (links : List String) : String := ": ".intercalate links

end QueryOutline
