/-!
# Paths as they are written

A path is a text; slashes divide it into pieces. Empty pieces and pieces `.` name nothing, except that a leading slash
starts at the root and a leading `.` counts as a component of its own.

* **Components** (`components`) are what a path consists of; paths are ordered by them (`before`, `alike`).
* **Parents** (`parent?`, `ancestors`) are found in the text alone: the last component is cut off, and what is left
  keeps its spelling.
* **Entries** (`child`): a name below a path.
-/

namespace QueryOutline

structure FilePath where
  text : String
  deriving DecidableEq, Repr

/-- The pieces of a text between slashes. -/
def splitSlashes : List Char → List (List Char)
  | [] => [[]]
  | c :: rest =>
    if c = '/' then [] :: splitSlashes rest
    else match splitSlashes rest with
      | [] => [[c]]
      | piece :: pieces => (c :: piece) :: pieces

namespace FilePath

/-- Where a path starts: at the root, visibly or silently in the working directory. -/
inductive Start where
  | root
  | here
  | silent
  deriving DecidableEq, Repr

/-- The start of a path and its further pieces. -/
structure Spelling where
  start : Start
  pieces : List String
  deriving DecidableEq, Repr

def spelling (path : FilePath) : Spelling :=
  match (splitSlashes path.text.toList).map String.ofList with
  | "" :: piece :: pieces => ⟨.root, piece :: pieces⟩
  | "." :: pieces => ⟨.here, pieces⟩
  | pieces => ⟨.silent, pieces⟩

/-- The path with a spelling. -/
def ofSpelling (spelling : Spelling) : FilePath :=
  let rest := "/".intercalate spelling.pieces
  match spelling.start with
  | .root => ⟨"/" ++ rest⟩
  | .here => ⟨if spelling.pieces.isEmpty then "." else "./" ++ rest⟩
  | .silent => ⟨rest⟩

/-- Whether a piece names nothing. -/
def isVoid (piece : String) : Bool := piece = "" || piece = "."

/-! ## Components and order -/

inductive Component where
  | root
  | here
  | up
  | name (name : String)
  deriving DecidableEq, Repr

/-- The component of a piece that names something. -/
def Component.ofPiece (piece : String) : Component := if piece = ".." then .up else .name piece

def components (path : FilePath) : List Component :=
  let spelling := path.spelling
  let first := match spelling.start with
    | .root => [Component.root]
    | .here => [Component.here]
    | .silent => []
  first ++ (spelling.pieces.filter (!isVoid ·)).map Component.ofPiece

/-- The order of components: the root, the working directory, the parent, then names by their characters. -/
def Component.before : Component → Component → Bool
  | .root, .root => false
  | .root, _ => true
  | .here, .up => true
  | .here, .name _ => true
  | .up, .name _ => true
  | .name a, .name b => a < b
  | _, _ => false

/-- The order of paths, component by component. -/
def componentsBefore : List Component → List Component → Bool
  | [], [] => false
  | [], _ :: _ => true
  | _ :: _, [] => false
  | a :: as, b :: bs => a.before b || (a = b && componentsBefore as bs)

def before (a b : FilePath) : Bool := componentsBefore a.components b.components

/-- Whether two paths have the same components. -/
def alike (a b : FilePath) : Bool := a.components = b.components

/-- Adds a path to a list in increasing order; it takes the place of a path alike. -/
def insert (path : FilePath) : List FilePath → List FilePath
  | [] => [path]
  | p :: rest =>
    if path.before p then path :: p :: rest
    else if path.alike p then path :: rest
    else p :: insert path rest

/-- The paths in increasing order; of paths that are alike the first one is kept. -/
def sorted (paths : List FilePath) : List FilePath := paths.foldr insert []

/-! ## Parents and entries -/

/-- The pieces without those at the end that name nothing. -/
def trimPieces (pieces : List String) : List String := (pieces.reverse.dropWhile isVoid).reverse

/-- The path without its last component. -/
def parent? (path : FilePath) : Option FilePath :=
  let spelling := path.spelling
  match spelling.start, trimPieces spelling.pieces with
  | .here, [] => some ⟨""⟩
  | _, [] => none
  | start, pieces => some (ofSpelling ⟨start, trimPieces pieces.dropLast⟩)

/-- The path and its parents, up to the given number of paths. -/
def ancestorsUpTo : Nat → FilePath → List FilePath
  | 0, _ => []
  | bound + 1, path => path :: match path.parent? with
    | some parent => ancestorsUpTo bound parent
    | none => []

/-- The path, its parent, the parent of that, and so on. A parent's text is shorter, so the text's length bounds
their number. -/
def ancestors (path : FilePath) : List FilePath := ancestorsUpTo (path.text.length + 1) path

/-- The path of an entry of a directory. -/
def child (directory : FilePath) (name : String) : FilePath :=
  if directory.text = "" ∨ directory.text.toList.getLast? = some '/' then ⟨directory.text ++ name⟩
  else ⟨directory.text ++ "/" ++ name⟩

end FilePath

/-- What follows the last dot of a file's name; a dot at its front does not count. -/
def extension? (name : String) : Option String :=
  let back := name.toList.reverse
  let extension := (back.takeWhile (· ≠ '.')).reverse
  match back.dropWhile (· ≠ '.') with
  | '.' :: _ :: _ => some (String.ofList extension)
  | _ => none

end QueryOutline
