import QueryOutline.FileSystem

/-!
# Collecting input files

A path that denotes a file is an input as it is. A path that denotes a directory stands for all files with the
extension `json` below it, except those inside directories whose names are skipped. The inputs are in the order of
paths, each once (`collectInputs`). On the way, all other directories are entered (`enteredDirectories`).
-/

namespace QueryOutline

/-- The names of directories that are not entered. -/
def skippedDirectories : List String := [".git", "node_modules", "target"]

/-- The input files below a directory with the given path and entries. -/
def inputsBelow (path : FilePath) : List (String × Entry) → List FilePath
  | [] => []
  | (name, .file _) :: rest =>
    (if extension? name = some "json" then [path.child name] else []) ++ inputsBelow path rest
  | (name, .directory entries) :: rest =>
    (if name ∈ skippedDirectories then [] else inputsBelow (path.child name) entries) ++ inputsBelow path rest

mutual

/-- The directories that are entered for a path that denotes the entry, each before those in it. -/
def directoriesFrom (path : FilePath) : Entry → List FilePath
  | .file _ => []
  | .directory entries => path :: directoriesAmong path entries
termination_by structural entry => entry

/-- The directories that are entered among the entries of a directory with the given path. -/
def directoriesAmong (path : FilePath) : List (String × Entry) → List FilePath
  | [] => []
  | (name, entry) :: rest =>
    (if name ∈ skippedDirectories then [] else directoriesFrom (path.child name) entry) ++ directoriesAmong path rest
termination_by structural entries => entries

end

/-- The directories that are entered for the paths, one path after the other up to the first that cannot be looked
up. -/
def enteredDirectories (files : FileSystem) : List FilePath → List FilePath
  | [] => []
  | path :: rest =>
    match files.find path with
    | .ok entry => directoriesFrom path entry ++ enteredDirectories files rest
    | .error _ => []

/-- The input files of one path. -/
def inputsOf (files : FileSystem) (path : FilePath) : Except AccessError (List FilePath) := do
  match ← files.find path with
  | .file _ => return [path]
  | .directory entries => return inputsBelow path entries

/-- The input files of all paths; for the first path that cannot be looked up, that path and the reason. -/
def collectInputs (files : FileSystem) (paths : List FilePath) :
    Except (FilePath × AccessError) (List FilePath) := do
  let inputs ← paths.mapM fun path => (inputsOf files path).mapError fun error => (path, error)
  return FilePath.sorted inputs.flatten

end QueryOutline
