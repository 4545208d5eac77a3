import QueryOutline.Dump

/-!
# The executable

It takes a picture of the files that the arguments name, runs the program on it and prints the outcome, without a log.
Under the name `dump_ast` it runs the dump program.
-/

namespace QueryOutline.Executable

/-- The absolute path of a location. -/
def pathText (location : List String) : String := (FilePath.ofSpelling ⟨.root, location⟩).text

/-- Everything below a path that the program may read. -/
partial def readTree (path : String) : IO Entry := do
  let here := (← IO.currentDir) / path
  if ← here.isDir then
    let names : List String := (← here.readDir).toList.map (·.fileName)
    let entries ← names.mapM fun (name : String) => do
      if name ∈ skippedDirectories ∧ (← (here / name).isDir) then return (name, Entry.directory [])
      else return (name, ← readTree (path ++ "/" ++ name))
    return .directory entries
  else if extension? (here.fileName.getD "") = some "json" then return .file (← IO.FS.readBinFile here)
  else return .file ByteArray.empty

/-- Adds what stands at a location: a file, or a directory with its config file. -/
def addPlace (files : FileSystem) (location : List String) : IO FileSystem := do
  let here := (← IO.currentDir) / pathText location
  if ← here.isDir then
    let files := files.placeAt location (.directory [])
    let config := here / configFileName
    if ← config.isDir then return files.placeAt (location ++ [configFileName]) (.directory [])
    else if ← config.pathExists then
      return files.placeAt (location ++ [configFileName]) (.file (← IO.FS.readBinFile config))
    else return files
  else if ← here.pathExists then return files.placeAt location (.file (← IO.FS.readBinFile here))
  else return files

/-- Adds all places that a path leads through. -/
def addPath (files : FileSystem) (path : FilePath) : IO FileSystem := do
  let spelling := path.spelling
  let mut files := files
  let mut location := if spelling.start = .root then [] else files.workingDirectory
  for piece in spelling.pieces do
    if !FilePath.isVoid piece then
      location := if piece = ".." then location.dropLast else location ++ [piece]
      files ← addPlace files location
  return files

/-- Adds the tree below an input path that leads to a directory. -/
def addTree (files : FileSystem) (path : FilePath) : IO FileSystem := do
  match files.locate path with
  | .ok location =>
    if ← ((← IO.currentDir) / pathText location).isDir then
      return files.placeAt location (← readTree (pathText location))
    else return files
  | .error _ => return files

/-- All bytes of a stream. -/
partial def readAll (stream : IO.FS.Stream) (bytes : ByteArray) : IO ByteArray := do
  let more ← stream.read 65536
  if more.isEmpty then return bytes else readAll stream (bytes ++ more)

/-- The paths that the arguments name as inputs, those they name as config files, and whether standard input is read. -/
def namedPaths (dumping : Bool) (arguments : List String) : List String × List String × Bool :=
  if dumping then ([], arguments, false)
  else match CommandLine.parse arguments with
    | .ok (.outline _ args) => (args.paths, args.config.toList, args.paths.isEmpty)
    | _ => ([], [], false)

end QueryOutline.Executable

open QueryOutline Executable in
def main (arguments : List String) : IO UInt32 := do
  let dumping := (← IO.appPath).fileName = some "dump_ast"
  let (inputs, others, readsInput) := namedPaths dumping arguments
  let working : FilePath := ⟨(← IO.currentDir).toString⟩
  let files := FileSystem.ofWorkingDirectory (working.spelling.pieces.filter (!FilePath.isVoid ·))
  let named := (working.text :: others ++ inputs).map FilePath.mk
  let files ← named.foldlM addPath files
  let files ← (inputs.map FilePath.mk).foldlM addTree files
  let files ← named.foldlM addPath files
  let input ← if readsInput then readAll (← IO.getStdin) ByteArray.empty else pure ByteArray.empty
  let environment : Environment := ⟨files, fun _ => .ok (), input, fun _ => "TOML parse error"⟩
  let outcome := if dumping then Dump.run environment arguments else QueryOutline.run environment arguments
  (← IO.getStdout).putStr outcome.output
  (← IO.getStderr).putStr outcome.errors
  return outcome.code.toUInt32
