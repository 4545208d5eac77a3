import QueryOutline.FilePath

/-!
# File systems

A file system is a tree of directories and files with a working directory. Looking up a path goes from directory to
directory, so every piece before the last must name a directory, also before `..`.

* **Locations** (`FileSystem.locate`): the directory names from the root to what a path denotes.
* **Reading** (`FileSystem.readText`): the text of a file; bytes that are no UTF-8 are refused.
-/

namespace QueryOutline

/-- Why a path cannot be looked up or read. -/
inductive AccessError where
  | notFound
  | notADirectory
  | isADirectory
  | notUtf8
  /-- Any other refusal of the system, with its text. -/
  | refused (text : String)
  deriving DecidableEq, Repr

def AccessError.message : AccessError → String
  | notFound => "No such file or directory (os error 2)"
  | notADirectory => "Not a directory (os error 20)"
  | isADirectory => "Is a directory (os error 21)"
  | notUtf8 => "stream did not contain valid UTF-8"
  | refused text => text

/-- The text of bytes in UTF-8. -/
def decodeText (bytes : ByteArray) : Except AccessError String :=
  match String.fromUTF8? bytes with
  | some text => .ok text
  | none => .error .notUtf8

inductive Entry where
  | file (bytes : ByteArray)
  | directory (entries : List (String × Entry))

namespace Entry

/-- What the names lead to from an entry. -/
def at? : Entry → List String → Option Entry
  | entry, [] => some entry
  | .file _, _ :: _ => none
  | .directory entries, name :: names => (entries.lookup name).bind fun entry => entry.at? names
termination_by structural _ names => names

/-- Sets the entry under a name of a list of entries. -/
def put (name : String) (entry : Entry) : List (String × Entry) → List (String × Entry)
  | [] => [(name, entry)]
  | (n, e) :: rest => if n = name then (name, entry) :: rest else (n, e) :: put name entry rest

/-- The entry with another one placed below it; directories on the way are made. Of a directory that is placed where
one is already, the entries are added. -/
def place (placed : Entry) : List String → Option Entry → Entry
  | [], some (.directory entries) =>
    match placed with
    | .directory added => .directory (added.foldl (fun entries (name, entry) => put name entry entries) entries)
    | .file bytes => .file bytes
  | [], _ => placed
  | name :: names, some (.directory entries) =>
    .directory (put name (place placed names (entries.lookup name)) entries)
  | name :: names, _ => .directory [(name, place placed names none)]

end Entry

/-- The tree below the root and the names that lead to the working directory. -/
structure FileSystem where
  root : Entry
  workingDirectory : List String

namespace FileSystem

/-- The file system with nothing but a working directory. -/
def ofWorkingDirectory (names : List String) : FileSystem :=
  ⟨Entry.place (.directory []) names (some (.directory [])), names⟩

/-- The file system with an entry placed at a location. -/
def placeAt (files : FileSystem) (location : List String) (entry : Entry) : FileSystem :=
  { files with root := entry.place location (some files.root) }

/-- The file system with an entry placed below the working directory. -/
def place (files : FileSystem) (names : List String) (entry : Entry) : FileSystem :=
  files.placeAt (files.workingDirectory ++ names) entry

/-- The absolute path of the working directory. -/
def workingPath (files : FileSystem) : FilePath := .ofSpelling ⟨.root, files.workingDirectory⟩

/-- Goes on from a location by one piece of a path. -/
def step (files : FileSystem) (location : List String) (piece : String) : Except AccessError (List String) :=
  match files.root.at? location with
  | some (.directory entries) =>
    if FilePath.isVoid piece then .ok location
    else if piece = ".." then .ok location.dropLast
    else if (entries.lookup piece).isSome then .ok (location ++ [piece])
    else .error .notFound
  | some (.file _) => .error .notADirectory
  | none => .error .notFound

/-- The location that a path denotes. -/
def locate (files : FileSystem) (path : FilePath) : Except AccessError (List String) :=
  if path.text = "" then .error .notFound
  else
    let spelling := path.spelling
    let start := if spelling.start = .root then [] else files.workingDirectory
    spelling.pieces.foldlM files.step start

/-- What a path denotes. -/
def find (files : FileSystem) (path : FilePath) : Except AccessError Entry := do
  match files.root.at? (← files.locate path) with
  | some entry => return entry
  | none => throw .notFound

def isFile (files : FileSystem) (path : FilePath) : Bool :=
  match files.find path with
  | .ok (.file _) => true
  | _ => false

/-- The absolute path of the working directory, if there still is one. -/
def currentPath (files : FileSystem) : Except AccessError FilePath :=
  match files.find files.workingPath with
  | .ok (.directory _) => .ok files.workingPath
  | _ => .error .notFound

/-- The text of a file. -/
def readText (files : FileSystem) (path : FilePath) : Except AccessError String := do
  match ← files.find path with
  | .file bytes => decodeText bytes
  | .directory _ => throw .isADirectory

end FileSystem

end QueryOutline
