import QueryOutline.CommandLine
import QueryOutline.Config
import QueryOutline.Inputs

/-!
# The outline program

A run gets its arguments, the file system and the bytes of standard input, and gives an exit code and two texts.

* **Settings** (`resolveSettings`): flags over the config file over the defaults; the config file is judged first.
* **Inputs** (`readInputs`): standard input, or the collected files; all are read before any is loaded.
* **Loading** (`loadInputs`): one input after the other, with what is told to the log on the way.
* **Output** (`showReports`): one text or one JSON array; nothing is shown unless every input is loaded.
* **Exit codes**: 2 for a failure, 1 when unhandled kinds are refused and some input has one, 0 otherwise.

Left out are the lines of the log (the events are kept), rights to look up or read what is there, links between files,
and failures to write.
-/

namespace QueryOutline

/-- What a run depends on besides its arguments. -/
structure Environment where
  files : FileSystem
  /-- Whether a directory that is there can be listed, or why not. -/
  listing : FilePath → Except AccessError Unit
  input : ByteArray
  /-- What the TOML reader says of a text that it refuses. -/
  tomlFault : String → String

/-- What is told to the log. Which events are written there, and in which words, is up to the log. -/
inductive LogEvent where
  /-- The references between the steps of a document are known; its steps declare so many names. -/
  | references (names : Nat)
  /-- A kind is rendered as unhandled. -/
  | unhandled (kind : String)
  deriving DecidableEq, Repr

/-- How a run ends. The log is written to standard error as well, in front of the errors. -/
structure Outcome where
  code : Nat
  output : String
  errors : String
  log : List LogEvent
  deriving DecidableEq, Repr

/-- Why outlining fails. -/
inductive Failure where
  | workingDirectory (cause : AccessError)
  | config (error : ConfigError)
  | setting (error : Error)
  | lookup (path : FilePath) (cause : AccessError)
  | listing (directory : FilePath) (cause : AccessError)
  | read (path : FilePath) (cause : AccessError)
  | input (cause : AccessError)
  | load (file : String) (error : Error)
  deriving DecidableEq, Repr

/-- The texts of a failure, the outermost first. -/
def Failure.links (tomlFault : String → String) : Failure → List String
  | workingDirectory cause => [cause.message]
  | config error => error.links tomlFault
  | setting error => error.links
  | lookup path cause => ["failed to stat " ++ path.text, cause.message]
  | listing _ cause => [cause.message]
  | read path cause => ["failed to read " ++ path.text, cause.message]
  | input cause => [cause.message]
  | load file error => error.linksWithin ["failed to load AST from " ++ file]

/-! ## Settings -/

structure Settings where
  format : OutputFormat
  width : Nat
  denyUnhandled : Bool
  deriving DecidableEq, Repr

/-- Where the search for a config file starts: at the first path, or the directory of that file, or the working
directory. -/
def startDirectory (files : FileSystem) (args : OutlineArgs) : FilePath :=
  let base := match args.paths with
    | path :: _ => ⟨path⟩
    | [] => files.workingPath
  if files.isFile base then base.parent?.getD ⟨"."⟩ else base

/-- Without a path, the working directory has to be known. -/
def checkWorkingDirectory (files : FileSystem) (args : OutlineArgs) : Except Failure Unit := do
  match args.paths with
  | [] =>
    let _ ← files.currentPath.mapError .workingDirectory
    return ()
  | _ :: _ => return ()

/-- The settings of a run, for which a start in the working directory has been checked (`checkWorkingDirectory`). -/
def resolveSettings (files : FileSystem) (args : OutlineArgs) : Except Failure Settings := do
  let loaded ← (loadConfig files (args.config.map FilePath.mk) (startDirectory files args)).mapError .config
  let config := (loaded.map Prod.snd).getD Config.default
  let width ← match args.indent with
    | some width => (checkWidth width).mapError .setting
    | none => pure config.width
  return ⟨args.format.getD config.format, width, args.denyUnhandled || config.denyUnhandled⟩

/-! ## Inputs -/

/-- A source text with the name of its file. -/
structure Source where
  file : String
  text : String
  deriving DecidableEq, Repr

/-- The source texts: standard input when no path is given, or else all collected files, for which the directories on
the way must be listed. -/
def readInputs (environment : Environment) (args : OutlineArgs) : Except Failure (List Source) :=
  match args.paths with
  | [] => do return [⟨"stdin", ← (decodeText environment.input).mapError .input⟩]
  | paths => do
    let paths := paths.map FilePath.mk
    let _ ← (enteredDirectories environment.files paths).mapM fun directory =>
      (environment.listing directory).mapError (.listing directory)
    let files ← (collectInputs environment.files paths).mapError fun (path, cause) => .lookup path cause
    files.mapM fun path => do
      return ⟨path.text, ← (environment.files.readText path).mapError (.read path)⟩

/-- The outline of a source text with the given width. -/
def loadOutline (width : Nat) (source : Source) : Except Failure Outline := do
  let outline ← (Outline.ofSource source.text).mapError (.load source.file)
  (outline.withWidth width).mapError .setting

/-- A loaded input: the text of its outline and its report. -/
structure Loaded where
  text : String
  report : FileReport
  deriving DecidableEq, Repr

def Loaded.ofOutline (file : String) (outline : Outline) : Loaded :=
  ⟨outline.text, FileReport.ofOutline file outline⟩

/-- What is told to the log while an outline is made and scanned. -/
def Outline.events (outline : Outline) : List LogEvent :=
  .references outline.document.stepNames.length :: outline.unhandledKinds.map .unhandled

/-- The inputs, loaded one after the other up to the first that cannot be, with what is told to the log. -/
def loadInputs (load : Source → Except Failure Outline) : List Source → List LogEvent × Except Failure (List Loaded)
  | [] => ([], .ok [])
  | source :: rest =>
    match load source with
    | .error failure => ([], .error failure)
    | .ok outline =>
      let (later, loaded) := loadInputs load rest
      (outline.events ++ later, loaded.map (Loaded.ofOutline source.file outline :: ·))

/-! ## Output -/

/-- What is shown of the loaded inputs. In text, several inputs are told apart by headings. -/
def showReports (format : OutputFormat) (loaded : List Loaded) : String :=
  match format with
  | .json => Json.pretty (.array (loaded.map fun input => input.report.toJson)) ++ "\n"
  | .text =>
    String.join (loaded.map fun input =>
      (if 1 < loaded.length then "# " ++ input.report.file ++ "\n" else "") ++ input.text ++ "\n")

/-- The complaints about unhandled kinds, a line for each kind of each input. -/
def complaints (loaded : List Loaded) : List String :=
  loaded.flatMap fun input =>
    input.report.unhandledKinds.map fun kind => input.report.file ++ ": unhandled node kind: " ++ kind ++ "\n"

/-- The end of a run that has loaded all inputs. -/
def Outcome.ofLoaded (settings : Settings) (log : List LogEvent) (loaded : List Loaded) : Outcome :=
  let refused := if settings.denyUnhandled then complaints loaded else []
  ⟨if refused.isEmpty then 0 else 1, showReports settings.format loaded, String.join refused, log⟩

/-- The end of a run that fails: it shows the chain of texts and nothing else. -/
def Outcome.ofFailure (environment : Environment) (log : List LogEvent) (failure : Failure) : Outcome :=
  ⟨2, "", chainText (failure.links environment.tomlFault) ++ "\n", log⟩

/-- Everything that is done before the first input is loaded. -/
def prepare (environment : Environment) (args : OutlineArgs) : Except Failure (Settings × List Source) := do
  checkWorkingDirectory environment.files args
  let settings ← resolveSettings environment.files args
  return (settings, ← readInputs environment args)

/-- The outline command. -/
def runOutline (environment : Environment) (args : OutlineArgs) : Outcome :=
  match prepare environment args with
  | .error failure => .ofFailure environment [] failure
  | .ok (settings, sources) =>
    match loadInputs (loadOutline settings.width) sources with
    | (log, .error failure) => .ofFailure environment log failure
    | (log, .ok loaded) => .ofLoaded settings log loaded

/-- The list of kinds. -/
def kindsText : String := String.join (Kind.all.map fun kind => kind.name ++ "\t" ++ kind.rendering ++ "\n")

def versionText : String := "pq-outline 0.1.0\n"

def helpText : String :=
  "Outline Power Query let-expression ASTs with per-step references\n\n" ++
  "Usage: pq-outline [OPTIONS] [PATH]...\n" ++
  "       pq-outline <COMMAND>\n\n" ++
  "Commands:\n" ++
  "  outline  Outline AST files or directories\n" ++
  "  kinds    List the node kinds with a dedicated rendering\n" ++
  "  help     Print this message or the help of the given subcommand(s)\n\n" ++
  "Arguments:\n" ++
  "  [PATH]...  AST JSON files/directories. Defaults to stdin when absent\n\n" ++
  "Options:\n" ++
  "      --format <FORMAT>  Output format. Overrides the config file [possible values: text, json]\n" ++
  "      --indent <N>       Spaces per nesting level. Overrides the config file\n" ++
  "      --config <FILE>    Path to a pq-outline.toml. Discovered from the first PATH when absent\n" ++
  "      --deny-unhandled   Exit with code 1 if any node kind was rendered as unhandled\n" ++
  "  -h, --help             Print help\n" ++
  "  -V, --version          Print version\n"

/-- A run of the program with the arguments after its name. -/
def run (environment : Environment) (arguments : List String) : Outcome :=
  match CommandLine.parse arguments with
  | .ok (.outline _ args) => runOutline environment args
  | .ok .kinds => ⟨0, kindsText, "", []⟩
  | .error .help => ⟨0, helpText, "", []⟩
  | .error .version => ⟨0, versionText, "", []⟩
  | .error stop => ⟨2, "", (stop.message?.getD "") ++ "\n", []⟩

end QueryOutline
