import QueryOutline.FileSystem
import QueryOutline.Report
import QueryOutline.Toml.Reader

/-!
# Config files

A config file is a TOML document whose table `output` sets the width of indentation, the format, and whether unhandled
kinds are refused. Other keys are ignored, but they must hold values of sensible size.

* **Contents** (`Config.ofToml?`): missing keys have defaults; `output` may also be an array with the three values in
  order, or a date or time, which sets nothing.
* **Search** (`findConfig`): the first file of the right name in the start directory and its parents.
* **Loading** (`loadConfig`): a file that is named explicitly, or else the one that is found.
-/

namespace QueryOutline

structure Config where
  width : Nat
  format : OutputFormat
  denyUnhandled : Bool
  deriving DecidableEq, Repr

namespace Config

def default : Config := ⟨defaultWidth, .text, false⟩

mutual

/-- Whether all numbers of a value have a value, of a size that a reader takes. -/
def isReadable : Toml.Value → Bool
  | .integer (some n) => -(Nat.pow 2 127) ≤ n && n < Nat.pow 2 128
  | .integer none => false
  | .real inRange => inRange
  | .array items => areReadable items
  | .table fields => areReadableFields fields
  | .string _ => true
  | .bool _ => true
  | .moment => true
termination_by structural v => v

def areReadable : List Toml.Value → Bool
  | [] => true
  | v :: vs => isReadable v && areReadable vs
termination_by structural vs => vs

def areReadableFields : List (String × Toml.Value) → Bool
  | [] => true
  | (_, v) :: fs => isReadable v && areReadableFields fs
termination_by structural fs => fs

end

/-- A width: any natural number of 64 bits. -/
def width? : Toml.Value → Option Nat
  | .integer (some n) => if 0 ≤ n ∧ n < Nat.pow 2 64 then some n.toNat else none
  | _ => none

/-- A format: its name, or a table with its name as the only key and nothing in it. -/
def format? : Toml.Value → Option OutputFormat
  | .string name => OutputFormat.ofName? name
  | .table [(name, .table [])] => OutputFormat.ofName? name
  | .table [(name, .array [])] => OutputFormat.ofName? name
  | _ => none

def flag? : Toml.Value → Option Bool
  | .bool b => some b
  | _ => none

/-- The value read from what is given, or the default when nothing is. -/
def orDefault {α : Type} (read : Toml.Value → Option α) (fallback : α) : Option Toml.Value → Option α
  | some value => read value
  | none => some fallback

/-- The settings of the table `output`, or of an array in its place, of which only the first three values count. A date
or time in its place counts as a table without any of the keys. -/
def ofOutput? : Toml.Value → Option Config
  | .table fields => do
    let width ← orDefault width? default.width (fields.lookup "indent_width")
    let format ← orDefault format? default.format (fields.lookup "format")
    let denyUnhandled ← orDefault flag? default.denyUnhandled (fields.lookup "deny_unhandled")
    let others := fields.filter fun (key, _) => key ∉ ["indent_width", "format", "deny_unhandled"]
    if areReadableFields others then some ⟨width, format, denyUnhandled⟩ else none
  | .array items => do
    let width ← orDefault width? default.width items[0]?
    let format ← orDefault format? default.format items[1]?
    let denyUnhandled ← orDefault flag? default.denyUnhandled items[2]?
    some ⟨width, format, denyUnhandled⟩
  | .moment => some default
  | _ => none

/-- The settings of a document. -/
def ofToml? (fields : List (String × Toml.Value)) : Option Config :=
  if areReadableFields (fields.filter fun (key, _) => key ≠ "output") then
    orDefault ofOutput? default (fields.lookup "output")
  else none

end Config

/-- Why a config file cannot be used. -/
inductive ConfigError where
  | unreadable (path : FilePath) (cause : AccessError)
  /-- The text of the file holds no settings. -/
  | malformed (path : FilePath) (source : String)
  | refused (path : FilePath) (error : Error)
  deriving DecidableEq, Repr

namespace ConfigError

/-- The texts of the failure, the outermost first. What is wrong with a text that holds no settings is said by the
TOML reader. -/
def links (tomlFault : String → String) : ConfigError → List String
  | unreadable path cause => ["failed to read config file: " ++ path.text, cause.message]
  | malformed path source => ["failed to parse config file: " ++ path.text, tomlFault source]
  | refused path error => error.linksWithin ["in config file: " ++ path.text]

end ConfigError

/-- The name of config files. -/
def configFileName : String := "pq-outline.toml"

/-- The config file of the nearest directory that has one, from the start upwards. -/
def findConfig (files : FileSystem) (start : FilePath) : Option FilePath :=
  (start.ancestors.map (·.child configFileName)).find? files.isFile

/-- The settings of a config file; the width must be valid. -/
def loadConfigFile (files : FileSystem) (path : FilePath) : Except ConfigError Config := do
  let source ← (files.readText path).mapError (.unreadable path)
  match (Toml.read source).bind Config.ofToml? with
  | none => throw (.malformed path source)
  | some config => do
    let _ ← (checkWidth config.width).mapError (.refused path)
    return config

/-- The config file that applies, with its settings: the explicit one, or else the nearest one, if any. -/
def loadConfig (files : FileSystem) (explicit : Option FilePath) (start : FilePath) :
    Except ConfigError (Option (FilePath × Config)) := do
  match explicit.or (findConfig files start) with
  | none => return none
  | some path => return some (path, ← loadConfigFile files path)

end QueryOutline
