import QueryOutline.Report
import QueryOutline.Text.Visible

/-!
# Command lines

The words of a command line are options, flags, paths, and the separator `--`, after which every word is a path. The
first word may name a subcommand.

* **Words** (`Word.ofText`): long options, with or without `=value`, clusters of short flags, everything else plain.
* **Pending values** (`Pending`): an option waits for the next plain word, and its value is judged only when the next
  option or flag, a path or the end follows. So an unknown option is reported before a bad value in front of it.
* **Commands** (`parse`): outlining, which is also meant when no subcommand is named, and the list of kinds.
-/

namespace QueryOutline

/-- What to outline and how; what is not given is left to the config file. -/
structure OutlineArgs where
  paths : List String
  format : Option OutputFormat
  indent : Option Nat
  config : Option String
  denyUnhandled : Bool
  deriving DecidableEq, Repr

def OutlineArgs.none : OutlineArgs := ⟨[], .none, .none, .none, false⟩

namespace CommandLine

inductive Command where
  | outline (named : Bool) (args : OutlineArgs)
  | kinds
  deriving DecidableEq, Repr

/-- An option that takes a value. -/
inductive ValueOption where
  | format
  | indent
  | config
  deriving DecidableEq, Repr

def ValueOption.name : ValueOption → String
  | format => "format"
  | indent => "indent"
  | config => "config"

def ValueOption.ofName? (name : String) : Option ValueOption :=
  [format, indent, config].find? fun option => option.name = name

/-- The option as it is shown to the user. -/
def ValueOption.shown : ValueOption → String
  | format => "--format <FORMAT>"
  | indent => "--indent <N>"
  | config => "--config <FILE>"

/-- What takes the value that is missing. -/
inductive Taker where
  | option (option : ValueOption)
  | path
  deriving DecidableEq, Repr

def Taker.shown : Taker → String
  | option o => o.shown
  | path => "[PATH]..."

/-- Why a text is no number of 64 bits. -/
inductive NumberFault where
  | empty
  | invalidDigit
  | tooLarge
  deriving DecidableEq, Repr

def NumberFault.message : NumberFault → String
  | empty => "cannot parse integer from empty string"
  | invalidDigit => "invalid digit found in string"
  | tooLarge => "number too large to fit in target type"

/-- What ends the parsing of a command line without a command. -/
inductive Stop where
  | help
  | version
  | unknownSubcommand (name : String)
  | unknownArgument (argument : String)
  | missingValue (taker : Taker)
  | invalidFormat (value : String)
  | invalidIndent (value : String) (fault : NumberFault)
  | repeated (shown : String)
  | unneededValue (value : String) (flag : String)
  deriving DecidableEq, Repr

/-- The text for the user; asking for help or the version is no error. What the user typed is shown without terminal
control. -/
def Stop.message? : Stop → Option String
  | help => .none
  | version => .none
  | unknownSubcommand name => some ("error: unrecognized subcommand '" ++ visible name ++ "'")
  | unknownArgument argument => some ("error: unexpected argument '" ++ visible argument ++ "' found")
  | missingValue taker => some ("error: a value is required for '" ++ taker.shown ++ "' but none was supplied")
  | invalidFormat value => some ("error: invalid value '" ++ visible value ++ "' for '--format <FORMAT>'")
  | invalidIndent value fault =>
    some ("error: invalid value '" ++ visible value ++ "' for '--indent <N>': " ++ fault.message)
  | repeated shown => some ("error: the argument '" ++ shown ++ "' cannot be used multiple times")
  | unneededValue value flag =>
    some ("error: unexpected value '" ++ visible value ++ "' for '" ++ flag ++ "' found; no more were expected")

/-! ## Words -/

inductive Word where
  | separator
  | long (name : String) (value : Option String)
  /-- Short flags in one word; only the first one matters. -/
  | short (flag : Char)
  | plain (text : String)
  deriving DecidableEq, Repr

def Word.ofText (text : String) : Word :=
  match text.toList with
  | ['-', '-'] => .separator
  | '-' :: '-' :: rest =>
    let name := rest.takeWhile (· ≠ '=')
    match rest.dropWhile (· ≠ '=') with
    | _ :: value => .long (String.ofList name) (some (String.ofList value))
    | [] => .long (String.ofList name) .none
  | '-' :: flag :: _ => .short flag
  | _ => .plain text

/-! ## Values -/

/-- Appends decimal digits to a number; the first character that is no digit or no longer fits stops it. -/
def readDigits : Nat → List Char → Except NumberFault Nat
  | n, [] => .ok n
  | n, c :: rest =>
    if !c.isDigit then .error .invalidDigit
    else
      let next := n * 10 + (c.toNat - '0'.toNat)
      if Nat.pow 2 64 ≤ next then .error .tooLarge else readDigits next rest

/-- A number of 64 bits, perhaps after a plus sign. -/
def readNumber (text : String) : Except NumberFault Nat :=
  match text.toList with
  | [] => .error .empty
  | '+' :: c :: rest => readDigits 0 (c :: rest)
  | digits => readDigits 0 digits

/-- The arguments with the value of an option added. -/
def setValue (args : OutlineArgs) (option : ValueOption) (value : String) : Except Stop OutlineArgs :=
  match option with
  | .format =>
    if args.format.isSome then .error (.repeated option.shown)
    else if value = "" then .error (.missingValue (.option option))
    else match OutputFormat.ofName? value with
      | some format => .ok { args with format := some format }
      | .none => .error (.invalidFormat value)
  | .indent =>
    if args.indent.isSome then .error (.repeated option.shown)
    else match readNumber value with
      | .ok n => .ok { args with indent := some n }
      | .error fault => .error (.invalidIndent value fault)
  | .config =>
    if args.config.isSome then .error (.repeated option.shown)
    else if value = "" then .error (.missingValue (.option option))
    else .ok { args with config := some value }

/-- The arguments with paths added. -/
def addPaths (args : OutlineArgs) (paths : List String) : Except Stop OutlineArgs :=
  if "" ∈ paths then .error (.missingValue .path) else .ok { args with paths := args.paths ++ paths }

/-! ## Parsing -/

/-- What has been read but not judged yet. -/
inductive Pending where
  | nothing
  /-- An option whose value has not come. -/
  | awaiting (option : ValueOption)
  | value (option : ValueOption) (value : String)
  | paths (paths : List String)
  deriving DecidableEq, Repr

structure State where
  args : OutlineArgs
  pending : Pending
  deriving DecidableEq, Repr

def State.start : State := ⟨.none, .nothing⟩

/-- Judges what is pending. -/
def State.settle (state : State) : Except Stop OutlineArgs :=
  match state.pending with
  | .nothing => .ok state.args
  | .awaiting option => .error (.missingValue (.option option))
  | .value option value => setValue state.args option value
  | .paths paths => addPaths state.args paths

/-- The state after a path. -/
def State.addPath (state : State) (path : String) : Except Stop State :=
  match state.pending with
  | .paths paths => .ok { state with pending := .paths (paths ++ [path]) }
  | _ => do return ⟨← state.settle, .paths [path]⟩

/-- The state after a plain word: the value that an option awaits, or a path. -/
def State.addPlain (state : State) (text : String) : Except Stop State :=
  match state.pending with
  | .awaiting option => .ok { state with pending := .value option text }
  | _ => state.addPath text

/-- Flags that take no value and are known to the outline command. -/
def isFlag (versioned : Bool) (name : String) : Bool :=
  name = "deny-unhandled" || name = "help" || (versioned && name = "version")

/-- The state after a flag. -/
def State.addFlag (state : State) (name : String) : Except Stop State := do
  let args ← state.settle
  if name = "help" then throw .help
  else if name = "version" then throw .version
  else if args.denyUnhandled then throw (.repeated "--deny-unhandled")
  else return ⟨{ args with denyUnhandled := true }, .nothing⟩

/-- The state after a word before the separator. -/
def State.addWord (versioned : Bool) (state : State) : Word → Except Stop State
  | .separator => .ok state
  | .plain text => state.addPlain text
  | .short flag =>
    if flag = 'h' then state.addFlag "help"
    else if versioned && flag = 'V' then state.addFlag "version"
    else .error (.unknownArgument (String.ofList ['-', flag]))
  | .long name value =>
    match ValueOption.ofName? name with
    | some option => do
      let args ← state.settle
      match value with
      | some value => return ⟨← setValue args option value, .nothing⟩
      | .none => return ⟨args, .awaiting option⟩
    | .none =>
      if isFlag versioned name then
        match value with
        | some value => .error (.unneededValue value ("--" ++ name))
        | .none => state.addFlag name
      else .error (.unknownArgument ("--" ++ name))

/-- The arguments of the outline command; it knows the flag for the version only when no subcommand is named. -/
def parseOutline (versioned : Bool) (state : State) : List String → Except Stop OutlineArgs
  | [] => state.settle
  | text :: rest =>
    match Word.ofText text with
    | .separator => do
      let state ← rest.foldlM State.addPath state
      state.settle
    | word => do parseOutline versioned (← state.addWord versioned word) rest

/-- The command that lists the kinds takes no arguments. -/
def parseKinds : List String → Except Stop Command
  | [] => .ok .kinds
  | text :: rest =>
    match Word.ofText text with
    | .separator =>
      match rest with
      | [] => .ok .kinds
      | path :: _ => .error (.unknownArgument path)
    | .plain text => .error (.unknownArgument text)
    | .short flag => .error (if flag = 'h' then .help else .unknownArgument (String.ofList ['-', flag]))
    | .long name value =>
      if name = "help" then .error ((value.map (Stop.unneededValue · "--help")).getD .help)
      else .error (.unknownArgument ("--" ++ name))

/-- The names of the subcommands. -/
def subcommands : List String := ["outline", "kinds", "help"]

/-- Help about a subcommand; the subcommands have none of their own. -/
def parseHelp : List String → Stop
  | [] => .help
  | [name] => if name ∈ subcommands then .help else .unknownSubcommand name
  | name :: second :: _ => if name ∈ subcommands then .unknownSubcommand second else .unknownSubcommand name

/-- The command that the arguments of the program ask for. -/
def parse : List String → Except Stop Command
  | "outline" :: rest => (parseOutline false .start rest).map (.outline true)
  | "kinds" :: rest => parseKinds rest
  | "help" :: rest => .error (parseHelp rest)
  | arguments => (parseOutline true .start arguments).map (.outline false)

end CommandLine

end QueryOutline
