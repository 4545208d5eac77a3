import QueryOutline.Proofs.Program.Loading

/-!
# What a failure says

A failure is told by a chain of texts. The first names the path or file that the failure is about, if it is about one,
and the last is the cause.

* **Errors** (`Error.ofLinks_linksWithin`): what is left of an error when only its chain is known.
* **Chains** (`Failure.Explained`): the texts of each failure.
* **Names and causes** (`Failure.Explained.names`, `Failure.Explained.ends`): what every chain begins and ends with.
* **Runs** (`Fails.explained`): every failure of the outline command is told by such a chain.
-/

namespace QueryOutline

/-- The text about a width that is not accepted. -/
def widthText (width : Nat) : String :=
  "invalid configuration: " ++ ("indent_width must be between 1 and 8, got " ++ String.ofList (Nat.toDigits 10 width))

/-- What stands where a tree should: a value that is neither an array nor an object. -/
def scalarNames : List String := ["null", "a boolean", "a number", "a string"]

/-! ## Errors -/

/-- An error made of the chain of another has its outermost text: the last circumstance around the other, or the other's
own text. -/
theorem Error.ofLinks_linksWithin (error : Error) (contexts : List String) :
    ofLinks (error.linksWithin contexts) = other (contexts.getLast?.getD error.message) := by
  have hhead : error.links.head? = some error.message := by cases error <;> rfl
  rw [ofLinks, linksWithin, List.headD_eq_head?_getD, List.head?_append, List.head?_reverse, hhead, Option.getD_or,
    Option.getD_some]

/-! ## Chains -/

namespace Failure

/-- The texts that tell a failure, the outermost first. What is wrong with a config file that holds no settings is said
by the TOML reader. -/
inductive Explained (tomlFault : String → String) : Failure → List String → Prop where
  | workingDirectory (cause : AccessError) : Explained tomlFault (.workingDirectory cause) [cause.message]
  | unreadableConfig (path : FilePath) (cause : AccessError) :
    Explained tomlFault (.config (.unreadable path cause))
      ["failed to read config file: " ++ path.text, cause.message]
  | malformedConfig (path : FilePath) (source : String) :
    Explained tomlFault (.config (.malformed path source))
      ["failed to parse config file: " ++ path.text, tomlFault source]
  | refusedConfig (path : FilePath) {width : Nat} (hwidth : ¬(1 ≤ width ∧ width ≤ 8)) :
    Explained tomlFault (.config (.refused path (widthError width))) ["in config file: " ++ path.text, widthText width]
  | setting {width : Nat} (hwidth : ¬(1 ≤ width ∧ width ≤ 8)) :
    Explained tomlFault (.setting (widthError width)) [widthText width]
  | listing (directory : FilePath) (cause : AccessError) :
    Explained tomlFault (.listing directory cause) [cause.message]
  | lookup (path : FilePath) (cause : AccessError) :
    Explained tomlFault (.lookup path cause) ["failed to stat " ++ path.text, cause.message]
  | read (path : FilePath) (cause : AccessError) :
    Explained tomlFault (.read path cause) ["failed to read " ++ path.text, cause.message]
  | input (cause : AccessError) : Explained tomlFault (.input cause) [cause.message]
  | json (file : String) (error : Json.SyntaxError) :
    Explained tomlFault (.load file (.json error))
      ["failed to load AST from " ++ file, "invalid AST JSON: " ++ error.message, error.message]
  | notATree (file : String) {name : String} (hname : name ∈ scalarNames) :
    Explained tomlFault (.load file (.notATree ("expected a JSON object or array at the top level, found " ++ name)))
      ["failed to load AST from " ++ file,
        "input is not an AST: " ++ ("expected a JSON object or array at the top level, found " ++ name)]

/-! ## Names and causes -/

/-- The path or file that a failure is about. A refused listing does not tell its directory. -/
def subject? : Failure → Option String
  | config (.unreadable path _) => some path.text
  | config (.malformed path _) => some path.text
  | config (.refused path _) => some path.text
  | lookup path _ => some path.text
  | read path _ => some path.text
  | load file _ => some file
  | _ => none

/-- What the parts of the program that report failures say of it. -/
def cause (tomlFault : String → String) : Failure → String
  | workingDirectory cause => cause.message
  | config (.unreadable _ cause) => cause.message
  | config (.malformed _ source) => tomlFault source
  | config (.refused _ error) => error.message
  | setting error => error.message
  | lookup _ cause => cause.message
  | listing _ cause => cause.message
  | read _ cause => cause.message
  | input cause => cause.message
  | load _ (.json error) => error.message
  | load _ error => error.message

end Failure

namespace Failure.Explained

variable {tomlFault : String → String} {failure : Failure} {links : List String}

/-- The first text of a chain ends with the path or file that the failure is about. -/
theorem names (h : failure.Explained tomlFault links) {name : String} (hname : failure.subject? = some name) :
    ∃ circumstance, links.head? = some (circumstance ++ name) := by
  cases h <;> cases hname <;> exact ⟨_, rfl⟩

/-- The last text of a chain is the cause. -/
theorem ends (h : failure.Explained tomlFault links) : links.getLast? = some (failure.cause tomlFault) := by
  cases h <;> rfl

end Failure.Explained

/-! ## Runs -/

variable {tomlFault : String → String} {environment : Environment} {args : OutlineArgs} {failure : Failure}

theorem explained_misconfigures {files : FileSystem} {path : FilePath} {error : ConfigError}
    (h : Misconfigures files path error) :
    (Failure.config error).Explained tomlFault (Failure.links tomlFault (.config error)) := by
  cases h with
  | unreadable hread => exact .unreadableConfig path _
  | malformed hread hcontents => exact .malformedConfig path _
  | refused hread hcontents hwidth => exact .refusedConfig path hwidth

/-- A source that holds no document is no JSON, or it is a scalar. -/
theorem readDocument_eq_error {source : String} {error : Error} (h : readDocument source = .error error) :
    (∃ fault, error = .json fault) ∨
      ∃ name ∈ scalarNames, error = .notATree ("expected a JSON object or array at the top level, found " ++ name) := by
  obtain h | ⟨value, _, h⟩ := bind_eq_error_iff.1 h
  · obtain ⟨fault, _, rfl⟩ := mapError_eq_error_iff.1 h
    exact .inl ⟨fault, rfl⟩
  · cases value with
    | array items => cases h
    | object fields => cases h
    | _ =>
      cases h
      exact .inr ⟨_, by simp [describe, scalarNames], rfl⟩

theorem explained_load (file : String) {source : String} {error : Error} (h : readDocument source = .error error) :
    (Failure.load file error).Explained tomlFault (Failure.links tomlFault (.load file error)) := by
  obtain ⟨fault, rfl⟩ | ⟨name, hname, rfl⟩ := readDocument_eq_error h
  · exact .json file fault
  · exact .notATree file hname

theorem Unprepared.explained (h : Unprepared environment args failure) :
    failure.Explained tomlFault (failure.links tomlFault) := by
  cases h with
  | working hpaths hworking => exact .workingDirectory _
  | settings hworking hsettings =>
    obtain ⟨path, error, _, herror, rfl⟩ | ⟨_, width, _, hwidth, rfl⟩ := resolveSettings_eq_error_iff.1 hsettings
    · exact explained_misconfigures herror
    · exact .setting hwidth
  | sources hworking hsettings hsources =>
    cases hsources with
    | input hpaths htext => exact .input _
    | listing hpaths hfirst => exact .listing _ _
    | lookup hpaths hlisted hfirst => exact .lookup _ _
    | read hpaths hlisted hcollected hfirst => exact .read _ _

/-- **Runs.** The failures of the outline command are told by their chains. -/
theorem Fails.explained {before : List (Source × Document)} (h : Fails environment args before failure) :
    failure.Explained tomlFault (failure.links tomlFault) := by
  cases h with
  | unprepared h => exact h.explained
  | document hprepares hbefore herror => exact explained_load _ herror

end QueryOutline
