import QueryOutline.Proofs.Inputs
import QueryOutline.Proofs.Program.Settings

/-!
# The stages before the first input is loaded

The outline command resolves its settings and reads the sources. Either may fail.

* **Sources** (`readInputs_eq_ok_iff`, `readInputs_eq_error_iff`): what is read (`Reads`), and which path or file is to
  blame when something cannot be (`Unreadable`).
* **Preparation** (`prepare_eq_ok_iff`, `prepare_eq_error_iff`): what is known before the first input is loaded
  (`Prepares`), or why it is not (`Unprepared`).
-/

namespace QueryOutline

/-! ## Sources -/

/-- The sources are standard input or all collected files; each can be read, and each directory on the way can be
listed. -/
inductive Reads (environment : Environment) (args : OutlineArgs) : List Source → Prop where
  | input {text : String} (hpaths : args.paths = []) (htext : decodeText environment.input = .ok text) :
    Reads environment args [⟨"stdin", text⟩]
  | files {contents : List (FilePath × String)} (hpaths : args.paths ≠ [])
    (hlisted : ∀ directory ∈ enteredDirectories environment.files (args.paths.map FilePath.mk),
      environment.listing directory = .ok ())
    (hcollected : collectInputs environment.files (args.paths.map FilePath.mk) = .ok (contents.map Prod.fst))
    (hread : ∀ content ∈ contents, environment.files.readText content.1 = .ok content.2) :
    Reads environment args (contents.map fun content => ⟨content.1.text, content.2⟩)

/-- Standard input, the first directory that cannot be listed, the first path that cannot be looked up, or the first
collected file that cannot be read is to blame. Of two paths the first is to blame, since no directory is entered for a
path behind one that cannot be looked up. -/
inductive Unreadable (environment : Environment) (args : OutlineArgs) : Failure → Prop where
  | input {cause : AccessError} (hpaths : args.paths = []) (htext : decodeText environment.input = .error cause) :
    Unreadable environment args (.input cause)
  | listing {directory : FilePath} {cause : AccessError} (hpaths : args.paths ≠ [])
    (hfirst : FirstFailure environment.listing (enteredDirectories environment.files (args.paths.map FilePath.mk))
      directory cause) :
    Unreadable environment args (.listing directory cause)
  | lookup {path : FilePath} {cause : AccessError} (hpaths : args.paths ≠ [])
    (hlisted : ∀ directory ∈ enteredDirectories environment.files (args.paths.map FilePath.mk),
      environment.listing directory = .ok ())
    (hfirst : FirstFailure (inputsOf environment.files) (args.paths.map FilePath.mk) path cause) :
    Unreadable environment args (.lookup path cause)
  | read {files : List FilePath} {path : FilePath} {cause : AccessError} (hpaths : args.paths ≠ [])
    (hlisted : ∀ directory ∈ enteredDirectories environment.files (args.paths.map FilePath.mk),
      environment.listing directory = .ok ())
    (hcollected : collectInputs environment.files (args.paths.map FilePath.mk) = .ok files)
    (hfirst : FirstFailure environment.files.readText files path cause) :
    Unreadable environment args (.read path cause)

theorem readText_attempt (files : FileSystem) :
    (fun path => do return (⟨path.text, ← (files.readText path).mapError (.read path)⟩ : Source)) =
      attempt files.readText (fun path text => ⟨path.text, text⟩) Failure.read := by
  funext path
  unfold attempt
  cases files.readText path <;> rfl

variable {environment : Environment} {args : OutlineArgs}

theorem readInputs_of_nil (h : args.paths = []) :
    readInputs environment args = do return [⟨"stdin", ← (decodeText environment.input).mapError .input⟩] := by
  rw [readInputs, h]

/-- The directories on the way are listed, one after the other. -/
def listDirectories (environment : Environment) (paths : List FilePath) : Except Failure (List Unit) :=
  (enteredDirectories environment.files paths).mapM
    (attempt environment.listing (fun _ listed => listed) Failure.listing)

theorem exists_listDirectories_iff {paths : List FilePath} :
    (∃ listed, listDirectories environment paths = .ok listed) ↔
      ∀ directory ∈ enteredDirectories environment.files paths, environment.listing directory = .ok () :=
  exists_mapM_attempt_iff.trans ⟨fun h directory hmem => (h directory hmem).choose_spec,
    fun h directory hmem => ⟨(), h directory hmem⟩⟩

theorem readInputs_of_ne_nil (h : args.paths ≠ []) :
    readInputs environment args =
      listDirectories environment (args.paths.map FilePath.mk) >>= fun _ =>
        ((collectInputs environment.files (args.paths.map FilePath.mk)).mapError fun (path, cause) =>
          .lookup path cause) >>= fun files =>
        files.mapM (attempt environment.files.readText (fun path text => ⟨path.text, text⟩) Failure.read) := by
  rw [readInputs, ← readText_attempt, listDirectories, ← mapError_attempt]
  split
  · contradiction
  · rfl

theorem readInputs_eq_ok_iff {sources : List Source} :
    readInputs environment args = .ok sources ↔ Reads environment args sources := by
  constructor
  · intro h
    by_cases hpaths : args.paths = []
    · rw [readInputs_of_nil hpaths] at h
      obtain ⟨text, htext, h⟩ := bind_eq_ok_iff.1 h
      cases h
      exact .input hpaths (mapError_eq_ok_iff.1 htext)
    · rw [readInputs_of_ne_nil hpaths] at h
      obtain ⟨listed, hlisted, h⟩ := bind_eq_ok_iff.1 h
      obtain ⟨files, hcollected, h⟩ := bind_eq_ok_iff.1 h
      obtain ⟨contents, rfl, hread, rfl⟩ := mapM_attempt_eq_ok.1 h
      exact .files hpaths (exists_listDirectories_iff.1 ⟨listed, hlisted⟩) (mapError_eq_ok_iff.1 hcollected) hread
  · rintro (⟨hpaths, htext⟩ | ⟨hpaths, hlisted, hcollected, hread⟩)
    · rw [readInputs_of_nil hpaths, htext]
      rfl
    · obtain ⟨listed, hlisted⟩ := exists_listDirectories_iff.2 hlisted
      rw [readInputs_of_ne_nil hpaths]
      exact bind_eq_ok_iff.2 ⟨listed, hlisted, bind_eq_ok_iff.2
        ⟨_, mapError_eq_ok_iff.2 hcollected, mapM_attempt_eq_ok.2 ⟨_, rfl, hread, rfl⟩⟩⟩

theorem readInputs_eq_error_iff {failure : Failure} :
    readInputs environment args = .error failure ↔ Unreadable environment args failure := by
  constructor
  · intro h
    by_cases hpaths : args.paths = []
    · rw [readInputs_of_nil hpaths] at h
      obtain h | ⟨_, _, ⟨⟩⟩ := bind_eq_error_iff.1 h
      obtain ⟨cause, htext, rfl⟩ := mapError_eq_error_iff.1 h
      exact .input hpaths htext
    · rw [readInputs_of_ne_nil hpaths] at h
      obtain h | ⟨listed, hlisted, h⟩ := bind_eq_error_iff.1 h
      · obtain ⟨directory, cause, hfirst, rfl⟩ := mapM_attempt_eq_error.1 h
        exact .listing hpaths hfirst
      have hlisted := exists_listDirectories_iff.1 ⟨listed, hlisted⟩
      obtain h | ⟨files, hcollected, h⟩ := bind_eq_error_iff.1 h
      · obtain ⟨⟨path, cause⟩, hlookup, rfl⟩ := mapError_eq_error_iff.1 h
        exact .lookup hpaths hlisted (collectInputs_eq_error_iff.1 hlookup)
      · obtain ⟨path, cause, hfirst, rfl⟩ := mapM_attempt_eq_error.1 h
        exact .read hpaths hlisted (mapError_eq_ok_iff.1 hcollected) hfirst
  · rintro (⟨hpaths, htext⟩ | ⟨hpaths, hfirst⟩ | ⟨hpaths, hlisted, hfirst⟩ | ⟨hpaths, hlisted, hcollected, hfirst⟩)
    · rw [readInputs_of_nil hpaths, htext]
      rfl
    all_goals rw [readInputs_of_ne_nil hpaths]
    · exact bind_eq_error_iff.2 (.inl (mapM_attempt_eq_error.2 ⟨_, _, hfirst, rfl⟩))
    all_goals
      obtain ⟨listed, hlisted⟩ := exists_listDirectories_iff.2 hlisted
      refine bind_eq_error_iff.2 (.inr ⟨listed, hlisted, bind_eq_error_iff.2 ?_⟩)
    · exact .inl (mapError_eq_error_iff.2 ⟨_, collectInputs_eq_error_iff.2 hfirst, rfl⟩)
    · exact .inr ⟨_, mapError_eq_ok_iff.2 hcollected, mapM_attempt_eq_error.2 ⟨_, _, hfirst, rfl⟩⟩

/-! ## Preparation -/

/-- Without a path there is a working directory, the settings are resolved, and the sources are read. -/
structure Prepares (environment : Environment) (args : OutlineArgs) (settings : Settings) (sources : List Source) :
    Prop where
  working : args.paths = [] → environment.files.HasWorkingDirectory
  settings : resolveSettings environment.files args = .ok settings
  sources : Reads environment args sources

/-- The working directory is gone, or the settings cannot be resolved, or else the sources cannot be read. -/
inductive Unprepared (environment : Environment) (args : OutlineArgs) : Failure → Prop where
  | working (hpaths : args.paths = []) (hworking : ¬environment.files.HasWorkingDirectory) :
    Unprepared environment args (.workingDirectory .notFound)
  | settings {failure : Failure} (hworking : args.paths = [] → environment.files.HasWorkingDirectory)
    (hsettings : resolveSettings environment.files args = .error failure) : Unprepared environment args failure
  | sources {settings : Settings} {failure : Failure}
    (hworking : args.paths = [] → environment.files.HasWorkingDirectory)
    (hsettings : resolveSettings environment.files args = .ok settings)
    (hsources : Unreadable environment args failure) : Unprepared environment args failure

theorem checkWorkingDirectory_of_hasWorkingDirectory
    (h : args.paths = [] → environment.files.HasWorkingDirectory) :
    checkWorkingDirectory environment.files args = .ok () := by
  unfold checkWorkingDirectory
  split
  · rename_i hpaths
    obtain ⟨entries, hfind⟩ := h hpaths
    rw [FileSystem.currentPath, hfind]
    rfl
  · rfl

theorem checkWorkingDirectory_of_gone (hpaths : args.paths = []) (h : ¬environment.files.HasWorkingDirectory) :
    checkWorkingDirectory environment.files args = .error (.workingDirectory .notFound) := by
  have hcurrent : environment.files.currentPath = .error .notFound := by
    unfold FileSystem.currentPath
    split
    · rename_i hfind
      exact absurd ⟨_, hfind⟩ h
    · rfl
  rw [checkWorkingDirectory, hpaths, hcurrent]
  rfl

/-- With a working directory where one is needed, the settings come next. -/
theorem prepare_of_hasWorkingDirectory (h : args.paths = [] → environment.files.HasWorkingDirectory) :
    prepare environment args = do
      let settings ← resolveSettings environment.files args
      return (settings, ← readInputs environment args) := by
  rw [prepare, checkWorkingDirectory_of_hasWorkingDirectory h]
  rfl

theorem prepare_eq_ok_iff {settings : Settings} {sources : List Source} :
    prepare environment args = .ok (settings, sources) ↔ Prepares environment args settings sources := by
  by_cases hworking : args.paths = [] → environment.files.HasWorkingDirectory
  · rw [prepare_of_hasWorkingDirectory hworking]
    simp only [bind_eq_ok_iff]
    constructor
    · rintro ⟨_, hsettings, _, hsources, ⟨⟩⟩
      exact ⟨hworking, hsettings, readInputs_eq_ok_iff.1 hsources⟩
    · rintro ⟨_, hsettings, hsources⟩
      exact ⟨settings, hsettings, sources, readInputs_eq_ok_iff.2 hsources, rfl⟩
  · obtain ⟨hpaths, hgone⟩ := Classical.not_imp.1 hworking
    refine iff_of_false (fun h => ?_) fun h => hworking h.working
    rw [prepare, checkWorkingDirectory_of_gone hpaths hgone] at h
    cases h

theorem prepare_eq_error_iff {failure : Failure} :
    prepare environment args = .error failure ↔ Unprepared environment args failure := by
  by_cases hworking : args.paths = [] → environment.files.HasWorkingDirectory
  · rw [prepare_of_hasWorkingDirectory hworking]
    constructor
    · intro h
      obtain hsettings | ⟨settings, hsettings, h⟩ := bind_eq_error_iff.1 h
      · exact .settings hworking hsettings
      obtain hsources | ⟨_, _, ⟨⟩⟩ := bind_eq_error_iff.1 h
      exact .sources hworking hsettings (readInputs_eq_error_iff.1 hsources)
    · rintro (⟨hpaths, hgone⟩ | ⟨_, hsettings⟩ | ⟨_, hsettings, hsources⟩)
      · exact absurd (hworking hpaths) hgone
      · exact bind_eq_error_iff.2 (.inl hsettings)
      · exact bind_eq_error_iff.2 (.inr ⟨_, hsettings,
          bind_eq_error_iff.2 (.inl (readInputs_eq_error_iff.2 hsources))⟩)
  · obtain ⟨hpaths, hgone⟩ := Classical.not_imp.1 hworking
    rw [prepare, checkWorkingDirectory_of_gone hpaths hgone]
    constructor
    · rintro ⟨⟩
      exact .working hpaths hgone
    · rintro (_ | ⟨h, _⟩ | ⟨h, _⟩)
      · rfl
      · exact absurd h hworking
      · exact absurd h hworking

theorem prepared_or_not (environment : Environment) (args : OutlineArgs) :
    (∃ failure, Unprepared environment args failure) ∨
      ∃ settings sources, Prepares environment args settings sources := by
  cases h : prepare environment args with
  | error failure => exact .inl ⟨failure, prepare_eq_error_iff.1 h⟩
  | ok prepared => exact .inr ⟨prepared.1, prepared.2, prepare_eq_ok_iff.1 h⟩

end QueryOutline
