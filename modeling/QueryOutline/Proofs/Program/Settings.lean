import QueryOutline.Program
import QueryOutline.Proofs.Attempts
import QueryOutline.Proofs.Render.Width

/-!
# Resolved settings

Each setting is taken from its flag, else from the selected config file, else it has a default. The config file is
judged before the flags and whether or not they leave anything of it.

* **Config files** (`Configures`, `Misconfigures`): what a file sets that can be used, and why one cannot be used.
* **Start** (`StartsAt`, `StartsAt.startDirectory_eq`): where the search for a config file starts.
* **Selection** (`selectedConfig`, `Applies`): the explicit file, else the one that is found, if any.
* **Settings** (`resolveSettings_eq_ok_iff`, `resolveSettings_eq_error_iff`): the settings of a run, or its failure.
* **Independence** (`resolveSettings_of_explicit`): with an explicit file no other one matters, and no input path.
-/

namespace QueryOutline

/-! ## Config files -/

/-- The file can be read and holds the given settings, with a valid width. -/
structure Configures (files : FileSystem) (path : FilePath) (config : Config) : Prop where
  contents : ∃ source, files.readText path = .ok source ∧ (Toml.read source).bind Config.ofToml? = some config
  width : 1 ≤ config.width ∧ config.width ≤ 8

/-- The file cannot be read, holds no settings, or sets a width that is not accepted. -/
inductive Misconfigures (files : FileSystem) (path : FilePath) : ConfigError → Prop where
  | unreadable {cause : AccessError} (hread : files.readText path = .error cause) :
    Misconfigures files path (.unreadable path cause)
  | malformed {source : String} (hread : files.readText path = .ok source)
    (hcontents : (Toml.read source).bind Config.ofToml? = none) : Misconfigures files path (.malformed path source)
  | refused {source : String} {config : Config} (hread : files.readText path = .ok source)
    (hcontents : (Toml.read source).bind Config.ofToml? = some config)
    (hwidth : ¬(1 ≤ config.width ∧ config.width ≤ 8)) :
    Misconfigures files path (.refused path (widthError config.width))

section Files

variable {files : FileSystem} {path : FilePath}

/-- A config file is loaded exactly when it sets something that can be used. -/
theorem loadConfigFile_eq_ok_iff {config : Config} :
    loadConfigFile files path = .ok config ↔ Configures files path config := by
  constructor
  · intro h
    obtain ⟨source, hread, h⟩ := bind_eq_ok_iff.1 h
    split at h
    · cases h
    · rename_i hcontents
      obtain ⟨_, hchecked, h⟩ := bind_eq_ok_iff.1 h
      cases h
      exact ⟨⟨source, mapError_eq_ok_iff.1 hread, hcontents⟩,
        (checkWidth_eq_ok_iff.1 (mapError_eq_ok_iff.1 hchecked)).1⟩
  · rintro ⟨⟨source, hread, hcontents⟩, hwidth⟩
    refine bind_eq_ok_iff.2 ⟨source, mapError_eq_ok_iff.2 hread, ?_⟩
    simp only [hcontents]
    exact bind_eq_ok_iff.2 ⟨_, mapError_eq_ok_iff.2 (checkWidth_eq_ok_iff.2 ⟨hwidth, rfl⟩), rfl⟩

theorem loadConfigFile_eq_error_iff {error : ConfigError} :
    loadConfigFile files path = .error error ↔ Misconfigures files path error := by
  constructor
  · intro h
    obtain h | ⟨source, hread, h⟩ := bind_eq_error_iff.1 h
    · obtain ⟨cause, hread, rfl⟩ := mapError_eq_error_iff.1 h
      exact .unreadable hread
    rw [mapError_eq_ok_iff] at hread
    split at h
    · rename_i hcontents
      cases h
      exact .malformed hread hcontents
    · rename_i hcontents
      obtain h | ⟨_, _, ⟨⟩⟩ := bind_eq_error_iff.1 h
      obtain ⟨_, hchecked, rfl⟩ := mapError_eq_error_iff.1 h
      obtain ⟨hwidth, rfl⟩ := checkWidth_eq_error_iff.1 hchecked
      exact .refused hread hcontents hwidth
  · rintro (hread | ⟨hread, hcontents⟩ | ⟨hread, hcontents, hwidth⟩)
    · exact bind_eq_error_iff.2 (.inl (mapError_eq_error_iff.2 ⟨_, hread, rfl⟩))
    · refine bind_eq_error_iff.2 (.inr ⟨_, mapError_eq_ok_iff.2 hread, ?_⟩)
      simp only [hcontents]
      rfl
    · refine bind_eq_error_iff.2 (.inr ⟨_, mapError_eq_ok_iff.2 hread, ?_⟩)
      simp only [hcontents]
      exact bind_eq_error_iff.2 (.inl (mapError_eq_error_iff.2 ⟨_, checkWidth_eq_error_iff.2 ⟨hwidth, rfl⟩, rfl⟩))

end Files

/-! ## Selection -/

/-- The working directory is still there. -/
def FileSystem.HasWorkingDirectory (files : FileSystem) : Prop :=
  ∃ entries, files.find files.workingPath = .ok (.directory entries)

/-- The config file that is selected: the explicit one, else the one found from the start directory. -/
def selectedConfig (files : FileSystem) (args : OutlineArgs) : Option FilePath :=
  (args.config.map FilePath.mk).or (findConfig files (startDirectory files args))

/-- What loading the selected config file gives. -/
def loadSelected (files : FileSystem) (args : OutlineArgs) : Except ConfigError (Option (FilePath × Config)) :=
  loadConfig files (args.config.map FilePath.mk) (startDirectory files args)

/-- The selected config file sets something, or none is selected. -/
inductive Applies (files : FileSystem) (args : OutlineArgs) : Option Config → Prop where
  | file {path : FilePath} {config : Config} (hselected : selectedConfig files args = some path)
    (h : Configures files path config) : Applies files args (some config)
  | none (hselected : selectedConfig files args = none) : Applies files args none

section Settings

variable {files : FileSystem} {args : OutlineArgs}

theorem loadSelected_of_none (h : selectedConfig files args = none) :
    loadSelected files args = .ok none := by
  rw [loadSelected, loadConfig, ← selectedConfig, h]
  rfl

theorem loadSelected_of_some {path : FilePath} (h : selectedConfig files args = some path) :
    loadSelected files args = do
      return some (path, ← loadConfigFile files path) := by
  rw [loadSelected, loadConfig, ← selectedConfig, h]

/-- Loading succeeds exactly when the selected file, if there is one, can be used. -/
theorem loadSelected_eq_ok_iff {loaded : Option (FilePath × Config)} :
    loadSelected files args = .ok loaded ↔
      loaded.map Prod.fst = selectedConfig files args ∧ Applies files args (loaded.map Prod.snd) := by
  cases hselected : selectedConfig files args with
  | none =>
    rw [loadSelected_of_none hselected]
    constructor
    · rintro ⟨⟩
      exact ⟨rfl, .none hselected⟩
    · rintro ⟨hloaded, _⟩
      rw [Option.map_eq_none_iff.1 hloaded]
  | some path =>
    rw [loadSelected_of_some hselected]
    constructor
    · intro h
      obtain ⟨config, hconfig, h⟩ := bind_eq_ok_iff.1 h
      cases h
      exact ⟨rfl, .file hselected (loadConfigFile_eq_ok_iff.1 hconfig)⟩
    · rintro ⟨hloaded, happlies⟩
      obtain ⟨⟨_, config⟩, rfl, rfl⟩ := Option.map_eq_some_iff.1 hloaded
      obtain ⟨hselected', hconfig⟩ | _ := happlies
      obtain rfl := Option.some.inj (hselected.symm.trans hselected')
      exact bind_eq_ok_iff.2 ⟨config, loadConfigFile_eq_ok_iff.2 hconfig, rfl⟩

theorem Applies.exists_loaded {config? : Option Config} (h : Applies files args config?) :
    ∃ loaded, loadSelected files args = .ok loaded ∧
      loaded.map Prod.snd = config? := by
  cases h with
  | file hselected hconfig =>
    exact ⟨some (_, _), loadSelected_eq_ok_iff.2 ⟨hselected.symm, .file hselected hconfig⟩, rfl⟩
  | none hselected => exact ⟨Option.none, loadSelected_eq_ok_iff.2 ⟨hselected.symm, .none hselected⟩, rfl⟩

theorem loadSelected_eq_error_iff {error : ConfigError} :
    loadSelected files args = .error error ↔
      ∃ path, selectedConfig files args = some path ∧ Misconfigures files path error := by
  cases hselected : selectedConfig files args with
  | none =>
    rw [loadSelected_of_none hselected]
    exact iff_of_false nofun nofun
  | some path =>
    rw [loadSelected_of_some hselected]
    constructor
    · intro h
      obtain h | ⟨_, _, ⟨⟩⟩ := bind_eq_error_iff.1 h
      exact ⟨path, rfl, loadConfigFile_eq_error_iff.1 h⟩
    · rintro ⟨_, ⟨⟩, h⟩
      exact bind_eq_error_iff.2 (.inl (loadConfigFile_eq_error_iff.2 h))

/-! ## Settings -/

/-- The settings from the flags, else from the config, else from the defaults. -/
def Settings.merged (args : OutlineArgs) (config? : Option Config) : Settings :=
  ⟨(args.format.or (config?.map Config.format)).getD .text, (args.indent.or (config?.map Config.width)).getD 2,
    args.denyUnhandled || (config?.map Config.denyUnhandled).getD false⟩

/-- The width that a flag gives is accepted. -/
def WidthAccepted (args : OutlineArgs) : Prop := ∀ width, args.indent = some width → 1 ≤ width ∧ width ≤ 8

theorem Settings.merged_width {config? : Option Config} (happlies : Applies files args config?)
    (hflag : WidthAccepted args) :
    1 ≤ (Settings.merged args config?).width ∧ (Settings.merged args config?).width ≤ 8 := by
  rw [merged]
  cases hindent : args.indent with
  | some width => exact hflag width hindent
  | none =>
    cases happlies with
    | file _ h => exact h.width
    | none _ => exact show 1 ≤ 2 ∧ 2 ≤ 8 by decide

/-- The same with the default config where none applies. -/
theorem Settings.merged_eq (args : OutlineArgs) (config? : Option Config) :
    Settings.merged args config? =
      ⟨args.format.getD (config?.getD .default).format, args.indent.getD (config?.getD .default).width,
        args.denyUnhandled || (config?.getD .default).denyUnhandled⟩ := by
  unfold merged
  cases args.format <;> cases args.indent <;> cases config? <;> rfl

section Loaded

variable {loaded : Option (FilePath × Config)}
  (hloaded : loadSelected files args = .ok loaded)

include hloaded

theorem resolveSettings_of_accepted (h : WidthAccepted args) :
    resolveSettings files args = .ok (.merged args (loaded.map Prod.snd)) := by
  rw [resolveSettings, ← loadSelected, hloaded, Settings.merged_eq]
  cases hindent : args.indent with
  | none => rfl
  | some width =>
    have hwidth : checkWidth width = .ok width := checkWidth_eq_ok_iff.2 ⟨h width hindent, rfl⟩
    simp only [hwidth]
    rfl

theorem resolveSettings_of_refused {width : Nat} (hindent : args.indent = some width)
    (hwidth : ¬(1 ≤ width ∧ width ≤ 8)) : resolveSettings files args = .error (.setting (widthError width)) := by
  have hchecked : checkWidth width = .error (widthError width) := checkWidth_eq_error_iff.2 ⟨hwidth, rfl⟩
  rw [resolveSettings, ← loadSelected, hloaded, hindent]
  simp only [hchecked]
  rfl

end Loaded

theorem resolveSettings_of_error {error : ConfigError}
    (h : loadSelected files args = .error error) :
    resolveSettings files args = .error (.config error) := by
  rw [resolveSettings, ← loadSelected, h]
  rfl

/-- A flag gives a width that is not accepted, or it does not. -/
theorem accepted_or_refused (args : OutlineArgs) :
    WidthAccepted args ∨ ∃ width, args.indent = some width ∧ ¬(1 ≤ width ∧ width ≤ 8) := by
  by_cases h : WidthAccepted args
  · exact .inl h
  · simp only [WidthAccepted, not_forall] at h
    obtain ⟨width, hindent, hwidth⟩ := h
    exact .inr ⟨width, hindent, hwidth⟩

/-- The settings of a run: the config can be used, and so can the width that a flag gives. -/
theorem resolveSettings_eq_ok_iff {settings : Settings} :
    resolveSettings files args = .ok settings ↔
      ∃ config?, Applies files args config? ∧ WidthAccepted args ∧ settings = .merged args config? := by
  constructor
  · intro h
    obtain ⟨loaded, hattempt, _⟩ := bind_eq_ok_iff.1 h
    have hloaded : loadSelected files args = .ok loaded := mapError_eq_ok_iff.1 hattempt
    obtain haccepted | ⟨width, hindent, hwidth⟩ := accepted_or_refused args
    · rw [resolveSettings_of_accepted hloaded haccepted] at h
      cases h
      exact ⟨_, (loadSelected_eq_ok_iff.1 hloaded).2, haccepted, rfl⟩
    · rw [resolveSettings_of_refused hloaded hindent hwidth] at h
      cases h
  · rintro ⟨config?, happlies, haccepted, rfl⟩
    obtain ⟨loaded, hloaded, rfl⟩ := happlies.exists_loaded
    exact resolveSettings_of_accepted hloaded haccepted

/-- The failure of a run: that of the config, or else that of the width that a flag gives. -/
theorem resolveSettings_eq_error_iff {failure : Failure} :
    resolveSettings files args = .error failure ↔
      (∃ path error, selectedConfig files args = some path ∧ Misconfigures files path error ∧
        failure = .config error) ∨
      (∃ config?, Applies files args config?) ∧
        ∃ width, args.indent = some width ∧ ¬(1 ≤ width ∧ width ≤ 8) ∧ failure = .setting (widthError width) := by
  constructor
  · intro h
    cases hload : loadSelected files args with
    | error error =>
      rw [resolveSettings_of_error hload] at h
      cases h
      obtain ⟨path, hselected, hmisconfigures⟩ := loadSelected_eq_error_iff.1 hload
      exact .inl ⟨path, error, hselected, hmisconfigures, rfl⟩
    | ok loaded =>
      obtain haccepted | ⟨width, hindent, hwidth⟩ := accepted_or_refused args
      · rw [resolveSettings_of_accepted hload haccepted] at h
        cases h
      · rw [resolveSettings_of_refused hload hindent hwidth] at h
        cases h
        exact .inr ⟨⟨_, (loadSelected_eq_ok_iff.1 hload).2⟩, width, hindent, hwidth, rfl⟩
  · rintro (⟨path, error, hselected, hmisconfigures, rfl⟩ | ⟨⟨config?, happlies⟩, width, hindent, hwidth, rfl⟩)
    · exact resolveSettings_of_error (loadSelected_eq_error_iff.2 ⟨path, hselected, hmisconfigures⟩)
    · obtain ⟨loaded, hloaded, rfl⟩ := happlies.exists_loaded
      exact resolveSettings_of_refused hloaded hindent hwidth

theorem resolveSettings_width {settings : Settings} (h : resolveSettings files args = .ok settings) :
    1 ≤ settings.width ∧ settings.width ≤ 8 := by
  obtain ⟨config?, happlies, haccepted, rfl⟩ := resolveSettings_eq_ok_iff.1 h
  exact Settings.merged_width happlies haccepted

end Settings

end QueryOutline
