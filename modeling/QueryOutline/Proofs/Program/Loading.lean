import QueryOutline.Proofs.Program.Stages
import QueryOutline.Proofs.Render.Strokes

/-!
# The outline command

After its preparation the outline command loads the sources, one after the other.

* **Documents** (`loadInputs_append`): the resolved width is valid, so loading a source fails only for its document.
  What is told to the log is that of all documents before the first that fails.
* **The command** (`fails_or_loads`): a stage fails (`Fails`), or all inputs are loaded (`Loads`).
-/

namespace QueryOutline

variable {environment : Environment} {args : OutlineArgs}

/-! ## Documents -/

/-- The sources hold the documents. -/
def Hold (inputs : List (Source × Document)) : Prop := ∀ input ∈ inputs, readDocument input.1.text = .ok input.2

/-- What is shown of a document in a source. -/
def Loaded.ofDocument (width : Nat) (source : Source) (document : Document) : Loaded :=
  .ofOutline source.file { Outline.ofDocument document with width }

/-- The inputs as they are shown. -/
def loadedInputs (settings : Settings) (inputs : List (Source × Document)) : List Loaded :=
  inputs.map fun input => .ofDocument settings.width input.1 input.2

/-- What is told to the log while the inputs are loaded. -/
def loadingEvents (inputs : List (Source × Document)) : List LogEvent :=
  inputs.flatMap fun input => (Outline.ofDocument input.2).events

/-- The log of the inputs, in order: for each how many names its steps declare and its unhandled kinds, each once, in
the order of their first occurrences. -/
inductive Logged : List (Source × Document) → List LogEvent → Prop where
  | nil : Logged [] []
  | cons {source : Source} {document : Document} {kinds : List String} {inputs : List (Source × Document)}
    {log : List LogEvent} (hkinds : Names.FirstOccurrences kinds document.unhandled) (h : Logged inputs log) :
    Logged ((source, document) :: inputs)
      (.references document.stepNames.length :: kinds.map .unhandled ++ log)

theorem logged_loadingEvents : ∀ inputs : List (Source × Document), Logged inputs (loadingEvents inputs)
  | [] => .nil
  | (_, document) :: inputs =>
    .cons (Outline.ofDocument document).unhandledKinds_firstOccurrences (logged_loadingEvents inputs)

theorem loadOutline_of_error {width : Nat} {source : Source} {error : Error}
    (h : readDocument source.text = .error error) : loadOutline width source = .error (.load source.file error) := by
  rw [loadOutline, Outline.ofSource, h]
  rfl

/-- A valid width is no reason to fail, so only the document is. -/
theorem loadOutline_of_ok {width : Nat} (h₁ : 1 ≤ width) (h₂ : width ≤ 8) {source : Source} {document : Document}
    (h : readDocument source.text = .ok document) :
    loadOutline width source = .ok { Outline.ofDocument document with width } := by
  have hwidth : (Outline.ofDocument document).withWidth width = .ok _ := Outline.withWidth_of_le h₁ h₂
  have houtline : Outline.ofSource source.text = .ok (Outline.ofDocument document) := by
    rw [Outline.ofSource, h]
    rfl
  rw [loadOutline, houtline]
  exact congrArg (Except.mapError Failure.setting) hwidth

section Loading

variable {settings : Settings} (h₁ : 1 ≤ settings.width) (h₂ : settings.width ≤ 8)
include h₁ h₂

/-- Sources that hold documents are loaded, and then the others. -/
theorem loadInputs_append (rest : List Source) : ∀ {inputs : List (Source × Document)}, Hold inputs →
    loadInputs (loadOutline settings.width) (inputs.map Prod.fst ++ rest) =
      (loadingEvents inputs ++ (loadInputs (loadOutline settings.width) rest).1,
        (loadInputs (loadOutline settings.width) rest).2.map (loadedInputs settings inputs ++ ·))
  | [], _ => by
    cases hrest : loadInputs (loadOutline settings.width) rest with
    | mk log result => cases result <;> simp [hrest, loadingEvents, loadedInputs, Except.map]
  | (source, document) :: inputs, h => by
    obtain ⟨hfirst, hinputs⟩ := List.forall_mem_cons.1 h
    rw [List.map_cons, List.cons_append, loadInputs, loadOutline_of_ok h₁ h₂ hfirst]
    have hevents : loadingEvents ((source, document) :: inputs) =
        (Outline.ofDocument document).events ++ loadingEvents inputs := List.flatMap_cons
    simp only [loadInputs_append rest hinputs]
    rw [hevents, List.append_assoc]
    cases (loadInputs (loadOutline settings.width) rest).2 <;> rfl

theorem loadInputs_of_hold {inputs : List (Source × Document)} (h : Hold inputs) :
    loadInputs (loadOutline settings.width) (inputs.map Prod.fst) =
      (loadingEvents inputs, .ok (loadedInputs settings inputs)) := by
  have hall := loadInputs_append h₁ h₂ [] h
  rw [List.append_nil, loadInputs, List.append_nil] at hall
  rw [hall]
  simp [Except.map]

theorem loadInputs_of_error {before : List (Source × Document)} {source : Source} {error : Error} (h : Hold before)
    (herror : readDocument source.text = .error error) (after : List Source) :
    loadInputs (loadOutline settings.width) (before.map Prod.fst ++ source :: after) =
      (loadingEvents before, .error (.load source.file error)) := by
  rw [loadInputs_append h₁ h₂ _ h, loadInputs, loadOutline_of_error herror]
  simp [Except.map]

end Loading

/-- All sources hold documents, or one is the first that does not. -/
theorem hold_or_error : ∀ sources : List Source, (∃ inputs, inputs.map Prod.fst = sources ∧ Hold inputs) ∨
    ∃ before source after error, before.map Prod.fst ++ source :: after = sources ∧ Hold before ∧
      readDocument source.text = .error error
  | [] => .inl ⟨[], rfl, nofun⟩
  | source :: sources => by
    cases hfirst : readDocument source.text with
    | error error => exact .inr ⟨[], source, sources, error, rfl, nofun, hfirst⟩
    | ok document =>
      obtain ⟨inputs, rfl, h⟩ | ⟨before, later, after, error, rfl, h, herror⟩ := hold_or_error sources
      · exact .inl ⟨(source, document) :: inputs, rfl, List.forall_mem_cons.2 ⟨hfirst, h⟩⟩
      · exact .inr ⟨(source, document) :: before, later, after, error, rfl, List.forall_mem_cons.2 ⟨hfirst, h⟩, herror⟩

/-! ## The command -/

/-- A stage fails: the preparation, or the first document that cannot be loaded, behind the inputs that can. -/
inductive Fails (environment : Environment) (args : OutlineArgs) : List (Source × Document) → Failure → Prop where
  | unprepared {failure : Failure} (h : Unprepared environment args failure) : Fails environment args [] failure
  | document {settings : Settings} {before : List (Source × Document)} {source : Source} {after : List Source}
    {error : Error} (hprepares : Prepares environment args settings (before.map Prod.fst ++ source :: after))
    (hbefore : Hold before) (herror : readDocument source.text = .error error) :
    Fails environment args before (.load source.file error)

/-- All stages pass, with the given settings and with the sources and the documents in them. -/
structure Loads (environment : Environment) (args : OutlineArgs) (settings : Settings)
    (inputs : List (Source × Document)) : Prop where
  prepares : Prepares environment args settings (inputs.map Prod.fst)
  documents : Hold inputs

/-- A stage fails or all pass. -/
theorem fails_or_loads (environment : Environment) (args : OutlineArgs) :
    (∃ before failure, Fails environment args before failure) ∨
      ∃ settings inputs, Loads environment args settings inputs := by
  obtain ⟨failure, h⟩ | ⟨settings, sources, h⟩ := prepared_or_not environment args
  · exact .inl ⟨[], failure, .unprepared h⟩
  · obtain ⟨inputs, rfl, hinputs⟩ | ⟨before, source, after, error, rfl, hbefore, herror⟩ := hold_or_error sources
    · exact .inr ⟨settings, inputs, h, hinputs⟩
    · exact .inl ⟨before, _, .document h hbefore herror⟩

theorem runOutline_of_fails {before : List (Source × Document)} {failure : Failure}
    (h : Fails environment args before failure) :
    runOutline environment args = .ofFailure environment (loadingEvents before) failure := by
  cases h with
  | unprepared h =>
    rw [runOutline, prepare_eq_error_iff.2 h]
    rfl
  | document hprepares hbefore herror =>
    obtain ⟨h₁, h₂⟩ := resolveSettings_width hprepares.settings
    rw [runOutline, prepare_eq_ok_iff.2 hprepares]
    simp only [loadInputs_of_error h₁ h₂ hbefore herror]

theorem runOutline_of_loads {settings : Settings} {inputs : List (Source × Document)}
    (h : Loads environment args settings inputs) :
    runOutline environment args = .ofLoaded settings (loadingEvents inputs) (loadedInputs settings inputs) := by
  obtain ⟨h₁, h₂⟩ := resolveSettings_width h.prepares.settings
  rw [runOutline, prepare_eq_ok_iff.2 h.prepares]
  simp only [loadInputs_of_hold h₁ h₂ h.documents]

end QueryOutline
