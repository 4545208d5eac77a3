import QueryOutline.Proofs.Program.Failures
import QueryOutline.Proofs.Program.Reports

/-!
# How a run ends

A run of the outline command fails with the code 2 and shows nothing, or it shows all inputs. Then its code tells
whether unhandled kinds are refused and found.

* **Failures** (`Outcome.Explains`): the errors are the chain of the failure.
* **Successes** (`Outcome.Reports`): the exit code, the output and the errors. A complaint is a line of its own unless
  it has a line break in it (`brokenKindFile_ends`).
* **Runs** (`run_ends`): every run of the outline command ends in one of these ways.
-/

namespace QueryOutline

/-! ## Outcomes -/

/-- An outcome explains a failure when its code is 2 and it shows nothing but the chain of the failure: the first text
names the path or file that the failure is about, if it is about one, and the last text is the cause. The log is that of
the inputs that have been loaded before. -/
structure Outcome.Explains (tomlFault : String → String) (before : List (Source × Document)) (failure : Failure)
    (outcome : Outcome) : Prop where
  code : outcome.code = 2
  output : outcome.output = ""
  errors : ∃ links, failure.Explained tomlFault links ∧ outcome.errors = ": ".intercalate links ++ "\n" ∧
    (∀ name, failure.subject? = some name → ∃ circumstance, links.head? = some (circumstance ++ name)) ∧
    links.getLast? = some (failure.cause tomlFault)
  log : Logged before outcome.log

/-- An outcome reports inputs when it shows the report of each and its code is 1 exactly when unhandled kinds are
refused and a document contains an unhandled node. Then the errors are the complaints, one for each kind of each input,
each ended by a line break, the inputs in order and the kinds of each in the order of their first occurrences; they are
a line each exactly when none of them breaks the line. Otherwise the code is 0 and there are no errors. -/
structure Outcome.Reports (settings : Settings) (inputs : List (Source × Document)) (reports : List FileReport)
    (outcome : Outcome) : Prop where
  described : List.Forall₂ (FileReport.Describes settings.width) inputs reports
  shown : settings.format.Shows reports outcome.output
  refused : outcome.code = 1 ↔ settings.denyUnhandled = true ∧
    ∃ input ∈ inputs, ∃ kind, ∃ step ∈ input.2.steps, step.Contains (.unhandled kind)
  complaints : outcome.code = 1 → outcome.errors = String.join ((complaintsAbout reports).map (· ++ "\n"))
  lines : outcome.code = 1 →
    ((∃ lines, ConsistsOf outcome.errors lines ∧ lines.length = (complaintsAbout reports).length) ↔
      ∀ complaint ∈ complaintsAbout reports, '\n' ∉ complaint.toList)
  accepted : outcome.code ≠ 1 → outcome.code = 0 ∧ outcome.errors = ""
  log : Logged inputs outcome.log

namespace Outcome

variable {settings : Settings} {log : List LogEvent} {loaded : List Loaded}

theorem ofLoaded_refused (hdeny : settings.denyUnhandled = true) (hcomplaints : QueryOutline.complaints loaded ≠ []) :
    ofLoaded settings log loaded =
      ⟨1, showReports settings.format loaded, String.join (QueryOutline.complaints loaded), log⟩ := by
  simp [ofLoaded, hdeny, hcomplaints]

theorem ofLoaded_accepted (h : ¬(settings.denyUnhandled = true ∧ QueryOutline.complaints loaded ≠ [])) :
    ofLoaded settings log loaded = ⟨0, showReports settings.format loaded, "", log⟩ := by
  by_cases hdeny : settings.denyUnhandled = true
  · have hcomplaints : QueryOutline.complaints loaded = [] := not_not.1 fun hne => h ⟨hdeny, hne⟩
    simp [ofLoaded, hcomplaints]
  · simp [ofLoaded, hdeny]

end Outcome

theorem exists_complaint_iff (settings : Settings) (inputs : List (Source × Document)) :
    complaints (loadedInputs settings inputs) ≠ [] ↔
      ∃ input ∈ inputs, ∃ kind, ∃ step ∈ input.2.steps, step.Contains (.unhandled kind) := by
  rw [complaints, loadedInputs, List.flatMap_map, ne_eq, List.flatMap_eq_nil_iff]
  simp only [List.map_eq_nil_iff, not_forall, exists_prop]
  exact exists_congr fun input => and_congr_right fun _ => Outline.unhandledKinds_ne_nil_iff

theorem Outcome.ofLoaded_reports (settings : Settings) (inputs : List (Source × Document)) :
    (ofLoaded settings (loadingEvents inputs) (loadedInputs settings inputs)).Reports settings inputs
      ((loadedInputs settings inputs).map Loaded.report) := by
  have hdescribed := forall₂_describes settings inputs
  have hshown := shows_showReports settings inputs
  have hfound := exists_complaint_iff settings inputs
  have hlog := logged_loadingEvents inputs
  by_cases h : settings.denyUnhandled = true ∧ QueryOutline.complaints (loadedInputs settings inputs) ≠ []
  · rw [ofLoaded_refused h.1 h.2, complaints_eq]
    exact ⟨hdescribed, hshown, iff_of_true rfl ⟨h.1, hfound.1 h.2⟩, fun _ => rfl, fun _ => exists_consistsOf_ended_iff,
      nofun, hlog⟩
  · rw [ofLoaded_accepted h]
    exact ⟨hdescribed, hshown, iff_of_false nofun fun hrefused => h ⟨hrefused.1, hfound.2 hrefused.2⟩, nofun, nofun,
      fun _ => ⟨rfl, rfl⟩, hlog⟩

theorem Outcome.ofFailure_explains {environment : Environment} {args : OutlineArgs} {before : List (Source × Document)}
    {failure : Failure} (h : Fails environment args before failure) :
    (ofFailure environment (loadingEvents before) failure).Explains environment.tomlFault before failure where
  code := rfl
  output := rfl
  errors := ⟨_, h.explained, rfl, fun _ hname => h.explained.names hname, h.explained.ends⟩
  log := logged_loadingEvents before

/-! ## Runs -/

/-- Files and an input, where all directories can be listed and no TOML text is refused. -/
def Environment.plain (files : FileSystem) (input : String) : Environment :=
  ⟨files, fun _ => .ok (), input.toUTF8, fun _ => ""⟩

theorem run_of_parse {environment : Environment} {args : OutlineArgs} {words : List String} {named : Bool}
    (h : CommandLine.parse words = .ok (.outline named args)) :
    run environment words = runOutline environment args := by
  rw [run, h]

/-- **Runs of the outline command.** The code is 2 exactly when a stage fails, and then the outcome explains the
failure. Otherwise all stages pass, and the outcome reports all inputs. -/
theorem run_ends (environment : Environment) {arguments : List String} {named : Bool} {args : OutlineArgs}
    (h : CommandLine.parse arguments = .ok (.outline named args)) :
    ((run environment arguments).code = 2 ↔ ∃ before failure, Fails environment args before failure) ∧
    (∀ before failure, Fails environment args before failure →
      (run environment arguments).Explains environment.tomlFault before failure) ∧
    ((¬∃ before failure, Fails environment args before failure) →
      ∃ settings inputs reports, Loads environment args settings inputs ∧
        (run environment arguments).Reports settings inputs reports) := by
  rw [run_of_parse h]
  have hexplains : ∀ before failure, Fails environment args before failure →
      (runOutline environment args).Explains environment.tomlFault before failure := fun before failure hfails => by
    rw [runOutline_of_fails hfails]
    exact Outcome.ofFailure_explains hfails
  obtain ⟨before, failure, hfails⟩ | ⟨settings, inputs, hloads⟩ := fails_or_loads environment args
  · exact ⟨iff_of_true (hexplains before failure hfails).code ⟨before, failure, hfails⟩, hexplains,
      fun hnone => absurd ⟨before, failure, hfails⟩ hnone⟩
  · have hreports := Outcome.ofLoaded_reports settings inputs
    rw [← runOutline_of_loads hloads] at hreports
    have hcode : (runOutline environment args).code ≠ 2 := fun hcode => by
      have haccepted := (hreports.accepted (by rw [hcode]; decide)).1
      omega
    have hnone : ¬∃ before failure, Fails environment args before failure := fun ⟨before, failure, hfails⟩ =>
      hcode (hexplains before failure hfails).code
    exact ⟨iff_of_false hcode hnone, hexplains, fun _ => ⟨settings, inputs, _, hloads, hreports⟩⟩

/-- Two records and an unhandled node of another kind. -/
def recordsText : String :=
  "\x7b\"variableList\":[\x7b\"kind\":\"Record\"\x7d,\x7b\"kind\":\"Each\"\x7d,\x7b\"kind\":\"Record\"\x7d]\x7d"

/-- These nodes on standard input. -/
def recordsInput : Environment := .plain (.ofWorkingDirectory ["work"]) recordsText

/-- These nodes in a file, another file without a list of steps and a third one that breaks off. -/
def recordsFiles : Environment :=
  .plain ((((FileSystem.ofWorkingDirectory ["work"]).place ["a.json"] (.file recordsText.toUTF8)).place
    ["b.json"] (.file "[]".toUTF8)).place ["c.json"] (.file "[".toUTF8)) ""

theorem recordsInput_ends :
    (CommandLine.parse ["--deny-unhandled"] = .ok (.outline false { OutlineArgs.none with denyUnhandled := true }) ∧
      run recordsInput ["--deny-unhandled"] =
        ⟨1, "Record (Unhandled Node)\nEach (Unhandled Node)\nRecord (Unhandled Node)\n",
          "stdin: unhandled node kind: Record\nstdin: unhandled node kind: Each\n",
          [.references 0, .unhandled "Record", .unhandled "Each"]⟩ ∧
      ∃ settings inputs reports, Loads recordsInput { OutlineArgs.none with denyUnhandled := true } settings inputs ∧
        (run recordsInput ["--deny-unhandled"]).Reports settings inputs reports ∧ settings.denyUnhandled = true ∧
        ∃ input ∈ inputs, ∃ kind, ∃ step ∈ input.2.steps, step.Contains (.unhandled kind)) ∧
    (CommandLine.parse ["b.json", "a.json"] =
        .ok (.outline false { OutlineArgs.none with paths := ["b.json", "a.json"] }) ∧
      run recordsFiles ["b.json", "a.json"] =
        ⟨0, "# a.json\nRecord (Unhandled Node)\nEach (Unhandled Node)\nRecord (Unhandled Node)\n# b.json\n\n", "",
          [.references 0, .unhandled "Record", .unhandled "Each", .references 0]⟩ ∧
      ∃ settings inputs reports, Loads recordsFiles { OutlineArgs.none with paths := ["b.json", "a.json"] } settings
        inputs ∧ (run recordsFiles ["b.json", "a.json"]).Reports settings inputs reports) ∧
    (CommandLine.parse ["a.json", "c.json"] =
        .ok (.outline false { OutlineArgs.none with paths := ["a.json", "c.json"] }) ∧
      run recordsFiles ["a.json", "c.json"] =
        ⟨2, "", "failed to load AST from c.json: invalid AST JSON: EOF while parsing a list at line 1 column 1: " ++
          "EOF while parsing a list at line 1 column 1\n", [.references 0, .unhandled "Record", .unhandled "Each"]⟩ ∧
      ∃ before failure, Fails recordsFiles { OutlineArgs.none with paths := ["a.json", "c.json"] } before failure ∧
        (run recordsFiles ["a.json", "c.json"]).Explains recordsFiles.tomlFault before failure) := by
  have hinput : CommandLine.parse ["--deny-unhandled"] =
      .ok (.outline false { OutlineArgs.none with denyUnhandled := true }) := by decide
  have hfiles : CommandLine.parse ["b.json", "a.json"] =
      .ok (.outline false { OutlineArgs.none with paths := ["b.json", "a.json"] }) := by decide
  have hbroken : CommandLine.parse ["a.json", "c.json"] =
      .ok (.outline false { OutlineArgs.none with paths := ["a.json", "c.json"] }) := by decide
  refine ⟨⟨hinput, ?_⟩, ⟨hfiles, ?_⟩, ⟨hbroken, ?_⟩⟩
  · have hrun : run recordsInput ["--deny-unhandled"] =
        ⟨1, "Record (Unhandled Node)\nEach (Unhandled Node)\nRecord (Unhandled Node)\n",
          "stdin: unhandled node kind: Record\nstdin: unhandled node kind: Each\n",
          [.references 0, .unhandled "Record", .unhandled "Each"]⟩ := by decide +kernel
    obtain ⟨hcode, _, hreports⟩ := run_ends recordsInput hinput
    obtain ⟨settings, inputs, reports, hloads, hreported⟩ :=
      hreports fun h => absurd (hcode.2 h) (by rw [hrun]; decide)
    exact ⟨hrun, settings, inputs, reports, hloads, hreported, hreported.refused.1 (by rw [hrun])⟩
  · have hrun : run recordsFiles ["b.json", "a.json"] =
        ⟨0, "# a.json\nRecord (Unhandled Node)\nEach (Unhandled Node)\nRecord (Unhandled Node)\n# b.json\n\n", "",
          [.references 0, .unhandled "Record", .unhandled "Each", .references 0]⟩ := by decide +kernel
    obtain ⟨hcode, _, hreports⟩ := run_ends recordsFiles hfiles
    exact ⟨hrun, hreports fun h => absurd (hcode.2 h) (by rw [hrun]; decide)⟩
  · have hrun : run recordsFiles ["a.json", "c.json"] =
        ⟨2, "", "failed to load AST from c.json: invalid AST JSON: EOF while parsing a list at line 1 column 1: " ++
          "EOF while parsing a list at line 1 column 1\n",
          [.references 0, .unhandled "Record", .unhandled "Each"]⟩ := by decide +kernel
    obtain ⟨hcode, hexplains, _⟩ := run_ends recordsFiles hbroken
    obtain ⟨before, failure, hfails⟩ := hcode.1 (by rw [hrun])
    exact ⟨hrun, before, failure, hfails, hexplains before failure hfails⟩

/-- A file with one node, whose kind breaks the line. -/
def brokenKindFile : Environment :=
  .plain ((FileSystem.ofWorkingDirectory ["work"]).place ["t.json"]
    (.file "\x7b\"variableList\":[\x7b\"kind\":\"Each\\nRow\"\x7d]\x7d".toUTF8)) ""

/-- The complaint about that kind takes two lines; and where unhandled kinds are not refused, the log still tells it. -/
theorem brokenKindFile_ends :
    run brokenKindFile ["--deny-unhandled", "t.json"] =
      ⟨1, "Each\nRow (Unhandled Node)\n", "t.json: unhandled node kind: Each\nRow\n",
        [.references 0, .unhandled "Each\nRow"]⟩ ∧
    ConsistsOf "t.json: unhandled node kind: Each\nRow\n" ["t.json: unhandled node kind: Each", "Row"] ∧
    (¬∃ lines, ConsistsOf (run brokenKindFile ["--deny-unhandled", "t.json"]).errors lines ∧ lines.length = 1) ∧
    run brokenKindFile ["t.json"] =
      ⟨0, "Each\nRow (Unhandled Node)\n", "", [.references 0, .unhandled "Each\nRow"]⟩ := by
  have hrun : run brokenKindFile ["--deny-unhandled", "t.json"] =
      ⟨1, "Each\nRow (Unhandled Node)\n", "t.json: unhandled node kind: Each\nRow\n",
        [.references 0, .unhandled "Each\nRow"]⟩ := by decide +kernel
  have hlines : ConsistsOf "t.json: unhandled node kind: Each\nRow\n" ["t.json: unhandled node kind: Each", "Row"] :=
    ⟨by decide +kernel, by decide⟩
  refine ⟨hrun, hlines, ?_, by decide +kernel⟩
  rintro ⟨lines, h, hlength⟩
  rw [hrun] at h
  rw [h.unique hlines] at hlength
  cases hlength

end QueryOutline
