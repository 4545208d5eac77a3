import QueryOutline.Proofs.CommandLine
import QueryOutline.Proofs.Program.Outcome

/-!
# Both formats say the same

The format is used only at the end of a run, where both the text and the JSON come from the same loaded inputs. So two
runs that differ in the format alone end alike, and the text is made of the reports in the JSON.

* **Stages** (`fails_withFormat`, `loads_withFormat`): no stage depends on the format.
* **Runs** (`run_formats_agree`): same code, same errors and same log, and the text is recovered from the JSON.
-/

namespace QueryOutline

section Stages

variable {environment : Environment} {args : OutlineArgs}

/-- A format that is given is the resolved one, and nothing else depends on it. -/
theorem resolveSettings_withFormat (files : FileSystem) (args : OutlineArgs) (format : OutputFormat) :
    resolveSettings files (args.withFormat format) =
      (resolveSettings files args).map fun settings => { settings with format } := by
  have hstart : startDirectory files (args.withFormat format) = startDirectory files args := rfl
  have hconfig : (args.withFormat format).config = args.config := rfl
  have hindent : (args.withFormat format).indent = args.indent := rfl
  rw [resolveSettings, resolveSettings, hstart, hconfig, hindent]
  cases loadConfig files (args.config.map FilePath.mk) (startDirectory files args) with
  | error error => rfl
  | ok loaded =>
    cases args.indent with
    | none => rfl
    | some width =>
      dsimp only
      cases checkWidth width <;> rfl

theorem reads_withFormat {sources : List Source} (h : Reads environment args sources) (format : OutputFormat) :
    Reads environment (args.withFormat format) sources :=
  have hread : readInputs environment args = .ok sources := readInputs_eq_ok_iff.2 h
  readInputs_eq_ok_iff.1 hread

theorem unreadable_withFormat {failure : Failure} (h : Unreadable environment args failure) (format : OutputFormat) :
    Unreadable environment (args.withFormat format) failure :=
  have hread : readInputs environment args = .error failure := readInputs_eq_error_iff.2 h
  readInputs_eq_error_iff.1 hread

theorem prepares_withFormat {settings : Settings} {sources : List Source}
    (h : Prepares environment args settings sources) (format : OutputFormat) :
    Prepares environment (args.withFormat format) { settings with format } sources := by
  have hresolve := resolveSettings_withFormat environment.files args format
  rw [h.settings] at hresolve
  exact ⟨h.working, hresolve, reads_withFormat h.sources format⟩

theorem unprepared_withFormat {failure : Failure} (h : Unprepared environment args failure) (format : OutputFormat) :
    Unprepared environment (args.withFormat format) failure := by
  have hresolve := resolveSettings_withFormat environment.files args format
  rcases h with ⟨hpaths, hworking⟩ | ⟨hworking, hsettings⟩ | ⟨hworking, hsettings, hsources⟩
  · exact .working hpaths hworking
  · rw [hsettings] at hresolve
    exact .settings hworking hresolve
  · rw [hsettings] at hresolve
    exact .sources hworking hresolve (unreadable_withFormat hsources format)

theorem fails_withFormat {before : List (Source × Document)} {failure : Failure}
    (h : Fails environment args before failure) (format : OutputFormat) :
    Fails environment (args.withFormat format) before failure := by
  cases h with
  | unprepared h => exact .unprepared (unprepared_withFormat h format)
  | document hprepares hbefore herror => exact .document (prepares_withFormat hprepares format) hbefore herror

theorem loads_withFormat {settings : Settings} {inputs : List (Source × Document)}
    (h : Loads environment args settings inputs) (format : OutputFormat) :
    Loads environment (args.withFormat format) { settings with format } inputs :=
  ⟨prepares_withFormat h.prepares format, h.documents⟩

end Stages

/-! ## Runs -/

/-- Two outcomes say the same, the one in text and the other in JSON: they have the same code, the same errors and the
same log, and if they are no failures, the text is made of the reports that are read from the JSON. Without reports the
text is empty, and the array too. -/
structure Outcome.SaysSame (text json : Outcome) : Prop where
  code : text.code = json.code
  errors : text.errors = json.errors
  log : text.log = json.log
  output : json.code ≠ 2 →
    ∃ value reports, Json.read json.output = .ok value ∧ reports? value = some reports ∧
      text.output = textOfReports reports ∧ (reports = [] → text.output = "" ∧ json.output = "[]\n")

theorem ofLoaded_saysSame (settings : Settings) (inputs : List (Source × Document)) (log : List LogEvent) :
    (Outcome.ofLoaded { settings with format := .text } log (loadedInputs settings inputs)).SaysSame
      (.ofLoaded { settings with format := .json } log (loadedInputs settings inputs)) := by
  refine ⟨rfl, rfl, rfl, fun _ => ⟨_, _, showReports_json (loadedInputs settings inputs), reports?_array _, ?_, ?_⟩⟩
  · exact showReports_text settings inputs
  · intro hempty
    have hloaded : loadedInputs settings inputs = [] := List.map_eq_nil_iff.1 hempty
    rw [hloaded]
    exact ⟨rfl, rfl⟩

theorem runOutline_saysSame (environment : Environment) (args : OutlineArgs) :
    (runOutline environment (args.withFormat .text)).SaysSame (runOutline environment (args.withFormat .json)) := by
  obtain ⟨_, failure, hfails⟩ | ⟨settings, inputs, hloads⟩ := fails_or_loads environment args
  · rw [runOutline_of_fails (fails_withFormat hfails .text), runOutline_of_fails (fails_withFormat hfails .json)]
    exact ⟨rfl, rfl, rfl, fun hcode => absurd rfl hcode⟩
  · rw [runOutline_of_loads (loads_withFormat hloads .text), runOutline_of_loads (loads_withFormat hloads .json)]
    exact ofLoaded_saysSame settings inputs (loadingEvents inputs)

theorem run_of_stop {environment : Environment} {textWords jsonWords : List String} {stop : CommandLine.Stop}
    (htext : CommandLine.parse textWords = .error stop) (hjson : CommandLine.parse jsonWords = .error stop) :
    run environment textWords = run environment jsonWords := by
  rw [run, run, htext, hjson]

/-- **Runs agree.** Two command lines that ask for the same outline, the one in text and the other in JSON, have
outcomes that say the same. Two command lines of the outline command that differ in the format are such a pair, or both
are refused, with one outcome. -/
theorem run_formats_agree (environment : Environment) :
    (∀ textWords jsonWords named alsoNamed (args : OutlineArgs),
      CommandLine.parse textWords = .ok (.outline named (args.withFormat .text)) →
      CommandLine.parse jsonWords = .ok (.outline alsoNamed (args.withFormat .json)) →
        (run environment textWords).SaysSame (run environment jsonWords)) ∧
    ∀ textWords jsonWords, CommandLine.DifferInFormat textWords jsonWords →
      (run environment textWords).SaysSame (run environment jsonWords) ∨
      ∃ stop, CommandLine.parse textWords = .error stop ∧ CommandLine.parse jsonWords = .error stop ∧
        run environment textWords = run environment jsonWords := by
  refine ⟨fun textWords jsonWords named alsoNamed args htext hjson => ?_, fun textWords jsonWords hwords => ?_⟩
  · rw [run_of_parse htext, run_of_parse hjson]
    exact runOutline_saysSame environment args
  · obtain ⟨_, _, htext, hjson, ⟨named, args⟩⟩ | ⟨stop, htext, hjson⟩ :=
      alike_iff.1 (CommandLine.parse_twin hwords)
    · rw [run_of_parse htext, run_of_parse hjson]
      exact .inl (runOutline_saysSame environment args)
    · exact .inr ⟨stop, htext, hjson, run_of_stop htext hjson⟩

/-- A directory with two files, one of a step and an unhandled node and one without a list of steps. -/
def twoFiles : Environment :=
  .plain (((FileSystem.ofWorkingDirectory ["work"]).place ["a.json"] (.file ("\x7b\"variableList\":[" ++
      "\x7b\"kind\":\"IdentifierPairedExpression\",\"key\":\"s\"\x7d,\x7b\"kind\":\"Each\"\x7d]\x7d").toUTF8)).place
      ["b.json"] (.file "[]".toUTF8)) ""

/-- Both files as arguments, not in order. -/
def twoPaths : OutlineArgs := { OutlineArgs.none with paths := ["b.json", "a.json"] }

theorem twoFiles_formats_agree :
    CommandLine.parse (["b.json"] ++ (CommandLine.formatWords false .text ++ ["a.json"])) =
      .ok (.outline false (twoPaths.withFormat .text)) ∧
    CommandLine.parse ["outline", "b.json", "a.json", "--format=json"] =
      .ok (.outline true (twoPaths.withFormat .json)) ∧
    (∃ value reports, Json.read (run twoFiles ["outline", "b.json", "a.json", "--format=json"]).output = .ok value ∧
      reports? value = some reports ∧
      textOfReports reports =
        "# a.json\ns = Unknown Value\n  - References: None\n\nEach (Unhandled Node)\n# b.json\n\n") ∧
    CommandLine.DifferInFormat (["b.json"] ++ (CommandLine.formatWords false .text ++ ["a.json"]))
      (["b.json"] ++ (CommandLine.formatWords false .json ++ ["a.json"])) ∧
    (run twoFiles (["b.json"] ++ (CommandLine.formatWords false .text ++ ["a.json"]))).SaysSame
      (run twoFiles (["b.json"] ++ (CommandLine.formatWords false .json ++ ["a.json"]))) := by
  have htext : CommandLine.parse (["b.json"] ++ (CommandLine.formatWords false .text ++ ["a.json"])) =
      .ok (.outline false (twoPaths.withFormat .text)) := by decide
  have hjson : CommandLine.parse ["outline", "b.json", "a.json", "--format=json"] =
      .ok (.outline true (twoPaths.withFormat .json)) := by decide
  have hrun : run twoFiles (["b.json"] ++ (CommandLine.formatWords false .text ++ ["a.json"])) =
      ⟨0, "# a.json\ns = Unknown Value\n  - References: None\n\nEach (Unhandled Node)\n# b.json\n\n", "",
        [.references 1, .unhandled "Each", .references 0]⟩ := by
    decide +kernel
  have hdiffer : CommandLine.DifferInFormat (["b.json"] ++ (CommandLine.formatWords false .text ++ ["a.json"]))
      (["b.json"] ++ (CommandLine.formatWords false .json ++ ["a.json"])) :=
    .of ["b.json"] ["a.json"] false (by decide) (by decide)
  obtain ⟨hpairs, hwords⟩ := run_formats_agree twoFiles
  have hsame := hpairs _ _ _ _ _ htext hjson
  obtain ⟨value, reports, hread, hvalue, hreports, _⟩ := hsame.output (by rw [← hsame.code, hrun]; decide)
  refine ⟨htext, hjson, ⟨value, reports, hread, hvalue, ?_⟩, hdiffer, ?_⟩
  · rw [← hreports, hrun]
  · refine (hwords _ _ hdiffer).resolve_right ?_
    rintro ⟨stop, hstop, _⟩
    rw [htext] at hstop
    cases hstop

end QueryOutline
