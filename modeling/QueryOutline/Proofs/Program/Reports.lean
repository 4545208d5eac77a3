import QueryOutline.Proofs.Program.Loading
import QueryOutline.Proofs.Render.ReferenceLine
import QueryOutline.Proofs.Report.Lossless
import QueryOutline.Proofs.Text.Lines

/-!
# What is shown of loaded inputs

The output shows a report for each input, in order, and the complaints about unhandled kinds go to the errors.

* **Reports** (`FileReport.Describes`, `forall₂_describes`): what the report of an input says.
* **Output** (`OutputFormat.Shows`, `shows_showReports`): the text has the headings and the texts of all steps, the
  inputs in order; the JSON is read back as an array of objects that show the reports.
* **Complaints** (`complaints_eq`): one for each kind of each input, in order.
-/

namespace QueryOutline

/-! ## Reports -/

/-- The report of a step has its name, if it declares one, the references of that name, and its text. -/
structure StepReport.Describes (map : ReferenceMap) (width : Nat) (step : Node) (report : StepReport) : Prop where
  name : report.name = step.asStep?.map Prod.fst
  references : report.references = (report.name.map map.get).getD []
  rendered : report.rendered = step.render map width 0

/-- The report of a file has its name, the reports of all steps of the document in order, and its unhandled kinds, each
once, in the order of their first occurrences. -/
structure FileReport.Describes (width : Nat) (input : Source × Document) (report : FileReport) : Prop where
  file : report.file = input.1.file
  steps : List.Forall₂ (StepReport.Describes (ReferenceMap.ofDocument input.2) width) input.2.steps report.steps
  unhandledKinds : Names.FirstOccurrences report.unhandledKinds input.2.unhandled

theorem FileReport.describes_ofDocument (width : Nat) (input : Source × Document) :
    FileReport.Describes width input (Loaded.ofDocument width input.1 input.2).report where
  file := rfl
  steps := List.forall₂_map_right_iff.2 (List.forall₂_same.2 fun _ _ => ⟨rfl, rfl, rfl⟩)
  unhandledKinds := (Outline.ofDocument input.2).unhandledKinds_firstOccurrences

theorem forall₂_describes (settings : Settings) (inputs : List (Source × Document)) :
    List.Forall₂ (FileReport.Describes settings.width) inputs
      ((loadedInputs settings inputs).map Loaded.report) := by
  rw [loadedInputs, List.map_map]
  exact List.forall₂_map_right_iff.2 (List.forall₂_same.2 fun input _ => FileReport.describes_ofDocument _ input)

/-! ## Output -/

/-- The text output that says what the reports say: for each report a heading with its file, when there are several,
and the texts of its steps. -/
def textOfReports (reports : List FileReport) : String :=
  String.join (reports.map fun report =>
    (if 1 < reports.length then "# " ++ report.file ++ "\n" else "") ++
      "\n".intercalate (report.steps.map StepReport.rendered) ++ "\n")

theorem showReports_text (settings : Settings) (inputs : List (Source × Document)) :
    showReports .text (loadedInputs settings inputs) =
      textOfReports ((loadedInputs settings inputs).map Loaded.report) := by
  have htext : ∀ input ∈ loadedInputs settings inputs,
      input.text = "\n".intercalate (input.report.steps.map StepReport.rendered) := by
    intro input hinput
    obtain ⟨⟨source, document⟩, _, rfl⟩ := List.mem_map.1 hinput
    exact Outline.text_eq_rendered _
  rw [showReports, textOfReports, List.map_map, List.length_map]
  congr 1
  exact List.map_congr_left fun input hinput => by rw [htext input hinput]; rfl

theorem showReports_json (loaded : List Loaded) :
    Json.read (showReports .json loaded) = .ok (.array ((loaded.map Loaded.report).map FileReport.toJson)) := by
  rw [showReports, ← read_reports, List.map_map]
  rfl

/-- The output shows the reports in order: as a text with the heading and the steps of each, or as a JSON array with an
object for each. -/
inductive OutputFormat.Shows (reports : List FileReport) : OutputFormat → String → Prop where
  | text : Shows reports .text (textOfReports reports)
  | json {output : String} {items : List Json.Value} (hread : Json.read output = .ok (.array items))
    (hitems : List.Forall₂ FileReport.ShownBy reports items) : Shows reports .json output

theorem shows_showReports (settings : Settings) (inputs : List (Source × Document)) :
    settings.format.Shows ((loadedInputs settings inputs).map Loaded.report)
      (showReports settings.format (loadedInputs settings inputs)) := by
  cases settings.format with
  | text =>
    rw [showReports_text]
    exact .text
  | json =>
    refine .json (showReports_json _) ?_
    exact List.forall₂_map_right_iff.2 (List.forall₂_same.2 fun report _ => report.shownBy_toJson)

/-! ## Complaints -/

/-- The complaint about an unhandled kind in a file. -/
def complaint (file kind : String) : String := file ++ ": unhandled node kind: " ++ kind

/-- The complaints about the unhandled kinds of all files. -/
def complaintsAbout (reports : List FileReport) : List String :=
  reports.flatMap fun report => report.unhandledKinds.map (complaint report.file)

theorem complaints_eq (loaded : List Loaded) :
    complaints loaded = (complaintsAbout (loaded.map Loaded.report)).map (· ++ "\n") := by
  rw [complaints, complaintsAbout, List.flatMap_map, List.map_flatMap]
  refine List.flatMap_congr fun input _ => ?_
  rw [List.map_map]
  rfl

end QueryOutline
