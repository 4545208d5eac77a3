import Mathlib.Data.List.Forall2
import QueryOutline.Proofs.Report

/-!
# Reports without loss

A file report is printed in two layouts. Both texts are read as the one object that shows the report, and no other
report has either of them.

* **Objects** (`StepReport.ShownBy`, `FileReport.ShownBy`): which fields an object has that shows a report, and what is
  under them; the value of a report shows it (`FileReport.shownBy_toJson`).
* **Uniqueness** (`FileReport.ShownBy.unique`): an object shows at most one report.
* **Texts** (`FileReport.texts_lossless`): both texts of a report are read back, and the report is found again.
-/

namespace QueryOutline

/-- The keys of an object, in the order of its fields. -/
def Json.Value.keys? : Json.Value → Option (List String)
  | .object fields => some (fields.map Prod.fst)
  | _ => none

/-! ## Steps -/

namespace StepReport

/-- The name of a step as a value. -/
def nameValue : Option String → Json.Value
  | some name => .string name
  | none => .null

/-- The value is an object that shows the report of a step. -/
structure ShownBy (report : StepReport) (value : Json.Value) : Prop where
  keys : value.keys? = some ["name", "references", "rendered"]
  name : value.field? "name" = some (nameValue report.name)
  references : value.field? "references" = some (.array (report.references.map .string))
  rendered : value.field? "rendered" = some (.string report.rendered)

theorem shownBy_toJson (report : StepReport) : report.ShownBy report.toJson := by
  have hname : (report.name.map Json.Value.string).getD .null = nameValue report.name := by
    cases report.name <;> rfl
  exact ⟨rfl, congrArg some hname, rfl, rfl⟩

theorem nameValue_injective : Function.Injective nameValue := by
  intro name other h
  cases name <;> cases other <;> cases h <;> rfl

end StepReport

/-- Different lists of strings are different arrays. -/
theorem array_strings_injective : Function.Injective fun texts : List String => Json.Value.array (texts.map .string) :=
  fun _ _ h => List.map_injective_iff.2 (fun _ _ => Json.Value.string.inj) (Json.Value.array.inj h)

theorem StepReport.ShownBy.unique {report other : StepReport} {value : Json.Value} (h : report.ShownBy value)
    (hother : other.ShownBy value) : report = other := by
  have hname : report.name = other.name :=
    StepReport.nameValue_injective (Option.some.inj (h.name.symm.trans hother.name))
  have hreferences : report.references = other.references :=
    array_strings_injective (Option.some.inj (h.references.symm.trans hother.references))
  have hrendered : report.rendered = other.rendered :=
    Json.Value.string.inj (Option.some.inj (h.rendered.symm.trans hother.rendered))
  cases report
  cases other
  simp only [StepReport.mk.injEq]
  exact ⟨hname, hreferences, hrendered⟩

/-! ## Files -/

namespace FileReport

/-- The value is an object that shows the report of a file: its steps in order, and its unhandled kinds when there are
any. -/
structure ShownBy (report : FileReport) (value : Json.Value) : Prop where
  keys : value.keys? =
    some (if report.unhandledKinds = [] then ["file", "steps"] else ["file", "steps", "unhandled_kinds"])
  file : value.field? "file" = some (.string report.file)
  steps : ∃ items, value.field? "steps" = some (.array items) ∧ List.Forall₂ StepReport.ShownBy report.steps items
  unhandledKinds : value.field? "unhandled_kinds" =
    if report.unhandledKinds = [] then none else some (.array (report.unhandledKinds.map .string))

theorem shownBy_toJson (report : FileReport) : report.ShownBy report.toJson := by
  obtain ⟨file, steps, kinds⟩ := report
  have hsteps : List.Forall₂ StepReport.ShownBy steps (steps.map StepReport.toJson) :=
    List.forall₂_map_right_iff.2 (List.forall₂_same.2 fun step _ => step.shownBy_toJson)
  cases kinds with
  | nil => exact ⟨rfl, rfl, ⟨_, rfl, hsteps⟩, rfl⟩
  | cons kind kinds => exact ⟨rfl, rfl, ⟨_, rfl, hsteps⟩, rfl⟩

/-- **Uniqueness.** An object shows at most one report. -/
theorem ShownBy.unique {report other : FileReport} {value : Json.Value} (h : report.ShownBy value)
    (hother : other.ShownBy value) : report = other := by
  have hfile : report.file = other.file :=
    Json.Value.string.inj (Option.some.inj (h.file.symm.trans hother.file))
  have hsteps : report.steps = other.steps := by
    obtain ⟨items, hitems, hshown⟩ := h.steps
    obtain ⟨others, hothers, hshown'⟩ := hother.steps
    obtain rfl := Json.Value.array.inj (Option.some.inj (hitems.symm.trans hothers))
    have hunique : Relator.LeftUnique StepReport.ShownBy := fun _ _ _ => StepReport.ShownBy.unique
    exact List.left_unique_forall₂' hunique hshown hshown'
  have hkinds : report.unhandledKinds = other.unhandledKinds := by
    have hsame := h.unhandledKinds.symm.trans hother.unhandledKinds
    split at hsame <;> split at hsame
    · rename_i hnone hnone'
      rw [hnone, hnone']
    · cases hsame
    · cases hsame
    · exact array_strings_injective (Option.some.inj hsame)
  cases report
  cases other
  simp only [FileReport.mk.injEq]
  exact ⟨hfile, hsteps, hkinds⟩

/-! ## Texts -/

/-- The texts of a report: without blanks, and over several lines. -/
def texts (report : FileReport) : List String := [Json.compact report.toJson, Json.pretty report.toJson]

/-- The report that a JSON text shows. -/
def ofText? (text : String) : Option FileReport :=
  match Json.read text with
  | .ok value => ofJson? value
  | .error _ => none

/-- Both texts are read as the value of the report. -/
theorem read_of_mem_texts {report : FileReport} : ∀ text ∈ report.texts, Json.read text = .ok report.toJson := by
  have hdepth : report.toJson.depth ≤ 127 := Nat.le_trans report.depth_toJson (by decide)
  exact List.forall_mem_cons.2 ⟨Json.read_compact report.plain_toJson hdepth,
    List.forall_mem_singleton.2 (Json.read_pretty report.plain_toJson hdepth)⟩

/-- **Texts without loss.** Both texts of a report are read as one value, an object that shows the report. So the report
is found again from either text, and no other report has the same text in either layout. -/
theorem texts_lossless (report : FileReport) :
    (∃ value, report.ShownBy value ∧ ∀ text ∈ report.texts, Json.read text = .ok value) ∧
    (∀ text ∈ report.texts, ofText? text = some report) ∧
    ∀ text ∈ report.texts, ∀ other : FileReport, text ∈ other.texts → other = report := by
  refine ⟨⟨report.toJson, report.shownBy_toJson, read_of_mem_texts⟩, fun text htext => ?_,
    fun text htext other hother => ?_⟩
  · rw [ofText?, read_of_mem_texts text htext]
    exact report.ofJson?_toJson
  · have hvalue : other.toJson = report.toJson :=
      Except.ok.inj ((read_of_mem_texts text hother).symm.trans (read_of_mem_texts text htext))
    exact other.shownBy_toJson.unique (hvalue ▸ report.shownBy_toJson)

/-- A report full of characters that have to be escaped, with a step that has no name. -/
def escapedReport : FileReport :=
  ⟨"a\"b\\c.json", [⟨some "é\t", [], "é = 1\n"⟩, ⟨none, ["\x01", "/"], ""⟩], ["Each"]⟩

theorem escapedReport_texts_lossless :
    Json.compact escapedReport.toJson ∈ escapedReport.texts ∧ Json.pretty escapedReport.toJson ∈ escapedReport.texts ∧
    Json.read (Json.compact escapedReport.toJson) = Json.read (Json.pretty escapedReport.toJson) ∧
    ofText? (Json.pretty escapedReport.toJson) = some escapedReport ∧
    Json.pretty escapedReport.toJson ∉ texts { escapedReport with unhandledKinds := [] } := by
  have hcompact : Json.compact escapedReport.toJson ∈ escapedReport.texts := List.mem_cons_self
  have hpretty : Json.pretty escapedReport.toJson ∈ escapedReport.texts := List.mem_cons_of_mem _ List.mem_cons_self
  obtain ⟨⟨value, _, hread⟩, hfound, hunique⟩ := escapedReport.texts_lossless
  refine ⟨hcompact, hpretty, (hread _ hcompact).trans (hread _ hpretty).symm, hfound _ hpretty, fun hother => ?_⟩
  have hsame : { escapedReport with unhandledKinds := [] } = escapedReport := hunique _ hpretty _ hother
  exact absurd hsame (by decide)

end FileReport

end QueryOutline
