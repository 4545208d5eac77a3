import QueryOutline.Proofs.Json.ReadBack
import QueryOutline.Report

/-!
# Reports read back from their JSON texts

The JSON values of reports are taken apart again, so a report is recovered from the text that is printed for it.

* **Values** (`StepReport.ofJson?_toJson`, `FileReport.ofJson?_toJson`): a report is recovered from its JSON value.
* **Texts** (`FileReport.plain_toJson`, `FileReport.depth_toJson`): the value of a report is plain and not deep, so its
  texts are read back; so is the text of an array of reports (`read_reports`).
-/

namespace QueryOutline

theorem mapM_map_some {α β : Type} (decode : β → Option α) (encode : α → β) (h : ∀ a, decode (encode a) = some a) :
    ∀ items : List α, (items.map encode).mapM decode = some items
  | [] => rfl
  | item :: items => by
    rw [List.map_cons, List.mapM_cons, h item, mapM_map_some decode encode h items]
    rfl

/-- The texts of an array of strings. -/
def Json.Value.strings? (value : Json.Value) : Option (List String) := do (← value.array?).mapM Json.Value.string?

theorem Json.Value.strings?_array (texts : List String) :
    (Json.Value.array (texts.map Json.Value.string)).strings? = some texts :=
  mapM_map_some Json.Value.string? Json.Value.string (fun _ => rfl) texts

namespace StepReport

/-- The step report that a JSON value describes. -/
def ofJson? (value : Json.Value) : Option StepReport := do
  let name ← match value.field? "name" with
    | some .null => some none
    | some (.string name) => some (some name)
    | _ => none
  let references ← (← value.field? "references").strings?
  let rendered ← (← value.field? "rendered").string?
  return ⟨name, references, rendered⟩

theorem ofJson?_toJson (report : StepReport) : ofJson? report.toJson = some report := by
  obtain ⟨name, references, rendered⟩ := report
  cases name <;>
    simp [ofJson?, toJson, Json.Value.field?, Keyed.lookup_cons_eq, Json.Value.strings?_array, Json.Value.string?]

end StepReport

namespace FileReport

/-- The file report that a JSON value describes; without a list of unhandled kinds there are none. -/
def ofJson? (value : Json.Value) : Option FileReport := do
  let file ← (← value.field? "file").string?
  let steps ← (← (← value.field? "steps").array?).mapM StepReport.ofJson?
  let unhandledKinds ← match value.field? "unhandled_kinds" with
    | some kinds => kinds.strings?
    | none => some []
  return ⟨file, steps, unhandledKinds⟩

theorem ofJson?_toJson (report : FileReport) : ofJson? report.toJson = some report := by
  obtain ⟨file, steps, kinds⟩ := report
  have hsteps := mapM_map_some StepReport.ofJson? StepReport.toJson StepReport.ofJson?_toJson steps
  cases kinds with
  | nil =>
    simp [ofJson?, toJson, Json.Value.field?, Keyed.lookup_cons_eq, Json.Value.string?, Json.Value.array?, hsteps]
  | cons kind kinds =>
    have hkinds : (Json.Value.array (.string kind :: kinds.map .string)).strings? = some (kind :: kinds) :=
      Json.Value.strings?_array (kind :: kinds)
    simp [ofJson?, toJson, Json.Value.field?, Keyed.lookup_cons_eq, Json.Value.string?, Json.Value.array?, hsteps,
      hkinds]

end FileReport

/-- The file reports in an array. -/
def reports? (value : Json.Value) : Option (List FileReport) := do (← value.array?).mapM FileReport.ofJson?

theorem reports?_array (reports : List FileReport) :
    reports? (.array (reports.map FileReport.toJson)) = some reports :=
  mapM_map_some FileReport.ofJson? FileReport.toJson FileReport.ofJson?_toJson reports

/-! ## Texts -/

section Arrays

variable {α : Type} (encode : α → Json.Value)

theorem plain_array (h : ∀ a, (encode a).Plain) (items : List α) : (Json.Value.array (items.map encode)).Plain :=
  Json.Value.plainItems_iff.2 fun value hvalue => by
    obtain ⟨item, _, rfl⟩ := List.mem_map.1 hvalue
    exact h item

theorem depth_array {n : Nat} (h : ∀ a, (encode a).depth ≤ n) (items : List α) :
    (Json.Value.array (items.map encode)).depth ≤ n + 1 :=
  Nat.succ_le_succ (Json.Value.depthOfItems_le_iff.2 fun value hvalue => by
    obtain ⟨item, _, rfl⟩ := List.mem_map.1 hvalue
    exact h item)

end Arrays

theorem plain_strings (texts : List String) : (Json.Value.array (texts.map Json.Value.string)).Plain :=
  plain_array Json.Value.string (fun _ => trivial) texts

theorem depth_strings (texts : List String) : (Json.Value.array (texts.map Json.Value.string)).depth ≤ 1 :=
  depth_array Json.Value.string (fun _ => Nat.le_refl 0) texts

namespace StepReport

theorem plain_toJson (report : StepReport) : report.toJson.Plain := by
  obtain ⟨name, references, rendered⟩ := report
  have hname : ((name.map Json.Value.string).getD .null).Plain := by cases name <;> exact trivial
  have hkeys : List.Pairwise (· < ·) ["name", "references", "rendered"] := by decide
  exact ⟨hkeys, hname, plain_strings references, trivial, trivial⟩

theorem depth_toJson (report : StepReport) : report.toJson.depth ≤ 2 := by
  obtain ⟨name, references, rendered⟩ := report
  have hname : ((name.map Json.Value.string).getD .null).depth = 0 := by cases name <;> rfl
  have hreferences := depth_strings references
  simp only [toJson, Json.Value.depth, Json.Value.depthOfFields, hname] at hreferences ⊢
  omega

end StepReport

namespace FileReport

theorem plain_toJson (report : FileReport) : report.toJson.Plain := by
  obtain ⟨file, steps, kinds⟩ := report
  have hsteps := plain_array StepReport.toJson StepReport.plain_toJson steps
  cases kinds with
  | nil =>
    have hkeys : List.Pairwise (· < ·) ["file", "steps"] := by decide
    exact ⟨hkeys, trivial, hsteps, trivial⟩
  | cons kind kinds =>
    have hkeys : List.Pairwise (· < ·) ["file", "steps", "unhandled_kinds"] := by decide
    exact ⟨hkeys, trivial, hsteps, plain_strings (kind :: kinds), trivial⟩

theorem depth_toJson (report : FileReport) : report.toJson.depth ≤ 4 := by
  obtain ⟨file, steps, kinds⟩ := report
  have hsteps := depth_array StepReport.toJson StepReport.depth_toJson steps
  have hkinds := depth_strings kinds
  cases kinds <;>
    simp only [toJson, List.isEmpty_nil, List.isEmpty_cons, Bool.false_eq_true, if_true, if_false, List.cons_append,
      List.nil_append, Json.Value.depth, Json.Value.depthOfFields] at hsteps hkinds ⊢ <;>
    omega

end FileReport

/-- **Texts.** An array of reports is read back from its text over several lines. -/
theorem read_reports (reports : List FileReport) :
    Json.read (Json.pretty (.array (reports.map FileReport.toJson)) ++ "\n") =
      .ok (.array (reports.map FileReport.toJson)) := by
  have hdepth := depth_array FileReport.toJson FileReport.depth_toJson reports
  exact Json.read_pretty_line (plain_array FileReport.toJson FileReport.plain_toJson reports) (by omega)

end QueryOutline
