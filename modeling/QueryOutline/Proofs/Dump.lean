import Mathlib.Data.List.Forall2
import QueryOutline.Dump
import QueryOutline.Proofs.Json.ReadBack
import QueryOutline.Proofs.Node.Places
import QueryOutline.Proofs.Text.Lines

/-!
# The lines of a dump

The dump of a document prints its nodes in preorder. What is printed of a node ends with a line break and has no other
one, but for those in the kind of an unhandled node.

* **Nodes** (`lines_eq_preorder`): one text for each node, in preorder, indented by the length of its place.
* **Line breaks** (`breaks_treeText`): as many as there are nodes, and those in the kinds.
* **Lines** (`treeText_lines`): one line for each node exactly when no kind has a line break.
-/

namespace QueryOutline

namespace Dump

/-! ## The lines of a node -/

theorem linesOption_eq (level : Nat) : ∀ node?, linesOption level node? = node?.toList.flatMap (lines level)
  | none => rfl
  | some node => by simp [linesOption]

theorem linesList_eq (level : Nat) : ∀ nodes, linesList level nodes = nodes.flatMap (lines level)
  | [] => rfl
  | node :: nodes => by rw [linesList, linesList_eq level nodes, List.flatMap_cons]

/-- A node's own line comes first, then the lines of its children. -/
theorem lines_eq (level : Nat) (node : Node) :
    lines level node = line level node :: node.children.flatMap (lines (level + 1)) := by
  cases node <;> simp [lines, Node.children, linesOption_eq, linesList_eq]

/-- **Nodes.** The lines are those of all nodes in preorder. -/
theorem lines_eq_preorder (node : Node) : ∀ level,
    lines level node = node.preorder.map fun x => line (level + x.1.length) x.2 := by
  -- for all levels, since the children are one level deeper
  induction node using Node.induction_children with
  | step node ih =>
    intro level
    rw [lines_eq, Node.preorder_eq, List.map_cons, List.map_flatMap, ← flatMap_zipIdx]
    congr 1
    refine List.flatMap_congr fun numbered hnumbered => ?_
    rw [ih numbered.1 (List.fst_mem_of_mem_zipIdx hnumbered), List.map_map]
    refine List.map_congr_left fun x _ => ?_
    rw [Function.comp_apply, Prod.map_fst, Prod.map_snd, List.length_cons, id_eq, Nat.add_assoc, Nat.add_comm 1]

/-- What is printed of a node on its level, without the line break at the end. -/
def shown (level : Nat) (node : Node) : String :=
  String.ofList (List.replicate (2 * level) ' ') ++ node.kind ++ ("  \"" ++ summary node ++ "\"")

theorem line_eq (level : Nat) (node : Node) : line level node = shown level node ++ "\n" := by
  have hend : "\"\n" = "\"" ++ "\n" := rfl
  simp only [line, shown, String.append_assoc, hend]

theorem notMem_showBreaks (text : List Char) : '\n' ∉ showBreaks text := by
  intro h
  obtain ⟨c, _, hc⟩ := List.mem_flatMap.1 h
  split at hc
  · simp at hc
  · rename_i hne
    exact hne (List.mem_singleton.1 hc).symm

/-- Only the kind can break the line of a node. -/
theorem notMem_rest (node : Node) : '\n' ∉ ("  \"" ++ summary node ++ "\"").toList := by
  have hsummary : '\n' ∉ (summary node).toList := by
    rw [summary, String.toList_ofList]
    exact notMem_showBreaks _
  simp [hsummary]

theorem breaks_shown (level : Nat) (node : Node) : breaks (shown level node) = breaks node.kind := by
  have hblanks : breaks (String.ofList (List.replicate (2 * level) ' ')) = 0 :=
    breaks_eq_zero.2 (by simp [List.mem_replicate])
  rw [shown, breaks_append, breaks_append, hblanks, breaks_eq_zero.2 (notMem_rest node), Nat.zero_add, Nat.add_zero]

theorem breaks_name (kind : Kind) : breaks kind.name = 0 := by cases kind <;> decide

/-- Only a kind that is not listed can break a line. -/
theorem exists_of_breaks_kind {node : Node} (h : breaks node.kind ≠ 0) : ∃ kind, node = .unhandled kind := by
  cases node with
  | unhandled kind => exact ⟨kind, rfl⟩
  | text text =>
    have htext : breaks (Node.text text).kind = 0 := show breaks "Text" = 0 by decide
    exact absurd htext h
  | _ => simp [Node.kind, breaks_name] at h

/-! ## The lines of a document -/

/-- The nodes of all steps of a document in preorder, with their places in the steps. -/
def nodes (document : Document) : List (List Nat × Node) := document.steps.flatMap Node.preorder

/-- The part of a document's dump that shows its nodes. -/
def treeText (document : Document) : String := String.join (linesList 0 document.steps)

/-- No kind of a node of the document breaks a line. -/
def KindsUnbroken (document : Document) : Prop :=
  ∀ step ∈ document.steps, ∀ kind, step.Contains (.unhandled kind) → '\n' ∉ kind.toList

section Document

variable (document : Document)

/-- The texts of the nodes of a document. -/
def shownNodes : List String := (nodes document).map fun x => shown x.1.length x.2

theorem treeText_eq : treeText document = String.join ((shownNodes document).map (· ++ "\n")) := by
  rw [treeText, linesList_eq, shownNodes, nodes, List.map_map, List.map_flatMap]
  congr 1
  refine List.flatMap_congr fun step _ => ?_
  rw [lines_eq_preorder]
  exact List.map_congr_left fun x _ => by rw [Nat.zero_add, line_eq, Function.comp_apply]

/-- The texts of the nodes break the line as often as the kinds do. -/
theorem breaks_shownNodes :
    breaks (String.join (shownNodes document)) = breaks (String.join ((nodes document).map fun x => x.2.kind)) := by
  rw [shownNodes]
  induction nodes document with
  | nil => rfl
  | cons x rest ih => rw [List.map_cons, List.map_cons, breaks_join_cons, breaks_join_cons, breaks_shown, ih]

/-- **Line breaks.** There is one for each node, and there are those in the kinds. -/
theorem breaks_treeText :
    breaks (treeText document) =
      (nodes document).length + breaks (String.join ((nodes document).map fun x => x.2.kind)) := by
  rw [treeText_eq, breaks_join_ended, breaks_shownNodes, shownNodes, List.length_map]

theorem kindsUnbroken_iff :
    KindsUnbroken document ↔ breaks (String.join ((nodes document).map fun x => x.2.kind)) = 0 := by
  rw [breaks_join_eq_zero, List.forall_mem_map]
  constructor
  · rintro h ⟨place, node⟩ hmem
    by_contra hbreaks
    obtain ⟨kind, rfl⟩ := exists_of_breaks_kind hbreaks
    obtain ⟨step, hstep, hmem⟩ := List.mem_flatMap.1 hmem
    have hcontains : step.Contains (.unhandled kind) := by
      rw [← Node.mem_visited_all, Node.visited_all]
      exact List.mem_map_of_mem hmem
    exact hbreaks (breaks_eq_zero.2 (h step hstep kind hcontains))
  · intro h step hstep kind hcontains
    rw [← Node.mem_visited_all, Node.visited_all] at hcontains
    obtain ⟨x, hmem, hx⟩ := List.mem_map.1 hcontains
    have hbreaks := h x (List.mem_flatMap.2 ⟨step, hstep, hmem⟩)
    rw [hx] at hbreaks
    exact breaks_eq_zero.1 hbreaks

/-- No kind breaks a line when no text of a node does. -/
theorem kindsUnbroken_iff_shownNodes :
    KindsUnbroken document ↔ ∀ text ∈ shownNodes document, '\n' ∉ text.toList := by
  rw [kindsUnbroken_iff, ← breaks_shownNodes, breaks_join_eq_zero]
  exact forall₂_congr fun text _ => breaks_eq_zero

/-- When no kind breaks a line, the lines of the text are the texts of the nodes. -/
theorem consistsOf_shownNodes (h : KindsUnbroken document) :
    ConsistsOf (treeText document) (shownNodes document) :=
  ⟨treeText_eq document, (kindsUnbroken_iff_shownNodes document).1 h⟩

/-- One line for each node is possible only when no kind breaks a line. -/
theorem exists_consistsOf_iff :
    (∃ lines, ConsistsOf (treeText document) lines ∧ lines.length = (nodes document).length) ↔
      KindsUnbroken document := by
  have hlength : (shownNodes document).length = (nodes document).length := List.length_map _
  rw [treeText_eq, ← hlength, kindsUnbroken_iff_shownNodes]
  exact exists_consistsOf_ended_iff

end Document

/-- **Lines.** The dump shows the nodes of the document in preorder, each by two blanks for each level, its kind, and a
rest without a line break, and ends the line after each. So it has as many line breaks as there are nodes, and those in
the kinds. It consists of one line for each node exactly when no kind breaks a line; then its lines are those of the
nodes, and no others. -/
theorem treeText_lines (document : Document) :
    documentText document =
      (if document.hasVariableList then "" else "(no variableList)\n") ++ treeText document ∧
    ((nodes document).map Prod.snd = document.steps.flatMap (Node.visited fun _ => true) ∧
      ∀ step : Node, step.preorder.Pairwise (fun a b => a.1 < b.1) ∧
        ∀ place node, (place, node) ∈ step.preorder ↔ step.at? place = some node) ∧
    (treeText document = String.join ((shownNodes document).map (· ++ "\n")) ∧
      List.Forall₂ (fun text x => ∃ rest, '\n' ∉ rest.toList ∧
        text = String.ofList (List.replicate (2 * x.1.length) ' ') ++ x.2.kind ++ rest)
        (shownNodes document) (nodes document)) ∧
    breaks (treeText document) =
      (nodes document).length + breaks (String.join ((nodes document).map fun x => x.2.kind)) ∧
    ((∃ lines, ConsistsOf (treeText document) lines ∧ lines.length = (nodes document).length) ↔
      KindsUnbroken document) ∧
    (KindsUnbroken document → ∀ lines, ConsistsOf (treeText document) lines ↔ lines = shownNodes document) := by
  refine ⟨rfl, ⟨?_, fun step => ⟨step.preorder_pairwise, fun place node => Node.mem_preorder⟩⟩,
    ⟨treeText_eq document, ?_⟩, breaks_treeText document, exists_consistsOf_iff document, fun h lines => ⟨?_, ?_⟩⟩
  · rw [nodes, List.map_flatMap]
    exact List.flatMap_congr fun step _ => (Node.visited_all step).symm
  · rw [shownNodes, List.forall₂_map_left_iff, List.forall₂_same]
    exact fun x _ => ⟨_, notMem_rest x.2, rfl⟩
  · intro hlines
    exact hlines.unique (consistsOf_shownNodes document h)
  · rintro rfl
    exact consistsOf_shownNodes document h

/-- A sum of two texts under a name, and a node that is not listed. All texts but the kind have line breaks. -/
def brokenTexts : Document :=
  .ofSteps
    [.step (some "two\nlines") (some (.arithmetic (some (.text "a\nb")) (some "+\n") (some (.literal (.string "\n"))))),
      .unhandled "Each"]

theorem brokenTexts_lines :
    KindsUnbroken brokenTexts ∧
    shownNodes brokenTexts =
      ["IdentifierPairedExpression  \"two\\nlines\"", "  ArithmeticExpression  \"+\\n\"", "    Text  \"a\\nb\"",
        "    LiteralExpression  \"\\n\"", "Each  \"\""] ∧
    (∃ lines, ConsistsOf (treeText brokenTexts) lines ∧ lines.length = (nodes brokenTexts).length) ∧
    ConsistsOf (treeText brokenTexts) (shownNodes brokenTexts) := by
  have hkinds : KindsUnbroken brokenTexts := (kindsUnbroken_iff brokenTexts).2 (by decide +kernel)
  obtain ⟨_, _, _, _, hexists, hlines⟩ := treeText_lines brokenTexts
  exact ⟨hkinds, by decide +kernel, hexists.2 hkinds, (hlines hkinds _).2 rfl⟩

/-- A list of one node whose kind has a line break. -/
def brokenKind : Json.Value :=
  .object [("variableList", .array [.object [("kind", .string "Each\nRow")]])]

/-- The node is shown on two lines. -/
theorem brokenKind_lines :
    readDocument (Json.compact brokenKind) = .ok (.ofSteps [.unhandled "Each\nRow"]) ∧
    (nodes (.ofSteps [.unhandled "Each\nRow"])).length = 1 ∧
    ConsistsOf (treeText (.ofSteps [.unhandled "Each\nRow"])) ["Each", "Row  \"\""] ∧
    ¬∃ lines, ConsistsOf (treeText (.ofSteps [.unhandled "Each\nRow"])) lines ∧ lines.length = 1 := by
  have hread : readJson (Json.compact brokenKind) = .ok brokenKind := readJson_compact (by decide) (by decide)
  have hlist : variableList? brokenKind = brokenKind.field? "variableList" := by
    rw [variableList?, searchQueue]
    rfl
  have hlines : ConsistsOf (treeText (.ofSteps [.unhandled "Each\nRow"])) ["Each", "Row  \"\""] :=
    ⟨by decide +kernel, by decide⟩
  refine ⟨?_, by decide +kernel, hlines, ?_⟩
  · rw [readDocument, hread]
    show Document.ofJson brokenKind = _
    rw [brokenKind, Document.ofJson, ← brokenKind, hlist]
    rfl
  · rintro ⟨lines, hother, hlength⟩
    rw [hother.unique hlines] at hlength
    cases hlength

end Dump

end QueryOutline
