import Mathlib.Data.List.Basic
import QueryOutline.Proofs.Keyed
import QueryOutline.Proofs.References
import QueryOutline.Proofs.Render.Layout
import QueryOutline.Proofs.Render.Width

/-!
# Wrappers are transparent

`Node.strip` removes every wrapper around a node, at every depth; a wrapper of nothing stays.

* **Rendering** (`Node.render_strip`), **identifiers** (`Node.collectIdentifiers_strip`), **unhandled kinds**
  (`Node.unhandledKinds_strip`) and **declarations** (`Node.asStep?_strip`) do not change.
* **Outlines** (`Outline.strip_transparent`): so nothing that is reported of a list of steps changes.
-/

namespace QueryOutline

namespace Node

mutual

/-- The node without the wrappers around nodes, at every depth. -/
def strip : Node → Node
  | step key value => step key (stripOption value)
  | letBlock steps => letBlock (stripList steps)
  | list elements => list (stripList elements)
  | function parameters body => function (stripList parameters) (stripOption body)
  | arithmetic left operator right => arithmetic (stripOption left) operator (stripOption right)
  | chain head tails => chain (stripOption head) (stripList tails)
  | invoke content => invoke (stripOption content)
  | group elements => group (stripList elements)
  | wrapper (some inner) => strip inner
  | wrapper none => wrapper none
  | identifier name => identifier name
  | literal value => literal value
  | unhandled kind => unhandled kind
  | text t => text t
termination_by structural node => node

def stripOption : Option Node → Option Node
  | none => none
  | some node => some (strip node)
termination_by structural node => node

def stripList : List Node → List Node
  | [] => []
  | node :: nodes => strip node :: stripList nodes
termination_by structural nodes => nodes

end

theorem stripOption_eq : ∀ node?, stripOption node? = node?.map strip
  | none => rfl
  | some _ => rfl

theorem stripList_eq : ∀ nodes, stripList nodes = nodes.map strip
  | [] => rfl
  | node :: nodes => by rw [stripList, stripList_eq nodes, List.map_cons]

/-! ## Nodes that go and nodes that stay -/

/-- The node is a wrapper around a node, which goes. -/
def Wraps (node : Node) : Prop := ∃ inner, node = .wrapper (some inner)

theorem eq_none_of_stays {inner? : Option Node} (h : ¬(Node.wrapper inner?).Wraps) : inner? = none := by
  cases inner? with
  | none => rfl
  | some inner => exact absurd ⟨inner, rfl⟩ h

/-- Induction that goes through wrappers, and from the nodes that stay to their children. -/
theorem induction_wrappers {P : Node → Prop} (wraps : ∀ inner, P inner → P (.wrapper (some inner)))
    (stays : ∀ node, ¬node.Wraps → (∀ child ∈ node.children, P child) → P node) (node : Node) : P node := by
  induction node using induction_children with
  | step node ih =>
    by_cases h : node.Wraps
    · obtain ⟨inner, rfl⟩ := h
      exact wraps inner (ih inner List.mem_cons_self)
    · exact stays node h ih

/-- The piece with another child in its place. -/
def Piece.mapChild (f : Node → Node) : Piece → Piece
  | fixed s => fixed s
  | indent => indent
  | child node deeper => child (f node) deeper

theorem mapChild_fixed (f : Node → Node) (s : String) : (Piece.fixed s).mapChild f = .fixed s := rfl

theorem mapChild_indent (f : Node → Node) : Piece.indent.mapChild f = .indent := rfl

theorem mapChild_part (f : Node → Node) (deeper : Nat) (placeholder : String) (node? : Option Node) :
    (Piece.part deeper placeholder node?).mapChild f = Piece.part deeper placeholder (node?.map f) := by
  cases node? <;> rfl

theorem map_commaSeparated (f : Node → Node) (nodes : List Node) :
    (Piece.commaSeparated nodes).map (Piece.mapChild f) = Piece.commaSeparated (nodes.map f) := by
  rw [Piece.commaSeparated, map_intersperse, List.map_map, Piece.commaSeparated, List.map_map]
  rfl

theorem map_children (f : Node → Node) (nodes : List Node) :
    (nodes.map (Piece.child · 1)).map (Piece.mapChild f) = (nodes.map f).map (Piece.child · 1) := by
  rw [List.map_map, List.map_map]
  rfl

section Stays

variable {node : Node} (h : ¬node.Wraps)
include h

/-- The children of a node that stays are stripped. -/
theorem children_strip : node.strip.children = node.children.map strip := by
  cases node <;>
    simp only [strip, children, stripOption_eq, stripList_eq, List.map_append, Option.toList_map, List.map_nil]
  case wrapper inner =>
    obtain rfl := eq_none_of_stays h
    rfl

/-- ... and so are the children in its layout. -/
theorem layout_strip (references : ReferenceMap) :
    node.strip.layout references = (node.layout references).map (Piece.mapChild strip) := by
  cases node <;>
    simp only [strip, layout, stripOption_eq, stripList_eq, List.map_append, List.map_cons, List.map_nil,
      mapChild_fixed, mapChild_indent, mapChild_part, map_commaSeparated, map_children]
  case wrapper inner =>
    obtain rfl := eq_none_of_stays h
    rfl

theorem unwrap_of_stays : node.unwrap = node := by
  cases node with
  | wrapper inner =>
    obtain rfl := eq_none_of_stays h
    rfl
  | _ => rfl

end Stays

/-! ## What does not change -/

theorem render_strip (references : ReferenceMap) (width : Nat) (node : Node) : ∀ depth,
    node.strip.render references width depth = node.render references width depth := by
  induction node using induction_wrappers with
  | wraps inner ih => exact ih
  | stays node h ih =>
    intro depth
    rw [render_eq_layout, render_eq_layout, layout_strip h, List.map_map]
    congr 1
    refine List.map_congr_left fun piece hpiece => ?_
    cases piece with
    | fixed s => rfl
    | indent => rfl
    | child child deeper => exact ih child (mem_children_of_mem_layout hpiece) _

/-- A walk tells the same of a stripped node when wrappers have nothing to tell and do not stop it, and when a node that
stays tells the same and is passed alike. -/
theorem filterMap_visited_strip {α : Type} {descend : Node → Bool} {tell : Node → Option α}
    (hwraps : ∀ inner, tell (.wrapper (some inner)) = none ∧ descend (.wrapper (some inner)) = true)
    (hstays : ∀ node : Node, ¬node.Wraps → tell node.strip = tell node ∧ descend node.strip = descend node)
    (node : Node) : (node.strip.visited descend).filterMap tell = (node.visited descend).filterMap tell := by
  induction node using induction_wrappers with
  | wraps inner ih =>
    rw [visited_eq descend (.wrapper (some inner)), if_pos (hwraps inner).2, List.filterMap_cons_none (hwraps inner).1]
    show (inner.strip.visited descend).filterMap tell = _
    rw [ih]
    simp [children]
  | stays node h ih =>
    obtain ⟨htell, hdescend⟩ := hstays node h
    have hbelow : (node.strip.children.flatMap (visited descend)).filterMap tell =
        (node.children.flatMap (visited descend)).filterMap tell := by
      rw [children_strip h, List.flatMap_map, List.filterMap_flatMap, List.filterMap_flatMap]
      exact List.flatMap_congr ih
    rw [visited_eq descend node.strip, visited_eq descend node, hdescend]
    cases descend node with
    | true => simp only [if_true, List.filterMap_cons, htell, hbelow]
    | false => simp only [Bool.false_eq_true, if_false, List.filterMap_cons, htell, List.filterMap_nil]

theorem collectIdentifiers_strip (node : Node) : node.strip.collectIdentifiers = node.collectIdentifiers := by
  refine filterMap_visited_strip (fun _ => ⟨rfl, rfl⟩) (fun node h => ?_) node
  cases node with
  | wrapper inner =>
    obtain rfl := eq_none_of_stays h
    exact ⟨rfl, rfl⟩
  | _ => exact ⟨rfl, rfl⟩

theorem unhandledKinds_strip (node : Node) : node.strip.unhandledKinds = node.unhandledKinds := by
  refine congrArg Names.dedup (filterMap_visited_strip (fun _ => ⟨rfl, rfl⟩) (fun node h => ?_) node)
  cases node with
  | wrapper inner =>
    obtain rfl := eq_none_of_stays h
    exact ⟨rfl, rfl⟩
  | _ => exact ⟨rfl, rfl⟩

/-- A declaration keeps its name, and its value is stripped. -/
theorem asStep?_strip (node : Node) :
    node.strip.asStep? = node.asStep?.map fun (name, value?) => (name, value?.map strip) := by
  induction node using induction_wrappers with
  | wraps inner ih => exact ih
  | stays node h _ =>
    rw [asStep?, asStep?, unwrap_of_stays h]
    cases node with
    | step key value => cases key <;> simp [strip, unwrap, stripOption_eq]
    | wrapper inner =>
      obtain rfl := eq_none_of_stays h
      rfl
    | _ => rfl

end Node

theorem ofDocument_strip (steps : List Node) :
    ReferenceMap.ofDocument (Document.ofSteps (steps.map Node.strip)) =
      ReferenceMap.ofDocument (Document.ofSteps steps) :=
  ReferenceMap.ofDocument_map Node.asStep?_strip Node.collectIdentifiers_strip steps

namespace Outline

section Stripped

variable {outline stripped : Outline} (hsteps : stripped.document.steps = outline.document.steps.map Node.strip)
  (hreferences : stripped.references = outline.references) (hwidth : stripped.width = outline.width)

include hreferences hwidth in
theorem renderNode_stripped (node : Node) (depth : Nat) :
    stripped.renderNode node.strip depth = outline.renderNode node depth := by
  rw [renderNode, renderNode, hreferences, hwidth, Node.render_strip]

include hreferences hwidth in
theorem stepReport_stripped (step : Node) : stripped.stepReport step.strip = outline.stepReport step := by
  have hname : step.strip.asStep?.map Prod.fst = step.asStep?.map Prod.fst := by
    rw [Node.asStep?_strip, Option.map_map]
    rfl
  simp only [stepReport, hname, hreferences, renderNode_stripped hreferences hwidth]

include hsteps hreferences hwidth

theorem text_stripped : stripped.text = outline.text := by
  rw [text, hsteps, List.map_map, text]
  congr 1
  exact List.map_congr_left fun step _ => renderNode_stripped hreferences hwidth step 0

theorem stepReports_stripped : stripped.stepReports = outline.stepReports := by
  rw [stepReports, hsteps, List.map_map, stepReports]
  exact List.map_congr_left fun step _ => stepReport_stripped hreferences hwidth step

omit hreferences hwidth in
theorem unhandledKinds_stripped : stripped.unhandledKinds = outline.unhandledKinds := by
  rw [unhandledKinds, hsteps, List.flatMap_map, unhandledKinds]
  exact congrArg Names.dedup (List.flatMap_congr fun step _ => step.unhandledKinds_strip)

end Stripped

/-- **Wrappers are transparent.** Stripping the steps of an outline changes neither its reference map nor its text, its
reports or its unhandled kinds; and stripping a node changes neither its text at any depth nor its identifiers. -/
theorem strip_transparent :
    (∀ (steps : List Node) (width : Nat), 1 ≤ width → width ≤ 8 →
      ∃ outline stripped, (ofDocument (Document.ofSteps steps)).withWidth width = .ok outline ∧
        (ofDocument (Document.ofSteps (steps.map Node.strip))).withWidth width = .ok stripped ∧
        stripped.references = outline.references ∧ stripped.text = outline.text ∧
        stripped.stepReports = outline.stepReports ∧ stripped.unhandledKinds = outline.unhandledKinds) ∧
    (∀ (references : ReferenceMap) (width depth : Nat) (node : Node),
      node.strip.render references width depth = node.render references width depth) ∧
    ∀ node : Node, node.strip.collectIdentifiers = node.collectIdentifiers := by
  refine ⟨fun steps width h₁ h₂ => ⟨_, _, withWidth_of_le h₁ h₂, withWidth_of_le h₁ h₂, ?_, ?_, ?_, ?_⟩,
    fun references width depth node => node.render_strip references width depth, Node.collectIdentifiers_strip⟩
  · exact ofDocument_strip steps
  · exact text_stripped rfl (ofDocument_strip steps) rfl
  · exact stepReports_stripped rfl (ofDocument_strip steps) rfl
  · exact unhandledKinds_stripped rfl

/-- A step inside two wrappers, whose value holds wrapped elements and a wrapper of nothing. -/
def wrappedSteps : List Node :=
  [.wrapper (some (.wrapper (some (.step (some "a")
    (some (.list [.wrapper (some (.identifier (some "a"))), .wrapper none])))))), .wrapper (some (.unhandled "Each"))]

theorem wrappedSteps_strip_transparent :
    1 ≤ 4 ∧ 4 ≤ 8 ∧
    ∃ outline stripped, (ofDocument (Document.ofSteps wrappedSteps)).withWidth 4 = .ok outline ∧
      (ofDocument (Document.ofSteps (wrappedSteps.map Node.strip))).withWidth 4 = .ok stripped ∧
      stripped.references = outline.references ∧ stripped.text = outline.text ∧
      stripped.stepReports = outline.stepReports ∧ stripped.unhandledKinds = outline.unhandledKinds :=
  ⟨by decide, by decide, strip_transparent.1 wrappedSteps 4 (by decide) (by decide)⟩

end Outline

end QueryOutline
