import QueryOutline.Outline
import QueryOutline.Proofs.Keyed
import QueryOutline.Proofs.Render.Layout

/-!
# Rendering stroke by stroke

`Node.strokes` records a rendering in the order of its text: each node for which rendering is called, each indentation
and each fixed text.

* **Text** (`Node.written_strokes`): what the strokes write is the rendered text.
* **Places** (`Node.placed_strokes`): where a node is entered, its own text begins.
* **Nodes** (`Node.entered_strokes`): the entered nodes are those of a walk that always goes on.
* **Unhandled kinds** (`Outline.unhandledKinds_firstOccurrences`, `Outline.rendered_unhandled`): the scan reports the
  kinds of the unhandled nodes that the steps of a document contain (`Document.mem_unhandled`), and these are rendered.
-/

namespace QueryOutline

/-- What rendering does at one place of the text. -/
inductive Stroke where
  /-- Rendering is called for a node at a depth. -/
  | enter (node : Node) (depth : Nat)
  | indent (depth : Nat)
  | fixed (text : String)

namespace Stroke

def write (width : Nat) : Stroke → String
  | enter _ _ => ""
  | indent depth => indentation width depth
  | fixed s => s

/-- The node that is entered. -/
def entered? : Stroke → Option Node
  | enter node _ => some node
  | _ => none

end Stroke

/-- The text that strokes write. -/
def written (width : Nat) (strokes : List Stroke) : String := String.join (strokes.map (Stroke.write width))

/-- The nodes that strokes enter, in order. -/
def entered (strokes : List Stroke) : List Node := strokes.filterMap Stroke.entered?

/-- Where a node is entered, its own text begins. -/
def Placed (references : ReferenceMap) (width : Nat) (strokes : List Stroke) : Prop :=
  ∀ before node depth after, strokes = before ++ .enter node depth :: after →
    ∃ rest, written width after = node.render references width depth ++ rest

/-! ## Strokes in sequence -/

section Sequence

variable {references : ReferenceMap} {width : Nat}

theorem written_append (strokes more : List Stroke) :
    written width (strokes ++ more) = written width strokes ++ written width more := by
  simp [written]

theorem written_enter (node : Node) (depth : Nat) (strokes : List Stroke) :
    written width (.enter node depth :: strokes) = written width strokes := by
  simp [written, Stroke.write]

theorem written_fixed (s : String) : written width [.fixed s] = s := by simp [written, Stroke.write]

theorem written_indent (depth : Nat) : written width [.indent depth] = indentation width depth := by
  simp [written, Stroke.write]

theorem written_flatMap {α : Type} (strokes : α → List Stroke) : ∀ items : List α,
    written width (items.flatMap strokes) = String.join (items.map fun item => written width (strokes item))
  | [] => rfl
  | item :: items => by
    rw [List.flatMap_cons, written_append, written_flatMap strokes items, List.map_cons, String.join_cons]

theorem written_intercalate (separator : String) : ∀ parts : List (List Stroke),
    written width ([.fixed separator].intercalate parts) = separator.intercalate (parts.map (written width))
  | [] => rfl
  | [strokes] => by simp
  | strokes :: next :: parts => by
    rw [List.intercalate_cons_cons, written_append, written_append, written_fixed,
      written_intercalate separator (next :: parts)]
    simp only [List.map_cons, String.intercalate_cons_cons]

theorem entered_append (strokes more : List Stroke) : entered (strokes ++ more) = entered strokes ++ entered more := by
  simp [entered]

theorem entered_flatMap {α : Type} (strokes : α → List Stroke) (items : List α) :
    entered (items.flatMap strokes) = items.flatMap fun item => entered (strokes item) := by
  simp [entered, List.filterMap_flatMap]

/-- An entered node is entered at some place. -/
theorem mem_entered {node : Node} {strokes : List Stroke} :
    node ∈ entered strokes ↔ ∃ before depth after, strokes = before ++ .enter node depth :: after := by
  constructor
  · intro h
    obtain ⟨stroke, hstroke, hentered⟩ := List.mem_filterMap.1 h
    obtain ⟨depth, rfl⟩ : ∃ depth, stroke = .enter node depth := by
      cases stroke <;> simp_all [Stroke.entered?]
    obtain ⟨before, after, hsplit⟩ := List.append_of_mem hstroke
    exact ⟨before, depth, after, hsplit⟩
  · rintro ⟨before, depth, after, rfl⟩
    exact List.mem_filterMap.2 ⟨_, List.mem_append_right before List.mem_cons_self, rfl⟩

theorem placed_nil : Placed references width [] := by
  intro before node depth after h
  simp at h

/-- Only an entered node asks something of the strokes after it. -/
theorem placed_cons {stroke : Stroke} {after : List Stroke} :
    Placed references width (stroke :: after) ↔
      (∀ node depth, stroke = .enter node depth →
        ∃ rest, written width after = node.render references width depth ++ rest) ∧ Placed references width after := by
  constructor
  · intro h
    exact ⟨fun node depth hs => h [] node depth after (by rw [hs]; rfl),
      fun before node depth later hs => h (stroke :: before) node depth later (by rw [hs]; rfl)⟩
  · rintro ⟨hfirst, hafter⟩ before node depth later hs
    cases before with
    | nil =>
      obtain ⟨rfl, rfl⟩ := List.cons.inj hs
      exact hfirst node depth rfl
    | cons first before =>
      obtain ⟨_, rfl⟩ := List.cons.inj hs
      exact hafter before node depth later rfl

/-- A stroke that enters no node. -/
theorem placed_singleton {stroke : Stroke} (h : stroke.entered? = none) : Placed references width [stroke] := by
  refine placed_cons.2 ⟨fun node depth hs => ?_, placed_nil⟩
  subst hs
  cases h

theorem Placed.append : ∀ {strokes more : List Stroke}, Placed references width strokes →
    Placed references width more → Placed references width (strokes ++ more)
  | [], _, _, hmore => hmore
  | stroke :: strokes, more, hstrokes, hmore => by
    obtain ⟨hfirst, hstrokes⟩ := placed_cons.1 hstrokes
    refine placed_cons.2 ⟨fun node depth hs => ?_, hstrokes.append hmore⟩
    obtain ⟨rest, hrest⟩ := hfirst node depth hs
    show ∃ rest, written width (strokes ++ more) = node.render references width depth ++ rest
    exact ⟨rest ++ written width more, by rw [written_append, hrest, String.append_assoc]⟩

theorem placed_flatMap {α : Type} {strokes : α → List Stroke} : ∀ {items : List α},
    (∀ item ∈ items, Placed references width (strokes item)) → Placed references width (items.flatMap strokes)
  | [], _ => placed_nil
  | item :: items, h => by
    rw [List.flatMap_cons]
    exact (h item List.mem_cons_self).append (placed_flatMap fun other hm => h other (List.mem_cons_of_mem _ hm))

theorem placed_intercalate (separator : String) : ∀ {parts : List (List Stroke)},
    (∀ strokes ∈ parts, Placed references width strokes) →
      Placed references width ([.fixed separator].intercalate parts)
  | [], _ => placed_nil
  | [strokes], h => by simpa using h strokes
  | strokes :: next :: parts, h => by
    rw [List.intercalate_cons_cons]
    exact ((h strokes List.mem_cons_self).append (placed_singleton rfl)).append
      (placed_intercalate separator fun other hm => h other (List.mem_cons_of_mem _ hm))

theorem entered_intercalate (separator : String) : ∀ parts : List (List Stroke),
    entered ([.fixed separator].intercalate parts) = parts.flatMap entered
  | [] => rfl
  | [strokes] => by simp
  | strokes :: next :: parts => by
    rw [List.intercalate_cons_cons, entered_append, entered_append, entered_intercalate separator (next :: parts),
      List.flatMap_cons]
    simp [entered, Stroke.entered?]

end Sequence

/-! ## The strokes of a node -/

namespace Node

/-- Rendering a node at a depth, stroke by stroke: it is entered, and then its layout is written, where for each child
rendering is called again. -/
def strokes (references : ReferenceMap) (depth : Nat) (node : Node) : List Stroke :=
  .enter node depth :: (node.layout references).attach.flatMap fun
    | ⟨.fixed s, _⟩ => [.fixed s]
    | ⟨.indent, _⟩ => [.indent depth]
    | ⟨.child child deeper, _⟩ => strokes references (depth + deeper) child
termination_by sizeOf node
decreasing_by exact sizeOf_lt_of_mem_children (mem_children_of_mem_layout ‹_›)

/-- The strokes of a piece of a node at a depth. -/
def Piece.strokes (references : ReferenceMap) (depth : Nat) : Piece → List Stroke
  | fixed s => [.fixed s]
  | indent => [.indent depth]
  | child node deeper => node.strokes references (depth + deeper)

section Strokes

variable (references : ReferenceMap) (width : Nat)

theorem strokes_eq (depth : Nat) (node : Node) :
    node.strokes references depth =
      .enter node depth :: (node.layout references).flatMap (Piece.strokes references depth) := by
  rw [strokes]
  conv => rhs; rw [← List.attach_map_subtype_val (node.layout references), List.flatMap_map]
  congr 2
  funext ⟨piece, _⟩
  cases piece <;> rfl

/-- **Text.** What the strokes write is the rendered text. -/
theorem written_strokes (node : Node) : ∀ depth,
    written width (node.strokes references depth) = node.render references width depth := by
  induction node using induction_children with
  | step node ih =>
    intro depth
    rw [strokes_eq, written_enter, written_flatMap, render_eq_layout]
    congr 1
    refine List.map_congr_left fun piece hpiece => ?_
    cases piece with
    | fixed s => exact written_fixed s
    | indent => exact written_indent depth
    | child child deeper => exact ih child (mem_children_of_mem_layout hpiece) _

/-- **Places.** Where a node is entered, its own text begins. -/
theorem placed_strokes (node : Node) : ∀ depth, Placed references width (node.strokes references depth) := by
  induction node using induction_children with
  | step node ih =>
    intro depth
    rw [strokes_eq]
    refine placed_cons.2 ⟨fun entered enteredDepth hs => ?_, placed_flatMap fun piece hpiece => ?_⟩
    · obtain ⟨rfl, rfl⟩ := Stroke.enter.inj hs
      exact ⟨"", by rw [← written_enter node depth, ← strokes_eq, written_strokes, String.append_empty]⟩
    · cases piece with
      | fixed s => exact placed_singleton rfl
      | indent => exact placed_singleton rfl
      | child child deeper => exact ih child (mem_children_of_mem_layout hpiece) _

/-- **Nodes.** The entered nodes are those of a walk that always goes on. -/
theorem entered_strokes (node : Node) : ∀ depth,
    entered (node.strokes references depth) = node.visited fun _ => true := by
  induction node using induction_children with
  | step node ih =>
    intro depth
    have hpieces : ∀ piece ∈ node.layout references,
        entered (Piece.strokes references depth piece) = piece.child?.toList.flatMap (visited fun _ => true) := by
      intro piece hpiece
      cases piece with
      | fixed s => rfl
      | indent => rfl
      | child child deeper =>
        have h := ih child (mem_children_of_mem_layout hpiece) (depth + deeper)
        simpa [Piece.child?, Piece.strokes] using h
    rw [visited_eq, if_pos rfl, ← children_layout references, strokes_eq]
    calc entered (.enter node depth :: (node.layout references).flatMap (Piece.strokes references depth))
        = node :: (node.layout references).flatMap fun piece => entered (Piece.strokes references depth piece) := by
          rw [← entered_flatMap]; rfl
      _ = node :: (node.layout references).flatMap fun piece =>
            piece.child?.toList.flatMap (visited fun _ => true) := by
          rw [List.flatMap_congr hpieces]
      _ = node :: ((node.layout references).filterMap Piece.child?).flatMap (visited fun _ => true) := by
          rw [List.filterMap_eq_flatMap_toList, List.flatMap_assoc]

end Strokes

end Node

/-! ## The unhandled nodes of a document -/

namespace Document

/-- The kinds of the unhandled nodes of a document, in the order of a walk through all nodes, with repetitions. -/
def unhandled (document : Document) : List String :=
  (document.steps.flatMap fun step => step.visited fun _ => true).filterMap Node.unhandledKind?

theorem mem_unhandled {document : Document} {kind : String} :
    kind ∈ document.unhandled ↔ ∃ step ∈ document.steps, step.Contains (.unhandled kind) := by
  simp only [unhandled, List.mem_filterMap, Node.unhandledKind?_eq_some, exists_eq_right, List.mem_flatMap,
    Node.mem_visited_all]

end Document

/-! ## The strokes of an outline -/

namespace Outline

variable (outline : Outline)

/-- The strokes of all steps, with line breaks between them. -/
def strokes : List Stroke :=
  [.fixed "\n"].intercalate (outline.document.steps.map (Node.strokes outline.references 0))

theorem written_strokes : written outline.width outline.strokes = outline.text := by
  rw [strokes, written_intercalate, List.map_map, text]
  congr 1
  exact List.map_congr_left fun step _ => Node.written_strokes outline.references outline.width step 0

theorem placed_strokes : Placed outline.references outline.width outline.strokes := by
  refine placed_intercalate "\n" fun strokes hm => ?_
  obtain ⟨step, _, rfl⟩ := List.mem_map.1 hm
  exact Node.placed_strokes outline.references outline.width step 0

theorem entered_strokes :
    entered outline.strokes = outline.document.steps.flatMap fun step => step.visited fun _ => true := by
  rw [strokes, entered_intercalate, List.flatMap_map]
  exact List.flatMap_congr fun step _ => Node.entered_strokes outline.references step 0

/-- The kinds of the unhandled nodes that are rendered, with repetitions. -/
def renderedUnhandled : List String := (entered outline.strokes).filterMap Node.unhandledKind?

/-- Taking each kind once for every step does not matter when each is taken once in the end. -/
theorem unhandledKinds_eq_dedup : outline.unhandledKinds = Names.dedup outline.renderedUnhandled := by
  have hsteps : outline.renderedUnhandled =
      outline.document.steps.flatMap fun step => (step.visited fun _ => true).filterMap Node.unhandledKind? := by
    rw [renderedUnhandled, entered_strokes, List.filterMap_flatMap]
  rw [hsteps, unhandledKinds]
  exact Names.dedup_flatMap outline.document.steps _

theorem renderedUnhandled_eq : outline.renderedUnhandled = outline.document.unhandled := by
  rw [renderedUnhandled, entered_strokes, Document.unhandled]

theorem unhandledKinds_firstOccurrences :
    Names.FirstOccurrences outline.unhandledKinds outline.document.unhandled := by
  rw [unhandledKinds_eq_dedup, ← renderedUnhandled_eq]
  exact Names.dedup_firstOccurrences _

variable {outline} in
theorem mem_unhandledKinds {kind : String} :
    kind ∈ outline.unhandledKinds ↔ ∃ step ∈ outline.document.steps, step.Contains (.unhandled kind) :=
  (outline.unhandledKinds_firstOccurrences.mem_iff kind).trans Document.mem_unhandled

variable {outline} in
theorem unhandledKinds_ne_nil_iff : outline.unhandledKinds ≠ [] ↔
    ∃ kind, ∃ step ∈ outline.document.steps, step.Contains (.unhandled kind) := by
  rw [ne_eq, List.eq_nil_iff_forall_not_mem, not_forall_not]
  exact exists_congr fun _ => mem_unhandledKinds

/-- The text at the place where a node is entered. -/
theorem exists_text_of_enter {before after : List Stroke} {node : Node} {depth : Nat}
    (h : outline.strokes = before ++ .enter node depth :: after) :
    ∃ rest, outline.text =
      written outline.width before ++ node.render outline.references outline.width depth ++ rest := by
  obtain ⟨rest, hrest⟩ := outline.placed_strokes before node depth after h
  refine ⟨rest, ?_⟩
  rw [← written_strokes, h, written_append, written_enter, hrest, String.append_assoc]

/-- The text has the marker of every unhandled node that is rendered. -/
theorem marker_of_mem {kind : String} (h : kind ∈ outline.renderedUnhandled) :
    ∃ before after, outline.text = before ++ (kind ++ " (Unhandled Node)") ++ after := by
  obtain ⟨node, hnode, hkind⟩ := List.mem_filterMap.1 h
  obtain rfl := Node.unhandledKind?_eq_some.1 hkind
  obtain ⟨before, depth, after, hsplit⟩ := mem_entered.1 hnode
  obtain ⟨rest, htext⟩ := outline.exists_text_of_enter hsplit
  refine ⟨written outline.width before ++ indentation outline.width depth, rest, ?_⟩
  rw [htext, Node.render]
  simp only [String.append_assoc]

/-- **Scan and rendering see the same nodes.** A node is rendered by its layout, with a call for each child in it; the
strokes of a rendering write its text, the text of each entered node begins where it is entered, and the entered nodes
are those of a walk that always goes on. So the scan of an outline lists the kinds of the unhandled nodes that are
rendered, each once, in the order of their first occurrences, and the text has the marker of each. -/
theorem rendered_unhandled :
    (∀ references width depth (node : Node),
      node.render references width depth =
        String.join ((node.layout references).map (Node.Piece.write references width depth)) ∧
      written width (node.strokes references depth) = node.render references width depth ∧
      Placed references width (node.strokes references depth) ∧
      entered (node.strokes references depth) = node.visited fun _ => true) ∧
    ∀ outline : Outline,
      (written outline.width outline.strokes = outline.text ∧
        Placed outline.references outline.width outline.strokes ∧
        entered outline.strokes = outline.document.steps.flatMap fun step => step.visited fun _ => true) ∧
      Names.FirstOccurrences outline.unhandledKinds ((entered outline.strokes).filterMap Node.unhandledKind?) ∧
      ∀ kind ∈ outline.unhandledKinds,
        ∃ before after, outline.text = before ++ (kind ++ " (Unhandled Node)") ++ after := by
  refine ⟨fun references width depth node => ⟨?_, ?_, ?_, ?_⟩, fun outline => ⟨⟨?_, ?_, ?_⟩, ?_, fun kind hkind => ?_⟩⟩
  · exact Node.render_eq_layout references width depth node
  · exact Node.written_strokes references width node depth
  · exact Node.placed_strokes references width node depth
  · exact Node.entered_strokes references node depth
  · exact outline.written_strokes
  · exact outline.placed_strokes
  · exact outline.entered_strokes
  · rw [unhandledKinds_eq_dedup]
    exact Names.dedup_firstOccurrences outline.renderedUnhandled
  · rw [unhandledKinds_eq_dedup, Names.mem_dedup] at hkind
    exact outline.marker_of_mem hkind

/-- An outline of a record inside a list, and of another one. -/
def records : Outline :=
  ofDocument (.ofSteps [.list [.identifier (some "a"), .unhandled "Record"], .unhandled "Record", .unhandled "Each"])

theorem records_rendered_unhandled :
    records.unhandledKinds = ["Record", "Each"] ∧
    (∃ before after, records.text = before ++ ("Record" ++ " (Unhandled Node)") ++ after) ∧
    entered records.strokes = records.document.steps.flatMap fun step => step.visited fun _ => true := by
  have hkinds : records.unhandledKinds = ["Record", "Each"] := by decide
  obtain ⟨⟨_, _, hentered⟩, _, hmarker⟩ := rendered_unhandled.2 records
  exact ⟨hkinds, hmarker "Record" (by rw [hkinds]; decide), hentered⟩

end Outline

end QueryOutline
