import QueryOutline.Proofs.Render.Depth

/-!
# The layout is uniform in width and depth

A text consists of fixed texts and of blanks whose number is a product of the width and a depth. `Node.segments` lists
both in order, with the depths counted from the depth of the node, so it knows neither the width nor that depth.

* **Depths** (`Node.strokes_lower`): rendering a node deeper makes every stroke that much deeper and changes nothing
  else.
* **Texts** (`Node.render_eq_segments`): the text under any width and at any depth is what the segments write.
* **Marks** (`Node.countP_segments`): a step and an unhandled node have one indentation, a `let` block has two.
* **Outlines** (`Outline.render_uniform`): another width changes the lengths of the indentations only.
-/

namespace QueryOutline

/-- A part of a text: a fixed text, or the blanks of so many levels below the level of the whole. -/
inductive Segment where
  | fixed (text : String)
  | blanks (deeper : Nat)

namespace Segment

/-- The text of a segment when the whole starts at a depth. -/
def write (width depth : Nat) : Segment → String
  | fixed s => s
  | blanks deeper => String.ofList (List.replicate (width * (depth + deeper)) ' ')

def isBlanks : Segment → Bool
  | fixed _ => false
  | blanks _ => true

/-- The segment so many levels deeper. -/
def lower (levels : Nat) : Segment → Segment
  | fixed s => fixed s
  | blanks deeper => blanks (levels + deeper)

theorem write_lower (width levels depth : Nat) (segment : Segment) :
    (segment.lower levels).write width depth = segment.write width (depth + levels) := by
  cases segment with
  | fixed s => rfl
  | blanks deeper => simp only [lower, write, Nat.add_assoc]

theorem isBlanks_lower (levels : Nat) (segment : Segment) : (segment.lower levels).isBlanks = segment.isBlanks := by
  cases segment <;> rfl

end Segment

/-- What a stroke writes, with its depth. -/
def Stroke.segment? : Stroke → Option Segment
  | enter _ _ => none
  | indent depth => some (.blanks depth)
  | fixed s => some (.fixed s)

/-- The stroke so many levels deeper. -/
def Stroke.lower (levels : Nat) : Stroke → Stroke
  | enter node depth => enter node (levels + depth)
  | indent depth => indent (levels + depth)
  | fixed s => fixed s

/-- What strokes write, segment by segment. -/
def segmentsOf (strokes : List Stroke) : List Segment := strokes.filterMap Stroke.segment?

/-- The blanks of all segments can be counted in words of 64 bits. -/
def Fits (width depth : Nat) (segments : List Segment) : Prop :=
  ∀ deeper, .blanks deeper ∈ segments → width * (depth + deeper) < 2 ^ 64

/-! ## Strokes and their segments -/

theorem segmentsOf_enter (node : Node) (depth : Nat) (strokes : List Stroke) :
    segmentsOf (.enter node depth :: strokes) = segmentsOf strokes := rfl

theorem segmentsOf_indent (depth : Nat) (strokes : List Stroke) :
    segmentsOf (.indent depth :: strokes) = .blanks depth :: segmentsOf strokes := rfl

theorem segmentsOf_fixed (s : String) (strokes : List Stroke) :
    segmentsOf (.fixed s :: strokes) = .fixed s :: segmentsOf strokes := rfl

theorem segmentsOf_lower (levels : Nat) (strokes : List Stroke) :
    segmentsOf (strokes.map (Stroke.lower levels)) = (segmentsOf strokes).map (Segment.lower levels) := by
  induction strokes with
  | nil => rfl
  | cons stroke strokes ih =>
    cases stroke with
    | enter node depth => exact ih
    | indent depth => exact congrArg (Segment.blanks (levels + depth) :: ·) ih
    | fixed s => exact congrArg (Segment.fixed s :: ·) ih

theorem segmentsOf_flatMap {α : Type} (strokes : α → List Stroke) (items : List α) :
    segmentsOf (items.flatMap strokes) = items.flatMap fun item => segmentsOf (strokes item) := by
  simp only [segmentsOf, List.filterMap_flatMap]

theorem mem_segmentsOf_blanks {strokes : List Stroke} {depth : Nat} :
    Segment.blanks depth ∈ segmentsOf strokes ↔ Stroke.indent depth ∈ strokes := by
  simp only [segmentsOf, List.mem_filterMap]
  constructor
  · rintro ⟨stroke, hmem, hsegment⟩
    cases stroke <;> simp [Stroke.segment?] at hsegment
    exact hsegment ▸ hmem
  · intro hmem
    exact ⟨_, hmem, rfl⟩

/-- Strokes write what their segments write, as long as the blanks can be counted. -/
theorem written_eq_segments (width : Nat) : ∀ {strokes : List Stroke}, Fits width 0 (segmentsOf strokes) →
    written width strokes = String.join ((segmentsOf strokes).map (Segment.write width 0))
  | [], _ => rfl
  | stroke :: strokes, h => by
    have hrest : Fits width 0 (segmentsOf strokes) := by
      intro deeper hmem
      apply h deeper
      rw [mem_segmentsOf_blanks] at hmem ⊢
      exact List.mem_cons_of_mem stroke hmem
    have ih := written_eq_segments width hrest
    have hcons : written width (stroke :: strokes) = stroke.write width ++ written width strokes := by
      rw [written, List.map_cons, String.join_cons, ← written]
    rw [hcons, ih]
    cases stroke with
    | enter node depth => rw [segmentsOf_enter, Stroke.write, String.empty_append]
    | fixed s => rw [segmentsOf_fixed, List.map_cons, String.join_cons, Stroke.write, Segment.write]
    | indent depth =>
      have hdepth := h depth (mem_segmentsOf_blanks.2 List.mem_cons_self)
      rw [Nat.zero_add] at hdepth
      rw [segmentsOf_indent, List.map_cons, String.join_cons, Stroke.write, Segment.write, Nat.zero_add,
        Outline.indentation_of_lt hdepth]

namespace Node

variable (references : ReferenceMap)

/-! ## Depths -/

/-- **Depths.** Rendering a node deeper makes every stroke that much deeper. -/
theorem strokes_lower (levels : Nat) (node : Node) : ∀ depth,
    node.strokes references (levels + depth) = (node.strokes references depth).map (Stroke.lower levels) := by
  induction node using induction_children with
  | step node ih =>
    intro depth
    have hpieces : ∀ piece ∈ node.layout references,
        piece.strokes references (levels + depth) = (piece.strokes references depth).map (Stroke.lower levels) := by
      intro piece hpiece
      cases piece with
      | fixed s => rfl
      | indent => rfl
      | child child deeper =>
        have hchild := ih child (mem_children_of_mem_layout hpiece) (depth + deeper)
        rw [← Nat.add_assoc] at hchild
        exact hchild
    rw [strokes_eq, strokes_eq, List.map_cons, List.map_flatMap, List.flatMap_congr hpieces]
    rfl

/-- What rendering the node writes, with depths counted from the depth of the node. -/
def segments (node : Node) : List Segment := segmentsOf (node.strokes references 0)

/-- The segments of a rendering from a depth on. -/
theorem segmentsOf_strokes (node : Node) (depth : Nat) :
    segmentsOf (node.strokes references depth) = (node.segments references).map (Segment.lower depth) := by
  rw [segments, ← segmentsOf_lower, ← strokes_lower, Nat.add_zero]

/-! ## Texts -/

/-- **Texts.** The text under any width and at any depth is what the segments write. -/
theorem render_eq_segments {node : Node} {width depth : Nat} (h : Fits width depth (node.segments references)) :
    node.render references width depth =
      String.join ((node.segments references).map (Segment.write width depth)) := by
  have hfits : Fits width 0 (segmentsOf (node.strokes references depth)) := by
    intro deeper hmem
    rw [segmentsOf_strokes, List.mem_map] at hmem
    obtain ⟨segment, hsegment, hlower⟩ := hmem
    cases segment with
    | fixed s => simp [Segment.lower] at hlower
    | blanks below =>
      simp only [Segment.lower, Segment.blanks.injEq] at hlower
      rw [Nat.zero_add, ← hlower]
      exact h below hsegment
  have hwrite : Segment.write width 0 ∘ Segment.lower depth = Segment.write width depth := by
    funext segment
    rw [Function.comp_apply, Segment.write_lower, Nat.zero_add]
  rw [← written_strokes, written_eq_segments width hfits, segmentsOf_strokes, List.map_map, hwrite]

/-! ## Marks -/

/-- How many indentations the node has itself. -/
def marks : Node → Nat
  | step .. => 1
  | letBlock .. => 2
  | unhandled .. => 1
  | _ => 0

/-- The segments of a piece of a node. -/
def Piece.segments : Piece → List Segment
  | fixed s => [.fixed s]
  | indent => [.blanks 0]
  | child node deeper => (node.segments references).map (Segment.lower deeper)

/-- The segments of a node are those of its layout. -/
theorem segments_eq (node : Node) :
    node.segments references = (node.layout references).flatMap (Piece.segments references) := by
  have hpieces : ∀ piece ∈ node.layout references,
      segmentsOf (piece.strokes references 0) = piece.segments references := by
    intro piece _
    cases piece with
    | fixed s => rfl
    | indent => rfl
    | child child deeper =>
      rw [Piece.strokes, Nat.zero_add, segmentsOf_strokes]
      rfl
  rw [segments, strokes_eq]
  have hlayout := segmentsOf_flatMap (Piece.strokes references 0) (node.layout references)
  rw [List.flatMap_congr hpieces] at hlayout
  exact hlayout

/-- Whether the piece is the node's own indentation. -/
def Piece.isIndent : Piece → Bool
  | indent => true
  | _ => false

theorem countP_children (nodes : List Node) : (nodes.map (Piece.child · 1)).countP Piece.isIndent = 0 := by
  rw [List.countP_map, List.countP_eq_zero]
  intro node _
  exact Bool.false_ne_true

theorem countP_commaSeparated : ∀ nodes : List Node, (Piece.commaSeparated nodes).countP Piece.isIndent = 0
  | [] => rfl
  | [_] => rfl
  | _ :: next :: nodes => countP_commaSeparated (next :: nodes)

theorem isIndent_fixed (s : String) : (Piece.fixed s).isIndent = false := rfl

theorem isIndent_indent : Piece.indent.isIndent = true := rfl

theorem isIndent_part (deeper : Nat) (placeholder : String) (node? : Option Node) :
    (Piece.part deeper placeholder node?).isIndent = false := by
  cases node? <;> rfl

/-- A layout has the node's own indentations. -/
theorem countP_layout (node : Node) : (node.layout references).countP Piece.isIndent = node.marks := by
  cases node <;>
    simp [layout, marks, isIndent_fixed, isIndent_indent, isIndent_part, countP_children, countP_commaSeparated,
      List.countP_cons, -List.countP_map]

/-- The marks of pieces are the own indentations and those of the children. -/
theorem countP_pieces (count : Node → Nat) : ∀ {pieces : List Piece},
    (∀ child deeper, .child child deeper ∈ pieces → (child.segments references).countP Segment.isBlanks = count child) →
    (pieces.flatMap (Piece.segments references)).countP Segment.isBlanks =
      pieces.countP Piece.isIndent + ((pieces.filterMap Piece.child?).map count).sum
  | [], _ => rfl
  | piece :: pieces, h => by
    have ih := countP_pieces count (fun child deeper hmem => h child deeper (List.mem_cons_of_mem piece hmem))
    rw [List.flatMap_cons, List.countP_append, ih, List.countP_cons, filterMap_child?_cons]
    cases piece with
    | fixed s => simp [Piece.segments, Segment.isBlanks, Piece.isIndent, Piece.child?]
    | indent =>
      simp only [Piece.segments, Piece.isIndent, Piece.child?, Option.toList_none, List.nil_append, if_true,
        List.countP_singleton, Segment.isBlanks]
      omega
    | child child deeper =>
      have hchild := h child deeper List.mem_cons_self
      have hlower : Segment.isBlanks ∘ Segment.lower deeper = Segment.isBlanks := by
        funext segment
        exact Segment.isBlanks_lower deeper segment
      simp only [Piece.segments, Piece.isIndent, Piece.child?, Option.toList_some, List.singleton_append, List.map_cons,
        List.sum_cons, List.countP_map, hlower, hchild]
      simp only [Bool.false_eq_true, if_false]
      omega

/-- **Marks.** The indentations of a rendering are those of all nodes in it. -/
theorem countP_segments (node : Node) :
    (node.segments references).countP Segment.isBlanks = ((node.visited fun _ => true).map marks).sum := by
  induction node using induction_children with
  | step node ih =>
    have hchildren : ∀ child deeper, .child child deeper ∈ node.layout references →
        (child.segments references).countP Segment.isBlanks = ((child.visited fun _ => true).map marks).sum :=
      fun child _ hmem => ih child (mem_children_of_mem_layout hmem)
    have hsum : ((node.children.flatMap (visited fun _ => true)).map marks).sum =
        (node.children.map fun child => ((child.visited fun _ => true).map marks).sum).sum := by
      rw [List.map_flatMap, List.flatMap_def, List.sum_flatten, List.map_map]
      rfl
    rw [segments_eq, countP_pieces references _ hchildren, countP_layout, children_layout, visited_eq, if_pos rfl,
      List.map_cons, List.sum_cons, hsum]

/-- The fixed texts in the layout of a node are segments of every node that contains it. -/
theorem fixed_mem_segments {node target : Node} (h : node.Contains target) {s : String}
    (hs : .fixed s ∈ target.layout references) : .fixed s ∈ node.segments references := by
  induction h using Relation.ReflTransGen.head_induction_on with
  | refl =>
    rw [segments_eq]
    exact List.mem_flatMap.2 ⟨.fixed s, hs, List.mem_singleton.2 rfl⟩
  | @head node child hchild _ ih =>
    rw [← children_layout references, List.mem_filterMap] at hchild
    obtain ⟨piece, hpiece, hnode⟩ := hchild
    rw [segments_eq]
    refine List.mem_flatMap.2 ⟨piece, hpiece, ?_⟩
    cases piece with
    | child other deeper =>
      simp only [Piece.child?, Option.some.injEq] at hnode
      subst hnode
      exact List.mem_map.2 ⟨_, ih, rfl⟩
    | _ => simp [Piece.child?] at hnode

end Node

/-! ## Outlines -/

namespace Outline

/-- The segments of the text of an outline. -/
def segments (outline : Outline) : List Segment := segmentsOf outline.strokes

/-- The text of an outline of a source is what its segments write. -/
theorem text_eq_segments {source : String} {outline : Outline} (h : FromSource source outline) :
    outline.text = String.join (outline.segments.map (Segment.write outline.width 0)) := by
  have hfits : Fits outline.width 0 outline.segments := by
    intro deeper hmem
    have hdepth : (Stroke.indent deeper).Within 125 := within_of_draws h (.inl (mem_segmentsOf_blanks.1 hmem))
    have hproduct : outline.width * deeper ≤ 8 * 125 := Nat.mul_le_mul (fromSource_width h) (Nat.le_of_lt hdepth)
    rw [Nat.zero_add]
    omega
  rw [← written_strokes, written_eq_segments outline.width hfits, segments]

/-- Another width leaves the segments as they are. -/
theorem segments_withWidth {outline resized : Outline} {width : Nat} (h : outline.withWidth width = .ok resized) :
    resized.width = width ∧ resized.segments = outline.segments := by
  obtain ⟨checked, hchecked, hresized⟩ := bind_eq_ok_iff.1 h
  obtain ⟨_, rfl⟩ := checkWidth_eq_ok_iff.1 hchecked
  cases hresized
  exact ⟨rfl, rfl⟩

/-- **The layout is uniform.** The segments of a node have one indentation for each step and unhandled node in it and
two for each `let` block, and the lines of references are fixed texts; under any width and at any depth, as long as the
blanks can be counted, the text of the node is written from these segments with as many blanks for each indentation as
the width times its depth. So is the text of an outline of a source, and another width has the same segments. -/
theorem render_uniform :
    (∀ (references : ReferenceMap) (node : Node),
      (node.segments references).countP Segment.isBlanks = ((node.visited fun _ => true).map Node.marks).sum ∧
      (∀ key value, node.Contains (.step key value) →
        .fixed (referenceLine (references.get (key.getD unknownKey))) ∈ node.segments references) ∧
      ∀ width depth, Fits width depth (node.segments references) →
        node.render references width depth =
          String.join ((node.segments references).map (Segment.write width depth))) ∧
    ∀ source (outline : Outline), FromSource source outline →
      outline.text = String.join (outline.segments.map (Segment.write outline.width 0)) ∧
      ∀ width resized, outline.withWidth width = .ok resized →
        resized.width = width ∧ resized.segments = outline.segments ∧
        resized.text = String.join (outline.segments.map (Segment.write width 0)) := by
  refine ⟨fun references node => ⟨?_, ?_, ?_⟩, fun source outline hsource => ⟨?_, ?_⟩⟩
  · exact Node.countP_segments references node
  · intro key value hstep
    apply Node.fixed_mem_segments references hstep
    simp [Node.layout]
  · intro width depth hfits
    exact Node.render_eq_segments references hfits
  · exact text_eq_segments hsource
  · intro width resized hresized
    obtain ⟨hwidth, hsegments⟩ := segments_withWidth hresized
    have htext := text_eq_segments (.resized hsource hresized)
    rw [hwidth, hsegments] at htext
    exact ⟨hwidth, hsegments, htext⟩

/-- A block with a step whose value is a chain: the head stays on its level, the tail goes one deeper. -/
def chainBlock : Node :=
  .letBlock [.step (some "a") (some (.chain (some (.unhandled "Each")) [.unhandled "Field"]))]

theorem segments_chainBlock : chainBlock.segments .empty =
    [.blanks 0, .fixed "Let\n", .blanks 1, .fixed "a", .fixed " = ", .blanks 2, .fixed "Each",
      .fixed " (Unhandled Node)", .fixed "(", .blanks 3, .fixed "Field", .fixed " (Unhandled Node)", .fixed ")",
      .fixed "\n  - References: None\n", .fixed "\n", .blanks 0, .fixed "In"] := by
  have hline : referenceLine (ReferenceMap.empty.get "a") = "\n  - References: None\n" := by decide
  simp [chainBlock, Node.segments_eq, Node.layout, Node.Piece.segments, Node.Piece.part, Node.Piece.commaSeparated,
    Segment.lower, hline]

theorem chainBlock_render_uniform :
    Fits 3 2 (chainBlock.segments .empty) ∧
    chainBlock.render .empty 3 2 = String.join ((chainBlock.segments .empty).map (Segment.write 3 2)) ∧
    (chainBlock.segments .empty).countP Segment.isBlanks = ((chainBlock.visited fun _ => true).map Node.marks).sum ∧
    .fixed (referenceLine []) ∈ chainBlock.segments .empty ∧
    ofSource eachText = .ok eachOutline ∧ eachOutline.withWidth 8 = .ok { eachOutline with width := 8 } ∧
    ({ eachOutline with width := 8 } : Outline).text =
      String.join (eachOutline.segments.map (Segment.write 8 0)) := by
  have hfits : Fits 3 2 (chainBlock.segments .empty) := by
    intro deeper hmem
    simp only [segments_chainBlock, List.mem_cons, Segment.blanks.injEq, List.not_mem_nil, reduceCtorEq, or_false,
      false_or] at hmem
    omega
  have hwidth : eachOutline.withWidth 8 = .ok { eachOutline with width := 8 } := rfl
  have hstep : chainBlock.Contains (.step (some "a") (some (.chain (some (.unhandled "Each")) [.unhandled "Field"]))) :=
    .single List.mem_cons_self
  obtain ⟨hnodes, houtlines⟩ := render_uniform
  obtain ⟨hmarks, hlines, htexts⟩ := hnodes .empty chainBlock
  obtain ⟨_, hresized⟩ := houtlines eachText eachOutline (.loaded ofSource_eachText)
  obtain ⟨_, _, htext⟩ := hresized 8 _ hwidth
  exact ⟨hfits, htexts 3 2 hfits, hmarks, hlines _ _ hstep, ofSource_eachText, hwidth, htext⟩

end Outline

end QueryOutline
