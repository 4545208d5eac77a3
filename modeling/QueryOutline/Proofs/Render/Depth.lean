import QueryOutline.Proofs.Attempts
import QueryOutline.Proofs.Document.LevelOrder
import QueryOutline.Proofs.Json.ReadBack
import QueryOutline.Proofs.Node.Conversion
import QueryOutline.Proofs.Render.Strokes
import QueryOutline.Proofs.Render.Width

/-!
# How deep rendering goes

Each level of rendering uses up at least one array or object of the value that the node comes from, so the depths stay
below its nesting and no product of a width and a depth leaves a word of 64 bits.

* **Layouts** (`Node.shallow_layout`): a child is at most one level deeper than its node.
* **Nodes of values** (`Node.within_strokes`): rendering from a depth on stays within the nesting of the value.
* **Steps** (`Document.depth_step`): the steps of a document come from values two levels inside the root.
* **Outlines** (`Outline.depths_bounded`): the depths of an outline are at most 125, those of its indentations 124.
-/

namespace QueryOutline

/-- No call of rendering is deeper than the limit, and each indentation is less deep. -/
def Stroke.Within (limit : Nat) : Stroke → Prop
  | enter _ depth => depth ≤ limit
  | indent depth => depth < limit
  | fixed _ => True

theorem Stroke.Within.mono {limit greater : Nat} (h : limit ≤ greater) : ∀ {stroke : Stroke},
    stroke.Within limit → stroke.Within greater
  | enter _ _, hdepth => Nat.le_trans hdepth h
  | indent _, hdepth => Nat.lt_of_lt_of_le hdepth h
  | fixed _, _ => trivial

theorem within_intercalate {limit : Nat} (separator : String) : ∀ {parts : List (List Stroke)},
    (∀ strokes ∈ parts, ∀ stroke ∈ strokes, stroke.Within limit) →
      ∀ stroke ∈ [.fixed separator].intercalate parts, Stroke.Within limit stroke
  | [], _ => nofun
  | [strokes], h => by simpa using h
  | strokes :: next :: parts, h => by
    obtain ⟨hstrokes, hparts⟩ := List.forall_mem_cons.1 h
    rw [List.intercalate_cons_cons]
    refine List.forall_mem_append.2 ⟨List.forall_mem_append.2 ⟨hstrokes, ?_⟩, within_intercalate separator hparts⟩
    exact List.forall_mem_singleton.2 trivial

namespace Node

/-! ## Layouts -/

/-- How much deeper than the node the text of a piece is. -/
def Piece.deeper : Piece → Nat
  | child _ deeper => deeper
  | _ => 0

/-- No piece is more than one level deeper than the node. -/
def Shallow (pieces : List Piece) : Prop := ∀ piece ∈ pieces, piece.deeper ≤ 1

theorem shallow_nil : Shallow [] := nofun

theorem shallow_cons {piece : Piece} {pieces : List Piece} :
    Shallow (piece :: pieces) ↔ piece.deeper ≤ 1 ∧ Shallow pieces :=
  List.forall_mem_cons

theorem shallow_append {pieces more : List Piece} : Shallow (pieces ++ more) ↔ Shallow pieces ∧ Shallow more :=
  List.forall_mem_append

theorem shallow_children (nodes : List Node) : Shallow (nodes.map (Piece.child · 1)) := by
  intro piece hpiece
  obtain ⟨_, _, rfl⟩ := List.mem_map.1 hpiece
  exact Nat.le_refl 1

theorem shallow_commaSeparated : ∀ nodes : List Node, Shallow (Piece.commaSeparated nodes)
  | [] => shallow_nil
  | [_] => shallow_cons.2 ⟨Nat.le_refl 1, shallow_nil⟩
  | _ :: next :: nodes =>
    shallow_cons.2 ⟨Nat.le_refl 1, shallow_cons.2 ⟨Nat.zero_le 1, shallow_commaSeparated (next :: nodes)⟩⟩

theorem deeper_fixed (s : String) : (Piece.fixed s).deeper = 0 := rfl

theorem deeper_indent : Piece.indent.deeper = 0 := rfl

theorem deeper_part {deeper : Nat} (h : deeper ≤ 1) (placeholder : String) (node? : Option Node) :
    (Piece.part deeper placeholder node?).deeper ≤ 1 := by
  cases node? with
  | none => exact Nat.zero_le 1
  | some node => exact h

/-- **Layouts.** A child is at most one level deeper than its node. -/
theorem shallow_layout (references : ReferenceMap) (node : Node) : Shallow (node.layout references) := by
  cases node <;>
    simp only [layout, shallow_append, shallow_cons, shallow_nil, shallow_children, shallow_commaSeparated,
      deeper_fixed, deeper_indent, deeper_part, Nat.zero_le, Nat.le_refl, and_true]

/-- Only the node of an array or object is indented. -/
theorem depth_pos_of_indent {references : ReferenceMap} {value : Json.Value}
    (h : .indent ∈ (ofJson value).layout references) : 0 < value.depth := by
  cases value with
  | object fields => exact Nat.succ_pos _
  | array items => exact Nat.succ_pos _
  | _ => simp [ofJson, convert, layout] at h

/-! ## Nodes of values -/

/-- **Nodes of values.** Rendering from a depth on stays within the nesting of the value. -/
theorem within_strokes (references : ReferenceMap) (value : Json.Value) (depth : Nat) :
    ∀ stroke ∈ (ofJson value).strokes references depth, stroke.Within (depth + value.depth) := by
  -- by induction on the nesting, which every child has less of
  induction hnesting : value.depth using Nat.strong_induction_on generalizing value depth with
  | h nesting ih =>
    subst hnesting
    rw [strokes_eq]
    refine List.forall_mem_cons.2 ⟨Nat.le_add_right depth _, fun stroke hstroke => ?_⟩
    obtain ⟨piece, hpiece, hstroke⟩ := List.mem_flatMap.1 hstroke
    cases piece with
    | fixed s =>
      obtain rfl := List.mem_singleton.1 hstroke
      exact trivial
    | indent =>
      obtain rfl := List.mem_singleton.1 hstroke
      exact Nat.lt_add_of_pos_right (depth_pos_of_indent hpiece)
    | child child deeper =>
      obtain ⟨part, rfl, hpart⟩ := mem_children_ofJson (mem_children_of_mem_layout hpiece)
      have hdeeper : deeper ≤ 1 := shallow_layout references _ _ hpiece
      have hless := hpart.depth_lt
      exact (ih part.depth hless part (depth + deeper) rfl stroke hstroke).mono (by omega)

end Node

/-! ## Steps -/

namespace Json.Value

theorem depth_le_of_at? : ∀ {position : List Nat} {value inner : Value},
    value.at? position = some inner → inner.depth ≤ value.depth
  | [], value, inner, h => Nat.le_of_eq (congrArg depth (Option.some.inj h).symm)
  | place :: position, value, inner, h => by
    obtain ⟨part, hpart, hinner⟩ := Option.bind_eq_some_iff.1 h
    have hbelow := depth_le_of_at? hinner
    have hlt := depth_lt_of_mem_parts (List.mem_of_getElem? hpart)
    omega

end Json.Value

/-- **Steps.** A list of steps is a field of an object, so its items lie two levels inside the root. -/
theorem Document.depth_step {root : Json.Value} {document : Document} (h : ofJson root = .ok document) {step : Node}
    (hstep : step ∈ document.steps) : ∃ item, step = Node.ofJson item ∧ item.depth + 2 ≤ root.depth := by
  have hroot : (∃ items, root = .array items) ∨ ∃ fields, root = .object fields := by
    cases root with
    | array items => exact .inl ⟨items, rfl⟩
    | object fields => exact .inr ⟨fields, rfl⟩
    | _ => cases h
  rw [ofJson_of_container hroot, Except.ok.injEq] at h
  subst h
  cases hlist : variableList? root with
  | none => simp [steps, hlist] at hstep
  | some list =>
    simp only [steps, hlist, Option.map_some, Option.getD_some] at hstep
    obtain ⟨item, hitem, rfl⟩ := List.mem_map.1 hstep
    cases hitems : elements? list with
    | none => simp [hitems] at hitem
    | some items =>
      rw [hitems, Option.getD_some] at hitem
      obtain ⟨value, hvalue, position, fields, hat, hlookup⟩ := exists_of_searchQueue hlist
      rw [List.mem_singleton] at hvalue
      subst hvalue
      have hinside := (Json.Value.encloses_of_elements hitems hitem).depth_lt
      have hfield := (Json.Value.encloses_of_lookup hlookup).depth_lt
      have hroot := Json.Value.depth_le_of_at? hat
      exact ⟨item, rfl, by omega⟩

/-! ## Outlines -/

namespace Outline

/-- The outlines of a source: as it is loaded, and with any other width that is accepted. -/
inductive FromSource (source : String) : Outline → Prop where
  | loaded {outline : Outline} (h : ofSource source = .ok outline) : FromSource source outline
  | resized {outline resized : Outline} {width : Nat} (h : FromSource source outline)
    (hwidth : outline.withWidth width = .ok resized) : FromSource source resized

theorem fromSource_document {source : String} {outline : Outline} (h : FromSource source outline) :
    readDocument source = .ok outline.document := by
  induction h with
  | loaded h =>
    obtain ⟨document, hdocument, h⟩ := bind_eq_ok_iff.1 h
    cases h
    exact hdocument
  | resized _ hwidth ih =>
    obtain ⟨_, _, hwidth⟩ := bind_eq_ok_iff.1 hwidth
    cases hwidth
    exact ih

theorem fromSource_width {source : String} {outline : Outline} (h : FromSource source outline) : outline.width ≤ 8 := by
  cases h with
  | loaded h =>
    obtain ⟨_, _, h⟩ := bind_eq_ok_iff.1 h
    cases h
    show defaultWidth ≤ 8
    decide
  | resized _ hwidth =>
    obtain ⟨checked, hchecked, hwidth⟩ := bind_eq_ok_iff.1 hwidth
    cases hwidth
    obtain ⟨⟨_, hbound⟩, rfl⟩ := checkWidth_eq_ok_iff.1 hchecked
    exact hbound

/-- The strokes with which the text of an outline and the reports of its steps are written. -/
def Draws (outline : Outline) (stroke : Stroke) : Prop :=
  stroke ∈ outline.strokes ∨ ∃ step ∈ outline.document.steps, stroke ∈ step.strokes outline.references 0

/-- The depths of rendering an outline stay below the nesting that a source can have. -/
theorem within_of_draws {source : String} {outline : Outline} (h : FromSource source outline) {stroke : Stroke}
    (hstroke : outline.Draws stroke) : stroke.Within 125 := by
  have hstep : ∀ step ∈ outline.document.steps, ∀ stroke ∈ step.strokes outline.references 0, stroke.Within 125 := by
    intro step hstep stroke hstroke
    obtain ⟨root, hroot, hdocument⟩ := bind_eq_ok_iff.1 (fromSource_document h)
    obtain ⟨item, rfl, hinside⟩ := Document.depth_step hdocument hstep
    have hnesting := Json.depth_le_of_read (mapError_eq_ok_iff.1 hroot)
    exact (Node.within_strokes outline.references item 0 stroke hstroke).mono (by omega)
  rcases hstroke with hstroke | ⟨step, hmem, hstroke⟩
  · refine within_intercalate "\n" (fun strokes hstrokes => ?_) stroke hstroke
    obtain ⟨step, hmem, rfl⟩ := List.mem_map.1 hstrokes
    exact hstep step hmem
  · exact hstep step hmem stroke hstroke

/-- Within words of 64 bits an indentation has exactly as many blanks as its width times its depth. -/
theorem indentation_of_lt {width depth : Nat} (h : width * depth < 2 ^ 64) :
    indentation width depth = String.ofList (List.replicate (width * depth) ' ') := by
  have hmod : width * depth % Nat.pow 2 64 = width * depth := Nat.mod_eq_of_lt h
  rw [indentation, hmod]

/-- **Depths are bounded.** A rendering is its layout, with a call for each child and an indentation where the layout
has one, and the strokes record these with their depths. Rendering the node of a JSON value indents only at depths below
the nesting of the value. For an outline of a source, rendering is called for depths up to 125, so one more level is no
overflow, and indents at depths up to 124, where the number of blanks is the product of width and depth. -/
theorem depths_bounded :
    (∀ references width depth (node : Node),
      node.render references width depth =
        String.join ((node.layout references).map (Node.Piece.write references width depth)) ∧
      node.strokes references depth =
        .enter node depth :: (node.layout references).flatMap (Node.Piece.strokes references depth)) ∧
    (∀ (value : Json.Value) references depth,
      .indent depth ∈ (Node.ofJson value).strokes references 0 → depth < value.depth) ∧
    ∀ source (outline : Outline), FromSource source outline →
      written outline.width outline.strokes = outline.text ∧
      (∀ step ∈ outline.document.steps,
        written outline.width (step.strokes outline.references 0) = (outline.stepReport step).rendered) ∧
      (∀ node depth, outline.Draws (.enter node depth) → depth ≤ 125 ∧ depth + 1 < 2 ^ 64) ∧
      ∀ depth, outline.Draws (.indent depth) →
        depth ≤ 124 ∧ outline.width * depth ≤ 992 ∧
        indentation outline.width depth = String.ofList (List.replicate (outline.width * depth) ' ') := by
  refine ⟨fun references width depth node => ⟨?_, ?_⟩, fun value references depth hindent => ?_, ?_⟩
  · exact Node.render_eq_layout references width depth node
  · exact Node.strokes_eq references depth node
  · have hwithin : (Stroke.indent depth).Within (0 + value.depth) := Node.within_strokes references value 0 _ hindent
    rwa [Nat.zero_add] at hwithin
  · intro source outline h
    refine ⟨outline.written_strokes, fun step _ => ?_, fun node depth henter => ?_, fun depth hindent => ?_⟩
    · exact Node.written_strokes outline.references outline.width step 0
    · have hdepth : depth ≤ 125 := within_of_draws h henter
      exact ⟨hdepth, by omega⟩
    · have hdepth : depth < 125 := within_of_draws h hindent
      have hproduct : outline.width * depth ≤ 8 * 124 := Nat.mul_le_mul (fromSource_width h) (by omega)
      exact ⟨by omega, hproduct, indentation_of_lt (by omega)⟩

/-- A list of a step whose value is an unhandled node. -/
def eachValue : Json.Value :=
  .object [("variableList", .array [.object
    [("key", .string "a"), ("kind", .string "IdentifierPairedExpression"),
      ("value", .object [("kind", .string "EachExpression")])]])]

/-- The text of that list, and its outline. -/
def eachText : String := Json.compact eachValue

def eachOutline : Outline := ofDocument (.ofSteps [.step (some "a") (some (.unhandled "EachExpression"))])

theorem ofSource_eachText : ofSource eachText = .ok eachOutline := by
  have hread : readJson eachText = .ok eachValue := readJson_compact (by decide) (by decide)
  have hlist : variableList? eachValue = eachValue.field? "variableList" := by
    rw [variableList?, searchQueue_cons]
    rfl
  rw [ofSource, readDocument, hread]
  show (do return ofDocument (← Document.ofJson eachValue)) = _
  rw [eachValue, Document.ofJson, ← eachValue, hlist]
  rfl

theorem eachText_depths_bounded :
    ofSource eachText = .ok eachOutline ∧ eachOutline.withWidth 8 = .ok { eachOutline with width := 8 } ∧
    ({ eachOutline with width := 8 } : Outline).text =
      "a =         EachExpression (Unhandled Node)\n  - References: None\n" ∧
    ({ eachOutline with width := 8 } : Outline).Draws (.indent 1) ∧ 8 * 1 ≤ 992 ∧
    indentation 8 1 = String.ofList (List.replicate (8 * 1) ' ') := by
  have hwidth : eachOutline.withWidth 8 = .ok { eachOutline with width := 8 } := rfl
  have hdraws : ({ eachOutline with width := 8 } : Outline).Draws (.indent 1) := by
    refine .inr ⟨_, List.mem_singleton.2 rfl, ?_⟩
    simp [Node.strokes_eq, Node.layout, Node.Piece.strokes, Node.Piece.part]
  obtain ⟨_, _, hbounded⟩ := depths_bounded
  obtain ⟨_, _, _, hindent⟩ := hbounded eachText _ (.resized (.loaded ofSource_eachText) hwidth)
  obtain ⟨_, hproduct, hblanks⟩ := hindent 1 hdraws
  exact ⟨ofSource_eachText, hwidth, by decide +kernel, hdraws, hproduct, hblanks⟩

end Outline

end QueryOutline
