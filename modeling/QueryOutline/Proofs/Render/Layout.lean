import QueryOutline.Proofs.Node.Tree
import QueryOutline.Render

/-!
# The layout of a node

`Node.layout` says what rendering writes for one node: fixed texts, the node's own indentation, and the texts of
children, so many levels deeper.

* **Rendering** (`Node.render_eq_layout`): the text of a node is its layout, with the text of each child in its place.
* **Children** (`Node.children_layout`): a layout has a place for every child, in order.
-/

namespace QueryOutline

theorem map_intersperse {α β : Type} (f : α → β) (separator : α) : ∀ items : List α,
    (items.intersperse separator).map f = (items.map f).intersperse (f separator)
  | [] => rfl
  | [_] => rfl
  | item :: next :: items => by
    simp only [List.intersperse_cons_cons, List.map_cons, map_intersperse f separator (next :: items)]

/-- Joining texts with a separator between them. -/
theorem join_intersperse (separator : String) : ∀ texts : List String,
    String.join (texts.intersperse separator) = separator.intercalate texts
  | [] => rfl
  | [text] => by simp
  | text :: next :: texts => by
    rw [List.intersperse_cons_cons, String.join_cons, String.join_cons, join_intersperse separator (next :: texts),
      String.intercalate_cons_cons, String.append_assoc]

namespace Node

/-- A piece of what rendering writes for one node. -/
inductive Piece where
  | fixed (text : String)
  /-- The blanks of the node's own depth. -/
  | indent
  /-- The text of a child, so many levels deeper than the node. -/
  | child (node : Node) (deeper : Nat)

namespace Piece

/-- The child whose text stands here. -/
def child? : Piece → Option Node
  | child node _ => some node
  | _ => none

/-- An optional part, with a placeholder for a missing one. -/
def part (deeper : Nat) (placeholder : String) : Option Node → Piece
  | none => fixed placeholder
  | some node => child node deeper

/-- Parts one level deeper, with commas between them. -/
def commaSeparated (nodes : List Node) : List Piece := (nodes.map (child · 1)).intersperse (fixed ", ")

/-- The text of a piece of a node at a depth. -/
def write (references : ReferenceMap) (width depth : Nat) : Piece → String
  | fixed s => s
  | indent => indentation width depth
  | child node deeper => node.render references width (depth + deeper)

end Piece

open Piece in
/-- What rendering writes for a node, piece by piece. -/
def layout (references : ReferenceMap) : Node → List Piece
  | step key value =>
    [indent, fixed (key.getD unknownKey), fixed " = ", part 1 "Unknown Value" value,
      fixed (referenceLine (references.get (key.getD unknownKey)))]
  | letBlock steps => [indent, fixed "Let\n"] ++ steps.map (child · 1) ++ [fixed "\n", indent, fixed "In"]
  | list elements => [fixed "List("] ++ commaSeparated elements ++ [fixed ")"]
  | function parameters body =>
    [fixed "Function("] ++ commaSeparated parameters ++ [fixed ") => ", part 1 "Unknown Body" body]
  | arithmetic left operator right =>
    [fixed "(", part 1 "Unknown Left" left, fixed " ", fixed (operator.getD "?"), fixed " ",
      part 1 "Unknown Right" right, fixed ")"]
  | chain head tails => [part 0 "Unknown Head" head, fixed "("] ++ commaSeparated tails ++ [fixed ")"]
  | invoke content => [fixed "Invoke(", part 1 "Unknown Content" content, fixed ")"]
  | group elements => commaSeparated elements
  | identifier name => [fixed (name.getD "Unknown Identifier")]
  | literal value => [fixed (literalText value)]
  | wrapper inner => [part 0 "Unknown Node" inner]
  | unhandled kind => [indent, fixed kind, fixed " (Unhandled Node)"]
  | text t => [fixed t]

/-! ## Rendering -/

section Render

variable (references : ReferenceMap) (width depth : Nat)

theorem renderList_eq_map : ∀ nodes, renderList references width depth nodes = nodes.map (render references width depth)
  | [] => rfl
  | node :: nodes => by rw [renderList, renderList_eq_map nodes, List.map_cons]

theorem write_fixed (s : String) : (Piece.fixed s).write references width depth = s := rfl

theorem write_indent : Piece.indent.write references width depth = indentation width depth := rfl

/-- The text of an optional part is the one of its piece. -/
theorem write_part (deeper : Nat) (placeholder : String) (node? : Option Node) :
    (Piece.part deeper placeholder node?).write references width depth =
      renderOption references width (depth + deeper) placeholder node? := by
  cases node? <;> rfl

theorem join_commaSeparated (nodes : List Node) :
    String.join ((Piece.commaSeparated nodes).map (Piece.write references width depth)) =
      ", ".intercalate (renderList references width (depth + 1) nodes) := by
  rw [renderList_eq_map, ← join_intersperse, Piece.commaSeparated, map_intersperse, List.map_map]
  rfl

theorem join_children (nodes : List Node) :
    String.join ((nodes.map (Piece.child · 1)).map (Piece.write references width depth)) =
      String.join (renderList references width (depth + 1) nodes) := by
  rw [renderList_eq_map, List.map_map]
  rfl

/-- **Rendering.** The text of a node is its layout, with the text of each child in its place. -/
theorem render_eq_layout (node : Node) :
    node.render references width depth =
      String.join ((node.layout references).map (Piece.write references width depth)) := by
  cases node <;>
    simp only [render, layout, List.map_append, List.map_cons, List.map_nil, String.join_append, String.join_cons,
      String.join_nil, String.append_empty, String.append_assoc, write_fixed, write_indent, write_part,
      join_commaSeparated, join_children, Nat.add_zero]

end Render

/-! ## Children -/

theorem filterMap_child?_cons (piece : Piece) (pieces : List Piece) :
    (piece :: pieces).filterMap Piece.child? = piece.child?.toList ++ pieces.filterMap Piece.child? := by
  cases piece <;> rfl

theorem child?_fixed (s : String) : (Piece.fixed s).child? = none := rfl

theorem child?_indent : Piece.indent.child? = none := rfl

theorem child?_part (deeper : Nat) (placeholder : String) (node? : Option Node) :
    (Piece.part deeper placeholder node?).child? = node? := by
  cases node? <;> rfl

theorem filterMap_children (nodes : List Node) : (nodes.map (Piece.child · 1)).filterMap Piece.child? = nodes := by
  rw [List.filterMap_map]
  exact List.filterMap_some

theorem filterMap_commaSeparated : ∀ nodes, (Piece.commaSeparated nodes).filterMap Piece.child? = nodes
  | [] => rfl
  | [_] => rfl
  | node :: next :: nodes => congrArg (node :: ·) (filterMap_commaSeparated (next :: nodes))

/-- A layout has a place for every child, in order. -/
theorem children_layout (references : ReferenceMap) (node : Node) :
    (node.layout references).filterMap Piece.child? = node.children := by
  cases node <;>
    simp only [layout, children, List.filterMap_append, filterMap_child?_cons, List.filterMap_nil, child?_fixed,
      child?_indent, child?_part, filterMap_children, filterMap_commaSeparated, Option.toList_none, List.nil_append,
      List.append_nil]

/-- The children in a layout are children of the node. -/
theorem mem_children_of_mem_layout {references : ReferenceMap} {node child : Node} {deeper : Nat}
    (h : Piece.child child deeper ∈ node.layout references) : child ∈ node.children := by
  rw [← children_layout references node]
  exact List.mem_filterMap.2 ⟨_, h, rfl⟩

end Node

end QueryOutline
