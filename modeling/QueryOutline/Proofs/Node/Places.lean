import Mathlib.Data.List.Basic
import QueryOutline.Proofs.Node.Tree

/-!
# Places in a tree of nodes

A place is the list of the numbers of the children to go down to a node. In the order of places a node comes before
everything below it, and what is further left before what is further right.

* **Nodes** (`Node.at?`, `Node.mem_above`): what stands at a place, and what stands above it.
* **Preorder** (`Node.mem_preorder`, `Node.preorder_pairwise`): every place of a tree with its node, each once and in
  order.
* **Walks** (`Node.visited_eq_reached`): a walk visits, in this order, the nodes above which it always goes on.
-/

namespace QueryOutline

/-! ## Numbered items -/

theorem flatMap_zipIdx {α β : Type} (f : α → List β) (items : List α) :
    (items.zipIdx.flatMap fun numbered => f numbered.1) = items.flatMap f := by
  conv => rhs; rw [← List.zipIdx_map_fst 0 items, List.flatMap_map]

/-- The numbers of items in order increase. -/
theorem zipIdx_pairwise {α : Type} (items : List α) : items.zipIdx.Pairwise fun a b => a.2 < b.2 := by
  rw [← List.pairwise_map (f := Prod.snd) (R := (· < ·)), List.zipIdx_map_snd]
  exact List.pairwise_lt_range'

namespace Node

/-! ## Nodes at places -/

/-- The node at a place: each number enters that child. -/
def at? (node : Node) : List Nat → Option Node
  | [] => some node
  | index :: place => node.children[index]?.bind fun child => child.at? place

theorem at?_cons_eq_some {node target : Node} {index : Nat} {place : List Nat} :
    node.at? (index :: place) = some target ↔
      ∃ child, node.children[index]? = some child ∧ child.at? place = some target := by
  rw [at?, Option.bind_eq_some_iff]

/-- The nodes above a place, from the root down. -/
def above (node : Node) : List Nat → List Node
  | [] => []
  | index :: place => node :: (node.children[index]?.map fun child => child.above place).getD []

theorem above_cons {node child : Node} {index : Nat} (h : node.children[index]? = some child) (place : List Nat) :
    node.above (index :: place) = node :: child.above place := by
  rw [above, h]
  rfl

/-- Above a place stand the nodes at the shorter places that lead to it. -/
theorem mem_above : ∀ {node ancestor : Node} {place : List Nat},
    ancestor ∈ node.above place ↔ ∃ upper, upper <+: place ∧ upper ≠ place ∧ node.at? upper = some ancestor
  | node, ancestor, [] => by
    refine iff_of_false List.not_mem_nil ?_
    rintro ⟨upper, hprefix, hne, _⟩
    exact hne (List.prefix_nil.1 hprefix)
  | node, ancestor, index :: place => by
    rw [above, List.mem_cons]
    constructor
    · rintro (rfl | h)
      · exact ⟨[], List.nil_prefix, (List.cons_ne_nil index place).symm, rfl⟩
      · cases hchild : node.children[index]? with
        | none => simp [hchild] at h
        | some child =>
          rw [hchild, Option.map_some, Option.getD_some, mem_above] at h
          obtain ⟨upper, hprefix, hne, hat⟩ := h
          exact ⟨index :: upper, List.cons_prefix_cons.2 ⟨rfl, hprefix⟩, by simpa using hne,
            at?_cons_eq_some.2 ⟨child, hchild, hat⟩⟩
    · rintro ⟨upper, hprefix, hne, hat⟩
      cases upper with
      | nil => exact .inl (Option.some.inj hat).symm
      | cons first upper =>
        obtain ⟨rfl, hrest⟩ := List.cons_prefix_cons.1 hprefix
        obtain ⟨child, hchild, hat⟩ := at?_cons_eq_some.1 hat
        rw [hchild, Option.map_some, Option.getD_some, mem_above]
        exact .inr ⟨upper, hrest, by simpa using hne, hat⟩

/-! ## Preorder -/

/-- All nodes of a tree with their places, each node before what is below it, and its children from left to right. -/
def preorder (node : Node) : List (List Nat × Node) :=
  ([], node) :: node.children.attach.zipIdx.flatMap fun numbered =>
    (preorder numbered.1.1).map (Prod.map (numbered.2 :: ·) id)
termination_by sizeOf node
decreasing_by exact sizeOf_lt_of_mem_children numbered.1.2

theorem preorder_eq (node : Node) :
    node.preorder =
      ([], node) :: node.children.zipIdx.flatMap fun numbered =>
        numbered.1.preorder.map (Prod.map (numbered.2 :: ·) id) := by
  have hattach : node.children.zipIdx = node.children.attach.zipIdx.map (Prod.map Subtype.val id) := by
    rw [← List.zipIdx_map, List.attach_map_subtype_val]
  rw [preorder, hattach, List.flatMap_map]
  rfl

/-- The preorder has every place of the tree, with its node. -/
theorem mem_preorder : ∀ {node target : Node} {place : List Nat},
    (place, target) ∈ node.preorder ↔ node.at? place = some target
  | node, target, [] => by
    rw [preorder_eq, at?, Option.some.injEq]
    simp [eq_comm]
  | node, target, index :: place => by
    rw [preorder_eq, at?_cons_eq_some]
    simp only [List.mem_cons, Prod.mk.injEq, reduceCtorEq, false_and, false_or, List.mem_flatMap, List.mem_map,
      Prod.exists, List.mem_zipIdx_iff_getElem?, Prod.map_apply, List.cons.injEq, id_eq]
    constructor
    · rintro ⟨child, index, hchild, place, target, hmem, ⟨rfl, rfl⟩, rfl⟩
      exact ⟨child, hchild, mem_preorder.1 hmem⟩
    · rintro ⟨child, hchild, hat⟩
      exact ⟨child, index, hchild, place, target, mem_preorder.2 hat, ⟨rfl, rfl⟩, rfl⟩

/-- The places in preorder increase, so each occurs once. -/
theorem preorder_pairwise (node : Node) : node.preorder.Pairwise fun a b => a.1 < b.1 := by
  induction node using induction_children with
  | step node ih =>
    rw [preorder_eq, List.pairwise_cons, List.pairwise_flatMap]
    refine ⟨fun below hbelow => ?_, fun numbered hnumbered => ?_, ?_⟩
    -- the root against all below it, two places below one child, and places below two children
    · obtain ⟨_, _, hbelow⟩ := List.mem_flatMap.1 hbelow
      obtain ⟨_, _, rfl⟩ := List.mem_map.1 hbelow
      exact List.nil_lt_cons _ _
    · refine List.pairwise_map.2 ((ih numbered.1 (List.fst_mem_of_mem_zipIdx hnumbered)).imp fun {a b} h => ?_)
      exact List.cons_lt_cons_iff.2 (.inr ⟨rfl, h⟩)
    · refine (zipIdx_pairwise node.children).imp fun {a b} h => ?_
      intro x hx y hy
      obtain ⟨_, _, rfl⟩ := List.mem_map.1 hx
      obtain ⟨_, _, rfl⟩ := List.mem_map.1 hy
      exact List.cons_lt_cons_iff.2 (.inl h)

/-! ## Walks -/

section Walks

variable (descend : Node → Bool)

/-- The walk goes on below every node above the place. -/
def reaches (node : Node) (place : List Nat) : Bool := (node.above place).all descend

/-- The places that a walk reaches, with their nodes, in preorder. -/
def reached (node : Node) : List (List Nat × Node) := node.preorder.filter fun x => node.reaches descend x.1

theorem reaches_iff {node : Node} {place : List Nat} :
    node.reaches descend place = true ↔
      ∀ upper ancestor, upper <+: place → upper ≠ place → node.at? upper = some ancestor → descend ancestor = true := by
  rw [reaches, List.all_eq_true]
  constructor
  · intro h upper ancestor hprefix hne hat
    exact h ancestor (mem_above.2 ⟨upper, hprefix, hne, hat⟩)
  · intro h ancestor hmem
    obtain ⟨upper, hprefix, hne, hat⟩ := mem_above.1 hmem
    exact h upper ancestor hprefix hne hat

theorem reaches_cons {node child : Node} {index : Nat} (h : node.children[index]? = some child) (place : List Nat) :
    node.reaches descend (index :: place) = (descend node && child.reaches descend place) := by
  rw [reaches, above_cons h, List.all_cons, reaches]

/-- What is reached below a node is reached below its children, if the walk goes on there. -/
theorem reached_eq (node : Node) :
    node.reached descend =
      ([], node) :: if descend node then node.children.zipIdx.flatMap fun numbered =>
        (numbered.1.reached descend).map (Prod.map (numbered.2 :: ·) id) else [] := by
  -- the walk goes on above the places below a child if it does at the node and then from the child on
  have hchild : ∀ numbered ∈ node.children.zipIdx,
      (numbered.1.preorder.map (Prod.map (numbered.2 :: ·) id)).filter (fun x => node.reaches descend x.1) =
        if descend node then (numbered.1.reached descend).map (Prod.map (numbered.2 :: ·) id) else [] := by
    rintro ⟨child, index⟩ hmem
    have hat := List.mem_zipIdx_iff_getElem?.1 hmem
    rw [List.filter_map]
    split
    · rename_i hdescend
      simp [reached, Function.comp_def, reaches_cons descend hat, hdescend]
    · rename_i hdescend
      simp [Function.comp_def, reaches_cons descend hat, hdescend]
  rw [reached, preorder_eq, List.filter_cons_of_pos (by rfl), List.filter_flatMap, List.flatMap_congr hchild]
  split <;> simp

/-- **Walks.** A walk visits, in preorder, the nodes above which it always goes on. -/
theorem visited_eq_reached (node : Node) : visited descend node = (node.reached descend).map Prod.snd := by
  induction node using induction_children with
  | step node ih =>
    rw [visited_eq, reached_eq, List.map_cons]
    split
    · rw [← flatMap_zipIdx, List.map_flatMap]
      congr 1
      refine List.flatMap_congr fun numbered hnumbered => ?_
      rw [ih numbered.1 (List.fst_mem_of_mem_zipIdx hnumbered), List.map_map]
      rfl
    · rfl

/-- A walk that always goes on visits all nodes in preorder. -/
theorem visited_all (node : Node) : visited (fun _ => true) node = node.preorder.map Prod.snd := by
  have hall : node.reached (fun _ => true) = node.preorder :=
    List.filter_eq_self.2 fun x _ => List.all_eq_true.2 fun _ _ => rfl
  rw [visited_eq_reached, hall]

end Walks

end Node

end QueryOutline
