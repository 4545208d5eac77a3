import Mathlib.Logic.Relation
import QueryOutline.Node.Walk

/-!
# Trees of nodes and walks through them

* **Induction** (`Node.induction_children`): what holds of a node whenever it holds of its children holds of all nodes.
* **Walks** (`Node.visited_eq`): a walk visits a node and then, where it goes on, walks through the children in order.
* **Paths** (`Node.mem_visited`): a walk visits exactly the nodes to which a path leads whose every node but the last
  satisfies the condition; without a condition, all that the root contains (`Node.mem_visited_all`).
-/

namespace QueryOutline.Node

/-! ## Induction over children -/

/-- A child is smaller than its node. -/
theorem sizeOf_lt_of_mem_children {node child : Node} (h : child ∈ node.children) : sizeOf child < sizeOf node := by
  cases node <;>
    simp only [children, List.mem_append, Option.mem_toList, List.not_mem_nil] at h
  case step key value => subst h; simp only [step.sizeOf_spec, Option.some.sizeOf_spec]; omega
  case letBlock steps => have := List.sizeOf_lt_of_mem h; simp only [letBlock.sizeOf_spec]; omega
  case list elements => have := List.sizeOf_lt_of_mem h; simp only [list.sizeOf_spec]; omega
  case function parameters body =>
    rcases h with h | rfl
    · have := List.sizeOf_lt_of_mem h; simp only [function.sizeOf_spec]; omega
    · simp only [function.sizeOf_spec, Option.some.sizeOf_spec]; omega
  case arithmetic left operator right =>
    rcases h with rfl | rfl <;> simp only [arithmetic.sizeOf_spec, Option.some.sizeOf_spec] <;> omega
  case chain head tails =>
    rcases h with rfl | h
    · simp only [chain.sizeOf_spec, Option.some.sizeOf_spec]; omega
    · have := List.sizeOf_lt_of_mem h; simp only [chain.sizeOf_spec]; omega
  case invoke content => subst h; simp only [invoke.sizeOf_spec, Option.some.sizeOf_spec]; omega
  case group elements => have := List.sizeOf_lt_of_mem h; simp only [group.sizeOf_spec]; omega
  case wrapper inner => subst h; simp only [wrapper.sizeOf_spec, Option.some.sizeOf_spec]; omega

/-- Induction over the children of a node. -/
theorem induction_children {P : Node → Prop} (step : ∀ node, (∀ child ∈ node.children, P child) → P node)
    (node : Node) : P node :=
  step node fun child _hc => induction_children step child
termination_by sizeOf node
decreasing_by exact sizeOf_lt_of_mem_children _hc

/-! ## Walks -/

section Walks

variable (descend : Node → Bool)

theorem visitedOption_eq : ∀ node?, visitedOption descend node? = node?.toList.flatMap (visited descend)
  | none => rfl
  | some node => by simp [visitedOption]

theorem visitedList_eq : ∀ nodes, visitedList descend nodes = nodes.flatMap (visited descend)
  | [] => rfl
  | node :: nodes => by rw [visitedList, visitedList_eq nodes, List.flatMap_cons]

/-- A walk visits a node and then, where it goes on, walks through the children in order. -/
theorem visited_eq (node : Node) :
    visited descend node = node :: if descend node then node.children.flatMap (visited descend) else [] := by
  cases node <;> simp [visited, children, visitedOption_eq, visitedList_eq]

theorem self_mem_visited (node : Node) : node ∈ visited descend node := by
  rw [visited_eq]
  exact List.mem_cons_self

/-- One step down, from a node below which the walk goes on. -/
def Descends (node child : Node) : Prop := descend node = true ∧ child ∈ node.children

variable {descend}

/-- The nodes below a visited node at which the walk goes on are visited as well. -/
theorem visited_of_mem_children {node child : Node} (h : Descends descend node child) {target : Node}
    (ht : target ∈ visited descend child) : target ∈ visited descend node := by
  rw [visited_eq, if_pos h.1]
  exact List.mem_cons_of_mem _ (List.mem_flatMap.2 ⟨child, h.2, ht⟩)

/-- **Paths**: a node is visited exactly when some path leads to it below whose every earlier node the walk goes on. -/
theorem mem_visited {node target : Node} :
    target ∈ visited descend node ↔ Relation.ReflTransGen (Descends descend) node target := by
  constructor
  · induction node using induction_children with
    | step node ih =>
      intro h
      rw [visited_eq, List.mem_cons] at h
      rcases h with rfl | h
      · exact .refl
      · split at h
        · rename_i hd
          obtain ⟨child, hc, ht⟩ := List.mem_flatMap.1 h
          exact .head ⟨hd, hc⟩ (ih child hc ht)
        · cases h
  · intro h
    induction h using Relation.ReflTransGen.head_induction_on with
    | refl => exact self_mem_visited descend _
    | head hstep _ ih => exact visited_of_mem_children hstep ih

end Walks

/-- A node contains itself, its children, and so on. -/
def Contains (node target : Node) : Prop := Relation.ReflTransGen (fun node child => child ∈ node.children) node target

/-- A walk that always goes on visits exactly the nodes that the root contains. -/
theorem mem_visited_all {node target : Node} : (target ∈ node.visited fun _ => true) ↔ node.Contains target := by
  have hstep : Descends (fun _ => true) = fun node child => child ∈ node.children := by
    funext node child
    simp [Descends]
  rw [mem_visited, hstep, Contains]

theorem unhandledKind?_eq_some {node : Node} {kind : String} :
    node.unhandledKind? = some kind ↔ node = .unhandled kind := by
  cases node <;> simp [unhandledKind?]

end QueryOutline.Node
