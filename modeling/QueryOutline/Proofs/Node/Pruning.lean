import Mathlib.Data.List.Basic
import QueryOutline.Proofs.Node.Places

/-!
# Pruned walks find less, in the same order

A walk finds something at identifiers with a name and at unhandled nodes. Which nodes it comes to depends on the
condition to go on.

* **Findings** (`Node.findings_eq`): what a walk finds, in order, is what the nodes that it visits have to tell.
* **Places** (`Node.mem_found`): something is found at a place exactly when the walk goes on below every node above it.
* **Pruning** (`Node.findings_sublist`): a walk that goes on less often finds a part of what the other one finds.
-/

namespace QueryOutline.Node

/-! ## Findings -/

/-- The walk has found something, and does not only tell whether it goes on. -/
def Event.isFinding : Event → Bool
  | identifier _ => true
  | unhandled _ => true
  | descend _ _ => false

/-- The name that is found. -/
def Event.identifier? : Event → Option String
  | identifier name => some name
  | _ => none

/-- What is found at a node: the name of an identifier that has one, or the kind of an unhandled node. -/
inductive Tells : Node → Event → Prop where
  | identifier {name : String} : Tells (.identifier (some name)) (.identifier name)
  | unhandled {kind : String} : Tells (.unhandled kind) (.unhandled kind)

/-- What is found at a node, if anything. -/
def finding? : Node → Option Event
  | identifier name => name.map Event.identifier
  | unhandled kind => some (.unhandled kind)
  | _ => none

theorem finding?_eq_some {node : Node} {event : Event} : node.finding? = some event ↔ Tells node event := by
  constructor
  · intro h
    cases node <;> simp only [finding?, reduceCtorEq] at h
    case identifier name =>
      obtain ⟨name, rfl, rfl⟩ := Option.map_eq_some_iff.1 h
      exact .identifier
    case unhandled kind =>
      obtain rfl := Option.some.inj h
      exact .unhandled
  · rintro (_ | _) <;> rfl

/-- What a walk finds, in order. -/
def findings (descend : Node → Bool) (node : Node) : List Event := (events descend node).filter Event.isFinding

section Findings

variable (descend : Node → Bool)

theorem filter_eventsAt (node : Node) : (eventsAt descend node).filter Event.isFinding = node.finding?.toList := by
  cases node with
  | identifier name => cases name <;> rfl
  | _ => rfl

/-- **Findings.** A walk finds what the visited nodes have to tell. -/
theorem findings_eq (node : Node) : findings descend node = (visited descend node).filterMap finding? := by
  rw [findings, events, List.filter_flatMap, List.filterMap_eq_flatMap_toList]
  exact List.flatMap_congr fun visited _ => filter_eventsAt descend visited

theorem identifierName?_eq_bind (node : Node) : node.identifierName? = node.finding?.bind Event.identifier? := by
  cases node with
  | identifier name => cases name <;> rfl
  | _ => rfl

/-- The collected identifiers are those that a walk through the nodes that carry references finds. -/
theorem collectIdentifiers_eq (node : Node) :
    node.collectIdentifiers = (findings carriesReferences node).filterMap Event.identifier? := by
  rw [collectIdentifiers, findings_eq, List.filterMap_filterMap]
  exact List.filterMap_congr fun visited _ => identifierName?_eq_bind visited

/-! ## Places -/

/-- What a walk finds, with the places where it does. -/
def found (node : Node) : List (List Nat × Event) :=
  (node.reached descend).filterMap fun x => x.2.finding?.map (x.1, ·)

theorem map_snd_found (node : Node) : (node.found descend).map Prod.snd = findings descend node := by
  rw [findings_eq, visited_eq_reached, found, List.map_filterMap, List.filterMap_map]
  exact List.filterMap_congr fun x _ => by simp [Option.map_map, Function.comp_def]

/-- The places where something is found increase, so nothing is found twice. -/
theorem found_pairwise (node : Node) : (node.found descend).Pairwise fun a b => a.1 < b.1 := by
  refine List.pairwise_filterMap.2 ((node.preorder_pairwise.filter _).imp fun {a b} h x hx y hy => ?_)
  obtain ⟨_, _, rfl⟩ := Option.map_eq_some_iff.1 hx
  obtain ⟨_, _, rfl⟩ := Option.map_eq_some_iff.1 hy
  exact h

/-- **Places.** Something is found where a node has it to tell and the walk goes on below every node above. -/
theorem mem_found {node : Node} {place : List Nat} {event : Event} :
    (place, event) ∈ node.found descend ↔
      ∃ target, node.at? place = some target ∧ Tells target event ∧ node.reaches descend place = true := by
  simp only [found, reached, List.mem_filterMap, List.mem_filter, Prod.exists, Option.map_eq_some_iff, Prod.mk.injEq,
    mem_preorder, finding?_eq_some]
  constructor
  · rintro ⟨place, target, ⟨hat, hreaches⟩, event, htells, rfl, rfl⟩
    exact ⟨target, hat, htells, hreaches⟩
  · rintro ⟨target, hat, htells, hreaches⟩
    exact ⟨place, target, ⟨hat, hreaches⟩, event, htells, rfl, rfl⟩

end Findings

/-! ## Pruning -/

section Pruning

variable {descend more : Node → Bool} (h : ∀ node, descend node = true → more node = true)
include h

theorem reaches_mono {node : Node} {place : List Nat} (hreaches : node.reaches descend place = true) :
    node.reaches more place = true :=
  List.all_eq_true.2 fun ancestor hmem => h ancestor (List.all_eq_true.1 hreaches ancestor hmem)

theorem reached_sublist (node : Node) : (node.reached descend).Sublist (node.reached more) :=
  List.monotone_filter_right _ fun _ hreaches => reaches_mono h hreaches

/-- **Pruning.** A walk that goes on less often finds a part of what the other one finds, in the same order. -/
theorem findings_sublist (node : Node) : (findings descend node).Sublist (findings more node) := by
  rw [findings_eq, findings_eq, visited_eq_reached, visited_eq_reached]
  exact ((reached_sublist h node).map Prod.snd).filterMap finding?

end Pruning

/-- **Pruned walks.** A walk that goes on less often finds a part of what another one finds, in the same order. A walk
that always goes on finds, in preorder, all identifiers with a name and all unhandled nodes, those of each place once.
In any walk, what a node tells is found exactly when the walk goes on below all nodes above it, and nothing is found
twice. So the collected identifiers are a part of those that the full walk finds. -/
theorem pruned_findings :
    (∀ descend more : Node → Bool, (∀ node, descend node = true → more node = true) →
      ∀ node, (findings descend node).Sublist (findings more node)) ∧
    (∀ node : Node,
      findings (fun _ => true) node = node.preorder.filterMap (fun x => x.2.finding?) ∧
      node.preorder.Pairwise (fun a b => a.1 < b.1) ∧
      (∀ place target, (place, target) ∈ node.preorder ↔ node.at? place = some target) ∧
      ∀ event, node.finding? = some event ↔ Tells node event) ∧
    (∀ (descend : Node → Bool) (node : Node),
      (node.found descend).map Prod.snd = findings descend node ∧
      (node.found descend).Pairwise (fun a b => a.1 < b.1) ∧
      ∀ place event, (place, event) ∈ node.found descend ↔
        ∃ target, node.at? place = some target ∧ Tells target event ∧
          ∀ upper ancestor, upper <+: place → upper ≠ place → node.at? upper = some ancestor →
            descend ancestor = true) ∧
    ∀ node : Node,
      node.collectIdentifiers = (findings carriesReferences node).filterMap Event.identifier? ∧
      node.collectIdentifiers.Sublist ((findings (fun _ => true) node).filterMap Event.identifier?) := by
  refine ⟨fun descend more h node => findings_sublist h node, fun node => ⟨?_, node.preorder_pairwise, ?_, ?_⟩,
    fun descend node => ⟨map_snd_found descend node, found_pairwise descend node, fun place event => ?_⟩,
    fun node => ⟨node.collectIdentifiers_eq, ?_⟩⟩
  · rw [findings_eq, visited_all, List.filterMap_map]
    rfl
  · intro place target
    exact mem_preorder
  · intro event
    exact finding?_eq_some
  · rw [mem_found]
    simp only [reaches_iff]
  · rw [collectIdentifiers_eq]
    exact (findings_sublist (fun _ _ => rfl) node).filterMap Event.identifier?

/-- A grouping of an identifier, a list, a function and an unhandled node. -/
def mixedGroup : Node :=
  .group [.identifier (some "kept"), .list [.identifier (some "listed")],
    .function [.unhandled "Parameter"] (some (.identifier (some "body"))), .unhandled "Each"]

/-- Walks through the nodes that carry references and through all nodes but functions. -/
theorem mixedGroup_findings :
    (∀ node : Node, carriesReferences node = true → decide (node.kind ≠ "FunctionExpression") = true) ∧
    findings carriesReferences mixedGroup = [.identifier "kept", .unhandled "Each"] ∧
    findings (fun node => decide (node.kind ≠ "FunctionExpression")) mixedGroup =
      [.identifier "kept", .identifier "listed", .unhandled "Each"] ∧
    (findings carriesReferences mixedGroup).Sublist
      (findings (fun node => decide (node.kind ≠ "FunctionExpression")) mixedGroup) ∧
    mixedGroup.at? [1, 0] = some (.identifier (some "listed")) ∧
    ([1, 0], .identifier "listed") ∉ mixedGroup.found carriesReferences ∧
    mixedGroup.collectIdentifiers.Sublist ((findings (fun _ => true) mixedGroup).filterMap Event.identifier?) := by
  have hless : ∀ node : Node,
      carriesReferences node = true → decide (node.kind ≠ "FunctionExpression") = true := by
    intro node h
    cases node <;> simp_all [carriesReferences, kind, Kind.name]
  obtain ⟨hsublist, _, hfound, hidentifiers⟩ := pruned_findings
  refine ⟨hless, by decide, by decide, hsublist _ _ hless mixedGroup, rfl, fun hmem => ?_, (hidentifiers mixedGroup).2⟩
  obtain ⟨target, _, _, habove⟩ := ((hfound carriesReferences mixedGroup).2.2 _ _).1 hmem
  -- the list is on the way
  have hlist := habove [1] (.list [.identifier (some "listed")]) (by decide) (by decide) rfl
  cases hlist

end QueryOutline.Node
