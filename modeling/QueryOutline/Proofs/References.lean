import QueryOutline.Proofs.Keyed
import QueryOutline.Proofs.Node.Tree
import QueryOutline.References

/-!
# References follow the paths that carry them

`Passes` says from which nodes references pass to which of their parts, and `Refers` that some path of such steps leads
from a value to an identifier.

* **One value**: the collected identifiers are those that the value refers to (`Node.mem_collectIdentifiers`).
* **A document**: a name that is declared has one entry, which lists in increasing order the declared names that the
  value of its last declaration refers to; a name that is not declared has none (`ReferenceMap.ofDocument_entries`).
* **Changed steps**: a change that keeps names and identifiers keeps the reference map (`ReferenceMap.ofDocument_map`).
-/

namespace QueryOutline

namespace Node

/-! ## Paths -/

/-- References pass from a node to a part of it, for five kinds of nodes. -/
inductive Passes : Node → Node → Prop
  | left {left : Node} {operator : Option String} {right : Option Node} :
      Passes (.arithmetic (some left) operator right) left
  | right {left : Option Node} {operator : Option String} {right : Node} :
      Passes (.arithmetic left operator (some right)) right
  | head {head : Node} {tails : List Node} : Passes (.chain (some head) tails) head
  | tail {head : Option Node} {tails : List Node} {tail : Node} : tail ∈ tails → Passes (.chain head tails) tail
  | content {content : Node} : Passes (.invoke (some content)) content
  | element {elements : List Node} {element : Node} : element ∈ elements → Passes (.group elements) element
  | inner {inner : Node} : Passes (.wrapper (some inner)) inner

/-- Some path along which references pass leads from the value to an identifier of the name. -/
def Refers (value : Node) (name : String) : Prop := Relation.ReflTransGen Passes value (.identifier (some name))

/-- References pass to the children of the nodes that carry them. -/
theorem passes_iff {node child : Node} : Passes node child ↔ Descends carriesReferences node child := by
  constructor
  · intro h
    cases h <;> simp_all [Descends, carriesReferences, children]
  · rintro ⟨hc, hm⟩
    cases node <;> simp only [carriesReferences, Bool.false_eq_true] at hc <;>
      simp only [children, List.mem_append, Option.mem_toList] at hm
    case arithmetic left operator right =>
      rcases hm with rfl | rfl
      · exact .left
      · exact .right
    case chain head tails =>
      rcases hm with rfl | hm
      · exact .head
      · exact .tail hm
    case invoke content => subst hm; exact .content
    case group elements => exact .element hm
    case wrapper inner => subst hm; exact .inner

theorem identifierName?_eq_some {node : Node} {name : String} :
    node.identifierName? = some name ↔ node = .identifier (some name) := by
  cases node <;> simp [identifierName?]

/-- The collected identifiers are those that the value refers to. -/
theorem mem_collectIdentifiers {value : Node} {name : String} :
    name ∈ value.collectIdentifiers ↔ Refers value name := by
  have hpaths : Descends carriesReferences = Passes := by funext a b; exact propext passes_iff.symm
  simp only [collectIdentifiers, List.mem_filterMap, identifierName?_eq_some, exists_eq_right, mem_visited, hpaths,
    Refers]

end Node

/-! ## The names of one value -/

theorem mem_stepReferences {value : Node} {names : List String} {name : String} :
    name ∈ stepReferences value names ↔ name ∈ names ∧ value.Refers name := by
  simp [stepReferences, Node.mem_collectIdentifiers]

theorem stepReferences_increasing (value : Node) {names : List String} (h : Names.Increasing names) :
    Names.Increasing (stepReferences value names) := List.Pairwise.filter _ h

/-! ## The names of a document -/

namespace Document

variable (document : Document)

/-- The last declaration of a name gives it this value, or none. -/
def LastDeclaration (name : String) (value? : Option Node) : Prop :=
  ∃ before after, document.namedSteps = before ++ (name, value?) :: after ∧ ∀ later ∈ after, later.1 ≠ name

theorem mem_stepNames {name : String} : name ∈ document.stepNames ↔ ∃ value?, (name, value?) ∈ document.namedSteps := by
  simp [stepNames, Names.mem_ofList]

theorem stepNames_increasing : Names.Increasing document.stepNames := Names.ofList_increasing _

/-- The last declaration is the first one from the end. -/
theorem lastDeclaration_iff {name : String} {value? : Option Node} :
    document.LastDeclaration name value? ↔ document.namedSteps.reverse.lookup name = some value? := by
  rw [List.lookup_eq_some_iff]
  constructor
  · rintro ⟨before, after, h, hlater⟩
    refine ⟨after.reverse, before.reverse, by simp [h], fun later hm => ?_⟩
    exact bne_iff_ne.2 (hlater later (List.mem_reverse.1 hm)).symm
  · rintro ⟨after, before, h, hlater⟩
    refine ⟨before.reverse, after.reverse, ?_, fun later hm => ?_⟩
    · rw [← List.reverse_reverse document.namedSteps, h]; simp
    · exact (bne_iff_ne.1 (hlater later (List.mem_reverse.1 hm))).symm

/-- A name has one last declaration. -/
theorem LastDeclaration.unique {document : Document} {name : String} {value? other? : Option Node}
    (h : document.LastDeclaration name value?) (hother : document.LastDeclaration name other?) : value? = other? :=
  Option.some.inj ((document.lastDeclaration_iff.1 h).symm.trans (document.lastDeclaration_iff.1 hother))

/-- A declared name has a last declaration. -/
theorem exists_lastDeclaration {name : String} (h : name ∈ document.stepNames) :
    ∃ value?, document.LastDeclaration name value? := by
  obtain ⟨value?, hm⟩ := document.mem_stepNames.1 h
  simp only [lastDeclaration_iff, ← Option.isSome_iff_exists, List.lookup_isSome_iff]
  exact ⟨(name, value?), List.mem_reverse.2 hm, beq_self_eq_true name⟩

/-- A declaration of a name that is declared once is its last one. -/
theorem lastDeclaration_iff_mem (hnames : (document.namedSteps.map Prod.fst).Nodup) {name : String}
    {value? : Option Node} : document.LastDeclaration name value? ↔ (name, value?) ∈ document.namedSteps := by
  constructor
  · rintro ⟨before, after, h, _⟩
    rw [h]
    exact List.mem_append_right before List.mem_cons_self
  · intro hm
    obtain ⟨before, after, h⟩ := List.append_of_mem hm
    refine ⟨before, after, h, fun later hlater heq => ?_⟩
    rw [h, List.map_append, List.map_cons] at hnames
    have hnotin : name ∉ after.map Prod.fst := (List.nodup_cons.1 (List.nodup_append.1 hnames).2.1).1
    exact hnotin (heq ▸ List.mem_map_of_mem hlater)

end Document

/-! ## The reference map -/

namespace ReferenceMap

variable (document : Document)

theorem keys_ofDocument : (ofDocument document).entries.map Prod.fst = document.stepNames := by
  rw [Document.stepNames, ← Keyed.keys_ofList]
  simp [ofDocument]

/-- An entry comes from the last declaration of its name. -/
theorem lookup_ofDocument (name : String) :
    (ofDocument document).entries.lookup name =
      (document.namedSteps.reverse.lookup name).map fun value? =>
        (value?.map (stepReferences · document.stepNames)).getD [] := by
  rw [← Keyed.lookup_ofList]
  exact Keyed.lookup_map_values (fun value? : Option Node => (value?.map (stepReferences · document.stepNames)).getD [])
    name _

theorem get_of_lastDeclaration {name : String} {value? : Option Node} (h : document.LastDeclaration name value?) :
    (ofDocument document).get name = (value?.map (stepReferences · document.stepNames)).getD [] := by
  rw [get, lookup_ofDocument, document.lastDeclaration_iff.1 h, Option.map_some, Option.getD_some]

/-- The names of an entry are the declared names that the value of the last declaration refers to. -/
theorem mem_get_iff {name x : String} :
    x ∈ (ofDocument document).get name ↔
      ∃ value, document.LastDeclaration name (some value) ∧ x ∈ document.stepNames ∧ value.Refers x := by
  simp only [Document.lastDeclaration_iff]
  rw [get, lookup_ofDocument]
  cases document.namedSteps.reverse.lookup name with
  | none => simp
  | some value? => cases value? <;> simp [mem_stepReferences]

theorem isSome_lookup_ofDocument {name : String} :
    ((ofDocument document).entries.lookup name).isSome = true ↔ name ∈ document.stepNames := by
  rw [Keyed.isSome_lookup_iff, keys_ofDocument]

/-- **The reference map of a document.** Its keys are the declared names, each once. The entry of a name lists, in
increasing order, the declared names that the value of its last declaration refers to. Other names have no entry. -/
theorem ofDocument_entries :
    (((ofDocument document).entries.map Prod.fst).Nodup ∧
      ∀ name, name ∈ (ofDocument document).entries.map Prod.fst ↔ name ∈ document.stepNames) ∧
    (∀ name, name ∈ document.stepNames ↔ ∃ value?, (name, value?) ∈ document.namedSteps) ∧
    (∀ name ∈ document.stepNames, (ofDocument document).contains name = true ∧
      ∃ value?, document.LastDeclaration name value?) ∧
    (∀ name value?, document.LastDeclaration name value? →
      Names.Increasing ((ofDocument document).get name) ∧
      (∀ x, x ∈ (ofDocument document).get name ↔ x ∈ document.stepNames ∧ ∃ value ∈ value?, value.Refers x) ∧
      (value? = none → (ofDocument document).get name = [])) ∧
    (∀ name, name ∉ document.stepNames →
      (ofDocument document).contains name = false ∧ (ofDocument document).get name = []) := by
  refine ⟨⟨?_, fun name => by rw [keys_ofDocument]⟩, fun name => document.mem_stepNames, fun name hm => ?_,
    fun name value? hlast => ?_, fun name hm => ?_⟩
  · rw [keys_ofDocument]
    exact document.stepNames_increasing.nodup
  · exact ⟨(isSome_lookup_ofDocument document).2 hm, document.exists_lastDeclaration hm⟩
  · rw [get_of_lastDeclaration document hlast]
    cases value? with
    | none => exact ⟨List.Pairwise.nil, by simp, fun _ => rfl⟩
    | some value =>
      exact ⟨stepReferences_increasing value document.stepNames_increasing, by simp [mem_stepReferences], by simp⟩
  · have hnone : (ofDocument document).entries.lookup name = none :=
      Option.not_isSome_iff_eq_none.1 fun h => hm ((isSome_lookup_ofDocument document).1 h)
    exact ⟨by rw [contains, hnone]; rfl, by rw [get, hnone]; rfl⟩

/-- A sum of `a` and a grouping with `b` and a name that is not declared. -/
def nestedSum : Node :=
  .arithmetic (some (.identifier (some "a"))) (some "+")
    (some (.group [.wrapper (some (.identifier (some "b"))), .identifier (some "Global")]))

/-- A document that declares `b` twice, the second time inside a wrapper. -/
def twiceDeclared : Document :=
  .ofSteps
    [.step (some "a") (some (.literal .null)), .step (some "b") (some (.literal .null)),
      .wrapper (some (.step (some "b") (some nestedSum))), .step (some "c") (some (.list [.identifier (some "a")]))]

theorem twiceDeclared_entries :
    "b" ∈ twiceDeclared.stepNames ∧ (ofDocument twiceDeclared).contains "b" = true ∧
    twiceDeclared.LastDeclaration "b" (some nestedSum) ∧ (ofDocument twiceDeclared).get "b" = ["a", "b"] ∧
    (∀ x, x ∈ (ofDocument twiceDeclared).get "b" ↔
      x ∈ twiceDeclared.stepNames ∧ ∃ value ∈ some nestedSum, value.Refers x) ∧
    "d" ∉ twiceDeclared.stepNames ∧ (ofDocument twiceDeclared).get "d" = [] := by
  have hb : "b" ∈ twiceDeclared.stepNames := by decide +kernel
  have hlast : twiceDeclared.LastDeclaration "b" (some nestedSum) :=
    ⟨_ :: _ :: [], _, rfl, by simp [Node.asStep?, Node.unwrap]⟩
  have hd : "d" ∉ twiceDeclared.stepNames := by decide +kernel
  obtain ⟨_, _, hdeclared, hentry, hother⟩ := ofDocument_entries twiceDeclared
  exact ⟨hb, (hdeclared "b" hb).1, hlast, by decide +kernel, (hentry "b" _ hlast).2.1, hd, (hother "d" hd).2⟩

/-! ## Changed steps -/

section Changed

variable {change : Node → Node}
  (hstep : ∀ node, (change node).asStep? = node.asStep?.map fun (name, value?) => (name, value?.map change))

include hstep in
/-- A change of nodes that keeps the names of declarations changes their values. -/
theorem namedSteps_map (steps : List Node) :
    (Document.ofSteps (steps.map change)).namedSteps =
      (Document.ofSteps steps).namedSteps.map fun (name, value?) => (name, value?.map change) := by
  show (steps.map change).filterMap Node.asStep? = (steps.filterMap Node.asStep?).map _
  rw [List.filterMap_map, List.map_filterMap]
  exact List.filterMap_congr fun step _ => hstep step

include hstep in
/-- If it keeps the identifiers too, the reference map does not change. -/
theorem ofDocument_map (hidentifiers : ∀ node, (change node).collectIdentifiers = node.collectIdentifiers)
    (steps : List Node) : ofDocument (Document.ofSteps (steps.map change)) = ofDocument (Document.ofSteps steps) := by
  have hnames : (Document.ofSteps (steps.map change)).stepNames = (Document.ofSteps steps).stepNames := by
    rw [Document.stepNames, namedSteps_map hstep, List.map_map]
    rfl
  simp only [ofDocument, namedSteps_map hstep, hnames, Keyed.ofList_map_values, List.map_map]
  congr 1
  refine List.map_congr_left fun (name, value?) _ => ?_
  cases value? with
  | none => rfl
  | some value => simp [stepReferences, hidentifiers]

end Changed

end ReferenceMap

end QueryOutline
