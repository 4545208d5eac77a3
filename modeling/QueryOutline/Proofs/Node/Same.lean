import QueryOutline.Proofs.References

/-!
# Equality of nodes

Nodes are compared part by part, and the numbers in literals by what they denote, so that the two zeros are equal. That
is the equality of the nodes with the sign of every zero left out.

* **Values** (`Json.Value.same_iff`), **nodes** (`Node.same_iff`) and **documents** (`Document.same_iff`): two are equal
  exactly when they are the same without the signs of zeros. So equality is an equivalence (`Node.same_equivalence`).
* **References** (`ReferenceMap.ofDocument_eq_of_same`): equal documents have the same reference map. Their texts differ
  where the literals do.
* **Lists of steps** (`Document.same_ofSteps_iff`): a document equals the one made of its steps when it has a list.
-/

namespace QueryOutline

/-! ## Numbers -/

namespace Binary64

/-- The number, a zero without its sign. -/
def unsigned (x : Binary64) : Binary64 := if x.isZero then zero false else x

theorem isZero_unsigned (x : Binary64) : x.unsigned.isZero = x.isZero := by
  unfold unsigned
  split
  · rename_i h
    rw [h]
    rfl
  · rfl

theorem sameNumber_iff {x y : Binary64} : x.sameNumber y = true ↔ x.unsigned = y.unsigned := by
  simp only [sameNumber, Bool.or_eq_true, Bool.and_eq_true, decide_eq_true_eq]
  constructor
  · rintro (⟨hx, hy⟩ | rfl)
    · rw [unsigned, if_pos hx, unsigned, if_pos hy]
    · rfl
  · intro h
    have hzero : x.isZero = y.isZero := by rw [← isZero_unsigned, h, isZero_unsigned]
    by_cases hx : x.isZero = true
    · exact .inl ⟨hx, hzero ▸ hx⟩
    · rw [unsigned, if_neg hx, unsigned, if_neg (hzero ▸ hx)] at h
      exact .inr h

end Binary64

/-! ## Values -/

namespace Json

def Number.unsigned : Number → Number
  | .integer n => .integer n
  | .real x => .real x.unsigned

theorem Number.same_iff {a b : Number} : a.same b = true ↔ a.unsigned = b.unsigned := by
  cases a <;> cases b <;> simp [same, unsigned, Binary64.sameNumber_iff]

namespace Value

mutual

/-- The value, all zeros in it without their signs. -/
def unsigned : Value → Value
  | .number n => .number n.unsigned
  | .array items => .array (unsignedItems items)
  | .object fields => .object (unsignedFields fields)
  | .null => .null
  | .bool b => .bool b
  | .string s => .string s
termination_by structural v => v

def unsignedItems : List Value → List Value
  | [] => []
  | v :: vs => unsigned v :: unsignedItems vs
termination_by structural vs => vs

def unsignedFields : List (String × Value) → List (String × Value)
  | [] => []
  | (k, v) :: fs => (k, unsigned v) :: unsignedFields fs
termination_by structural fs => fs

end

mutual

/-- Values are equal when they are the same without the signs of zeros. -/
theorem same_iff : ∀ {v w : Value}, v.same w = true ↔ v.unsigned = w.unsigned
  | .number a, w => by cases w <;> simp [same, unsigned, Number.same_iff]
  | .array items, w => by cases w <;> simp [same, unsigned, sameItems_iff]
  | .object fields, w => by cases w <;> simp [same, unsigned, sameFields_iff]
  | .null, w => by cases w <;> simp [same, unsigned]
  | .bool b, w => by cases w <;> simp [same, unsigned]
  | .string s, w => by cases w <;> simp [same, unsigned]

theorem sameItems_iff : ∀ {vs ws : List Value}, sameItems vs ws = true ↔ unsignedItems vs = unsignedItems ws
  | [], ws => by cases ws <;> simp [sameItems, unsignedItems]
  | v :: vs, ws => by cases ws <;> simp [sameItems, unsignedItems, same_iff, sameItems_iff]

theorem sameFields_iff : ∀ {fs gs : List (String × Value)},
    sameFields fs gs = true ↔ unsignedFields fs = unsignedFields gs
  | [], gs => by cases gs <;> simp [sameFields, unsignedFields]
  | (k, v) :: fs, gs => by
    cases gs <;> simp [sameFields, unsignedFields, same_iff, sameFields_iff, and_assoc]

end

end Value

end Json

/-! ## Nodes -/

namespace Node

mutual

/-- The node, all zeros in its literals without their signs. -/
def unsigned : Node → Node
  | step key value => step key (unsignedOption value)
  | letBlock steps => letBlock (unsignedList steps)
  | list elements => list (unsignedList elements)
  | function parameters body => function (unsignedList parameters) (unsignedOption body)
  | arithmetic left operator right => arithmetic (unsignedOption left) operator (unsignedOption right)
  | chain head tails => chain (unsignedOption head) (unsignedList tails)
  | invoke content => invoke (unsignedOption content)
  | group elements => group (unsignedList elements)
  | literal value => literal value.unsigned
  | wrapper inner => wrapper (unsignedOption inner)
  | identifier name => identifier name
  | unhandled kind => unhandled kind
  | text t => text t
termination_by structural node => node

def unsignedOption : Option Node → Option Node
  | none => none
  | some node => some (unsigned node)
termination_by structural node => node

def unsignedList : List Node → List Node
  | [] => []
  | node :: nodes => unsigned node :: unsignedList nodes
termination_by structural nodes => nodes

end

theorem unsignedOption_eq : ∀ node?, unsignedOption node? = node?.map unsigned
  | none => rfl
  | some _ => rfl

theorem unsignedList_eq : ∀ nodes, unsignedList nodes = nodes.map unsigned
  | [] => rfl
  | node :: nodes => by rw [unsignedList, unsignedList_eq nodes, List.map_cons]

mutual

/-- Nodes are equal when they are the same without the signs of zeros. -/
theorem same_iff : ∀ {a b : Node}, a.same b = true ↔ a.unsigned = b.unsigned
  | step key value, b => by cases b <;> simp [same, unsigned, sameOption_iff]
  | letBlock steps, b => by cases b <;> simp [same, unsigned, sameList_iff]
  | list elements, b => by cases b <;> simp [same, unsigned, sameList_iff]
  | function parameters body, b => by cases b <;> simp [same, unsigned, sameOption_iff, sameList_iff]
  | arithmetic left operator right, b => by cases b <;> simp [same, unsigned, sameOption_iff, and_assoc]
  | chain head tails, b => by cases b <;> simp [same, unsigned, sameOption_iff, sameList_iff]
  | invoke content, b => by cases b <;> simp [same, unsigned, sameOption_iff]
  | group elements, b => by cases b <;> simp [same, unsigned, sameList_iff]
  | literal value, b => by cases b <;> simp [same, unsigned, Json.Value.same_iff]
  | wrapper inner, b => by cases b <;> simp [same, unsigned, sameOption_iff]
  | identifier name, b => by cases b <;> simp [same, unsigned]
  | unhandled kind, b => by cases b <;> simp [same, unsigned]
  | text t, b => by cases b <;> simp [same, unsigned]

theorem sameOption_iff : ∀ {a b : Option Node}, sameOption a b = true ↔ unsignedOption a = unsignedOption b
  | none, b => by cases b <;> simp [sameOption, unsignedOption]
  | some a, b => by cases b <;> simp [sameOption, unsignedOption, same_iff]

theorem sameList_iff : ∀ {as bs : List Node}, sameList as bs = true ↔ unsignedList as = unsignedList bs
  | [], bs => by cases bs <;> simp [sameList, unsignedList]
  | a :: as, bs => by cases bs <;> simp [sameList, unsignedList, same_iff, sameList_iff]

end

/-- Equality is reflexive, symmetric and transitive. -/
theorem same_equivalence : Equivalence fun a b : Node => a.same b = true where
  refl _ := same_iff.2 rfl
  symm h := same_iff.2 (same_iff.1 h).symm
  trans h h' := same_iff.2 ((same_iff.1 h).trans (same_iff.1 h'))

/-! ## What equal nodes have in common -/

theorem children_unsigned (node : Node) : node.unsigned.children = node.children.map unsigned := by
  cases node <;> simp [unsigned, children, unsignedOption_eq, unsignedList_eq, Option.toList_map]

/-- A walk goes the same way through the node without the signs of zeros, if it does not look at literals. -/
theorem visited_unsigned {descend : Node → Bool} (h : ∀ node : Node, descend node.unsigned = descend node)
    (node : Node) : node.unsigned.visited descend = (node.visited descend).map unsigned := by
  induction node using induction_children with
  | step node ih =>
    rw [visited_eq descend node.unsigned, visited_eq descend node, h, children_unsigned, List.map_cons]
    cases descend node with
    | true =>
      simp only [if_true, List.flatMap_map, List.map_flatMap]
      rw [List.flatMap_congr ih]
    | false => rfl

theorem collectIdentifiers_unsigned (node : Node) : node.unsigned.collectIdentifiers = node.collectIdentifiers := by
  have hname : ∀ node : Node, node.unsigned.identifierName? = node.identifierName? := fun node => by cases node <;> rfl
  have hcarries : ∀ node : Node, node.unsigned.carriesReferences = node.carriesReferences := fun node => by
    cases node <;> rfl
  rw [collectIdentifiers, visited_unsigned hcarries, List.filterMap_map, collectIdentifiers]
  exact List.filterMap_congr fun node _ => hname node

theorem asStep?_unsigned (node : Node) :
    node.unsigned.asStep? = node.asStep?.map fun (name, value?) => (name, value?.map unsigned) := by
  induction node using induction_children with
  | step node ih =>
    cases node with
    | step key value => cases key <;> simp [asStep?, unwrap, unsigned, unsignedOption_eq]
    | wrapper inner? =>
      cases inner? with
      | none => rfl
      | some inner => exact ih inner List.mem_cons_self
    | _ => rfl

end Node

/-! ## Documents -/

namespace Document

variable {a b c document : Document}

/-- Documents are equal when their lists of steps are the same without the signs of zeros. -/
theorem same_iff : a.same b = true ↔ a.steps?.map (List.map Node.unsigned) = b.steps?.map (List.map Node.unsigned) := by
  obtain ⟨steps?⟩ := a
  obtain ⟨others?⟩ := b
  cases steps? <;> cases others? <;> simp [same, Node.sameList_iff, Node.unsignedList_eq]

theorem same_equivalence : Equivalence fun a b : Document => a.same b = true where
  refl _ := same_iff.2 rfl
  symm h := same_iff.2 (same_iff.1 h).symm
  trans h h' := same_iff.2 ((same_iff.1 h).trans (same_iff.1 h'))

/-- A document without a list of steps differs from the one with no steps in its list. -/
theorem same_ofSteps_iff : document.same (ofSteps document.steps) = true ↔ document.hasVariableList = true := by
  rw [same_iff]
  obtain ⟨steps?⟩ := document
  cases steps? <;> simp [ofSteps, steps, hasVariableList]

theorem map_unsigned_steps (h : a.same b = true) :
    a.steps.map Node.unsigned = b.steps.map Node.unsigned := by
  have hsteps : ∀ document : Document,
      document.steps.map Node.unsigned = (document.steps?.map (List.map Node.unsigned)).getD [] := by
    rintro ⟨steps?⟩
    cases steps? <;> rfl
  rw [hsteps a, hsteps b, same_iff.1 h]

end Document

/-- **References.** Equal documents have the same reference map. -/
theorem ReferenceMap.ofDocument_eq_of_same {a b : Document} (h : a.same b = true) : ofDocument a = ofDocument b := by
  have hunsigned : ∀ document : Document,
      ofDocument (Document.ofSteps (document.steps.map Node.unsigned)) = ofDocument document :=
    fun document => ofDocument_map Node.asStep?_unsigned Node.collectIdentifiers_unsigned document.steps
  rw [← hunsigned a, ← hunsigned b, Document.map_unsigned_steps h]

end QueryOutline
