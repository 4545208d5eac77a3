import QueryOutline.Proofs.Node.Conversion
import QueryOutline.Proofs.Node.Tree
import QueryOutline.Proofs.Render.Depth

/-!
# Which nodes values stand for

The conversion of JSON values reaches every node but those with an unhandled node of a listed kind.

* **Kinds** (`Kind.ofName?_eq_some_iff`, `Kind.ofName?_eq_none_iff`): a name is found exactly when it is listed.
* **Objects** (`Node.kind_ofJson_object`, `Node.ownKind?_ofJson_object`): the kind of a node is the name that its object
  gives, and an object of a listed kind has the node of that kind.
* **Proper values** (`Json.Value.Proper`): values as a JSON library keeps them, with the fields of objects in key order
  and with numbers in their ranges.
* **Preimages** (`Node.toJson`, `Node.ofJson_toJson`): a value for each node, by recursion over the node.
* **Image** (`Node.ofJson_image`): the nodes of all values and those of proper values.
-/

namespace QueryOutline

/-! ## Kinds -/

namespace Kind

theorem ofName?_name (kind : Kind) : ofName? kind.name = some kind := by cases kind <;> decide

theorem ofName?_eq_some_iff {name : String} {kind : Kind} : ofName? name = some kind ↔ kind.name = name := by
  constructor
  · intro h
    rw [ofName?] at h
    have hname := List.find?_some h
    exact of_decide_eq_true hname
  · rintro rfl
    exact ofName?_name kind

theorem ofName?_eq_none_iff {name : String} : ofName? name = none ↔ name ∉ all.map Kind.name := by
  simp [ofName?]

end Kind

namespace Node

/-- The kind to which a node with a rendering of its own belongs. -/
def ownKind? : Node → Option Kind
  | step .. => some .step
  | letBlock .. => some .letBlock
  | list .. => some .list
  | function .. => some .function
  | arithmetic .. => some .arithmetic
  | chain .. => some .chain
  | invoke .. => some .invoke
  | group .. => some .group
  | identifier .. => some .identifier
  | literal .. => some .literal
  | wrapper .. => some .wrapper
  | unhandled _ => none
  | text _ => none

variable {fields : List (String × Json.Value)}

/-- The node of an object belongs to the kind that the object names, if that is listed. -/
theorem ownKind?_ofJson_object : (ofJson (.object fields)).ownKind? = Kind.ofName? (kindName fields) := by
  rw [ofJson_object]
  cases Kind.ofName? (kindName fields) with
  | none => rfl
  | some kind => cases kind <;> rfl

/-- The node of an object has the kind that the object names. -/
theorem kind_ofJson_object : (ofJson (.object fields)).kind = kindName fields := by
  rw [ofJson_object]
  cases hkind : Kind.ofName? (kindName fields) with
  | none => rfl
  | some kind =>
    rw [← Kind.ofName?_eq_some_iff.1 hkind]
    cases kind <;> rfl

theorem kindName_of_string {kind : String} (h : fields.lookup "kind" = some (.string kind)) :
    kindName fields = kind := by
  rw [kindName, h]
  rfl

theorem kindName_of_no_string (h : ∀ kind, fields.lookup "kind" ≠ some (.string kind)) :
    kindName fields = "Unknown" := by
  rw [kindName]
  cases hvalue : fields.lookup "kind" with
  | none => rfl
  | some value =>
    cases value with
    | string kind => exact absurd hvalue (h kind)
    | _ => rfl

/-- An unhandled node stands for an object of a kind that is not listed. -/
theorem ofName?_of_unhandled {value : Json.Value} {kind : String} (h : ofJson value = unhandled kind) :
    Kind.ofName? kind = none := by
  cases value with
  | object fields =>
    have hname : kindName fields = kind := by rw [← kind_ofJson_object, h]; rfl
    rw [← hname, ← ownKind?_ofJson_object, h]
    rfl
  | _ => cases h

/-- A literal node holds nothing or a part of its object. -/
theorem mem_parts_of_literal {value literal : Json.Value} (h : ofJson value = .literal literal) :
    literal = .null ∨ literal ∈ value.parts := by
  cases value with
  | object fields =>
    have hkind : Kind.ofName? (kindName fields) = some .literal := by rw [← ownKind?_ofJson_object, h]; rfl
    have hliteral : literal = (fields.lookup "literal").getD .null := by
      simp only [ofJson_object, hkind, Node.literal.injEq] at h
      exact h.symm
    cases hfield : fields.lookup "literal" with
    | none => exact .inl (by rw [hliteral, hfield, Option.getD_none])
    | some own =>
      rw [hliteral, hfield, Option.getD_some]
      exact .inr (Json.Value.mem_parts_of_lookup hfield)
  | _ => cases h

/-- What the node of a value contains is the node of the value or of one inside. -/
theorem exists_of_contains {value : Json.Value} {node : Node} (h : (ofJson value).Contains node) :
    ∃ part, node = ofJson part ∧ (part = value ∨ value.Encloses part) := by
  induction h with
  | refl => exact ⟨value, rfl, .inl rfl⟩
  | tail _ hchild ih =>
    obtain ⟨part, rfl, hpart⟩ := ih
    obtain ⟨inner, rfl, hinner⟩ := mem_children_ofJson hchild
    refine ⟨inner, rfl, .inr ?_⟩
    rcases hpart with rfl | hpart
    · exact hinner
    · exact hpart.trans hinner

end Node

/-! ## Proper values -/

/-- The significand is the greatest below `2 ^ 53` that the exponents admit. -/
def Binary64.Proper (x : Binary64) : Prop :=
  x.significand < 2 ^ 53 ∧ leastExponent ≤ x.exponent ∧ x.exponent ≤ greatestExponent ∧
    (x.exponent = leastExponent ∨ 2 ^ 52 ≤ x.significand)

namespace Json

/-- The number is in the range of its class. -/
def Number.Proper : Number → Prop
  | integer n => -2 ^ 63 ≤ n ∧ n < 2 ^ 64
  | real x => x.Proper

/-- The fields of all objects are in key order, and all numbers are in their ranges. -/
inductive Value.Proper : Value → Prop where
  | null : Proper .null
  | bool (b : Bool) : Proper (.bool b)
  | number {n : Number} (h : n.Proper) : Proper (.number n)
  | string (s : String) : Proper (.string s)
  | array {items : List Value} (h : ∀ item ∈ items, Proper item) : Proper (.array items)
  | object {fields : List (String × Value)} (hkeys : Names.Increasing (fields.map Prod.fst))
    (h : ∀ field ∈ fields, Proper field.2) : Proper (.object fields)

namespace Value

theorem Proper.part {value part : Value} (h : value.Proper) (hpart : part ∈ value.parts) : part.Proper := by
  cases h with
  | array hitems => exact hitems part hpart
  | object _ hfields =>
    obtain ⟨field, hfield, rfl⟩ := List.mem_map.1 hpart
    exact hfields field hfield
  | _ => cases hpart

theorem Proper.inside {value part : Value} (h : value.Proper) (hpart : value.Encloses part) : part.Proper := by
  induction hpart with
  | single hpart => exact h.part hpart
  | tail _ hpart ih => exact ih.part hpart

end Value

end Json

/-! ## Objects with optional fields -/

/-- The fields that have a value. -/
def present (fields : List (String × Option Json.Value)) : List (String × Json.Value) :=
  fields.filterMap fun (name, value?) => value?.map (Prod.mk name)

theorem lookup_present {name : String} : ∀ {fields : List (String × Option Json.Value)},
    (fields.map Prod.fst).Nodup → (present fields).lookup name = (fields.lookup name).join
  | [], _ => rfl
  | (key, value?) :: fields, h => by
    obtain ⟨hkey, hfields⟩ := List.nodup_cons.1 h
    have ih : (present fields).lookup name = (fields.lookup name).join := lookup_present hfields
    cases value? with
    | some value =>
      rw [show present ((key, some value) :: fields) = (key, value) :: present fields from rfl, Keyed.lookup_cons_eq,
        Keyed.lookup_cons_eq, ih]
      split <;> rfl
    | none =>
      rw [show present ((key, none) :: fields) = present fields from rfl, Keyed.lookup_cons_eq, ih]
      -- a field without a value is as if it were not there, since its name does not come again
      split
      · rename_i hname
        have hnone : fields.lookup name = none := by
          rw [← Option.not_isSome_iff_eq_none, Keyed.isSome_lookup_iff, hname]
          exact hkey
        rw [hnone]
        rfl
      · rfl

theorem mem_present {fields : List (String × Option Json.Value)} {field : String × Json.Value} :
    field ∈ present fields ↔ (field.1, some field.2) ∈ fields := by
  rw [present, List.mem_filterMap]
  constructor
  · rintro ⟨⟨name, value?⟩, hmem, hvalue⟩
    obtain ⟨value, rfl, rfl⟩ := Option.map_eq_some_iff.1 hvalue
    exact hmem
  · exact fun hmem => ⟨_, hmem, rfl⟩

theorem keys_present_sublist (fields : List (String × Option Json.Value)) :
    ((present fields).map Prod.fst).Sublist (fields.map Prod.fst) := by
  induction fields with
  | nil => exact .slnil
  | cons field fields ih =>
    obtain ⟨name, value?⟩ := field
    cases value? with
    | none => exact ih.cons name
    | some value => exact ih.cons_cons name

/-- An object is proper when its possible fields are in key order and its values are proper. -/
theorem proper_present {fields : List (String × Option Json.Value)} (hkeys : Names.Increasing (fields.map Prod.fst))
    (h : ∀ field ∈ fields, ∀ value ∈ field.2, value.Proper) : (Json.Value.object (present fields)).Proper :=
  .object (hkeys.sublist (keys_present_sublist fields)) fun field hfield => h _ (mem_present.1 hfield) field.2 rfl

/-! ## A value for each node -/

/-- The names of the fields from which a node of the kind can be made, in order. -/
def Kind.fieldNames : Kind → List String
  | step => ["key", "kind", "value"]
  | letBlock => ["expressions", "kind"]
  | list => ["elements", "kind"]
  | function => ["body", "kind", "parameters"]
  | arithmetic => ["kind", "left", "operatorConstant", "right"]
  | chain => ["head", "kind", "recursiveExpressions"]
  | invoke => ["content", "kind"]
  | group => ["elements", "kind"]
  | identifier => ["identifier", "kind"]
  | literal => ["kind", "literal"]
  | wrapper => ["kind", "node"]

theorem Kind.fieldNames_increasing (kind : Kind) : Names.Increasing kind.fieldNames := by
  cases kind <;> simp only [Names.Increasing, fieldNames] <;> decide

/-- An object of a kind: its fields before and after the one that names the kind, some of which may be left out. -/
structure Spelling where
  kind : Kind
  before : List (String × Option Json.Value)
  after : List (String × Option Json.Value)
  names : before.map Prod.fst ++ "kind" :: after.map Prod.fst = kind.fieldNames

namespace Spelling

/-- All fields that the object may have. -/
def possible (spelling : Spelling) : List (String × Option Json.Value) :=
  spelling.before ++ ("kind", some (.string spelling.kind.name)) :: spelling.after

def fields (spelling : Spelling) : List (String × Json.Value) := present spelling.possible

def value (spelling : Spelling) : Json.Value := .object spelling.fields

end Spelling

namespace Node

mutual

/-- A value that stands for the node, if any does. -/
def toJson : Node → Json.Value
  | step key value => Spelling.value ⟨.step, [("key", key.map .string)], [("value", toJsonOption value)], rfl⟩
  | letBlock steps => Spelling.value ⟨.letBlock, [("expressions", some (.array (toJsonList steps)))], [], rfl⟩
  | list elements => Spelling.value ⟨.list, [("elements", some (.array (toJsonList elements)))], [], rfl⟩
  | function parameters body =>
    Spelling.value
      ⟨.function, [("body", toJsonOption body)], [("parameters", some (.array (toJsonList parameters)))], rfl⟩
  | arithmetic left operator right =>
    Spelling.value ⟨.arithmetic, [],
      [("left", toJsonOption left), ("operatorConstant", operator.map .string), ("right", toJsonOption right)], rfl⟩
  | chain head tails =>
    Spelling.value
      ⟨.chain, [("head", toJsonOption head)], [("recursiveExpressions", some (.array (toJsonList tails)))], rfl⟩
  | invoke content => Spelling.value ⟨.invoke, [("content", toJsonOption content)], [], rfl⟩
  | group elements => Spelling.value ⟨.group, [("elements", some (.array (toJsonList elements)))], [], rfl⟩
  | identifier name => Spelling.value ⟨.identifier, [("identifier", name.map .string)], [], rfl⟩
  | literal value => Spelling.value ⟨.literal, [], [("literal", some value)], rfl⟩
  | wrapper inner => Spelling.value ⟨.wrapper, [], [("node", toJsonOption inner)], rfl⟩
  | unhandled kind => .object [("kind", .string kind)]
  | text t => .string t
termination_by structural node => node

def toJsonOption : Option Node → Option Json.Value
  | none => none
  | some node => some (toJson node)
termination_by structural node? => node?

def toJsonList : List Node → List Json.Value
  | [] => []
  | node :: nodes => toJson node :: toJsonList nodes
termination_by structural nodes => nodes

end

theorem toJsonOption_eq : ∀ node?, toJsonOption node? = node?.map toJson
  | none => rfl
  | some _ => rfl

theorem toJsonList_eq : ∀ nodes, toJsonList nodes = nodes.map toJson
  | [] => rfl
  | node :: nodes => by rw [toJsonList, toJsonList_eq nodes, List.map_cons]

end Node

namespace Spelling

theorem possible_increasing (spelling : Spelling) : Names.Increasing (spelling.possible.map Prod.fst) := by
  have hnames : spelling.possible.map Prod.fst = spelling.kind.fieldNames := by
    rw [← spelling.names, possible, List.map_append, List.map_cons]
  rw [hnames]
  exact spelling.kind.fieldNames_increasing

theorem lookup_fields (spelling : Spelling) {name : String} {value? : Option Json.Value}
    (h : (name, value?) ∈ spelling.possible) : spelling.fields.lookup name = value? := by
  have hkeys := spelling.possible_increasing.nodup
  rw [fields, lookup_present hkeys, (Keyed.lookup_eq_some_iff hkeys).2 h]
  rfl

theorem kindName_fields (spelling : Spelling) : kindName spelling.fields = spelling.kind.name :=
  Node.kindName_of_string (spelling.lookup_fields (List.mem_append_right _ List.mem_cons_self))

theorem text_fields (spelling : Spelling) {name : String} {text? : Option String} (field : String)
    (h : (name, text?.map Json.Value.string) ∈ spelling.possible) :
    (spelling.fields.lookup name).bind (textOf? field) = text? := by
  rw [spelling.lookup_fields h]
  cases text? <;> rfl

theorem whole_fields (spelling : Spelling) {name : String} {value : Json.Value}
    (h : (name, some value) ∈ spelling.possible) : (spelling.fields.lookup name).getD .null = value := by
  rw [spelling.lookup_fields h, Option.getD_some]

theorem childAt?_fields (spelling : Spelling) {name : String} {node? : Option Node}
    (h : (name, Node.toJsonOption node?) ∈ spelling.possible)
    (hnode : ∀ node ∈ node?.toList, Node.ofJson node.toJson = node) :
    Node.childAt? spelling.fields name = node? := by
  rw [Node.childAt?, spelling.lookup_fields h, Node.toJsonOption_eq]
  cases node? with
  | none => rfl
  | some node => exact congrArg some (hnode node List.mem_cons_self)

theorem sequenceAt?_fields (spelling : Spelling) {name : String} {nodes : List Node}
    (h : (name, some (.array (Node.toJsonList nodes))) ∈ spelling.possible)
    (hnodes : ∀ node ∈ nodes, Node.ofJson node.toJson = node) :
    Node.sequenceAt? spelling.fields name = some nodes := by
  rw [Node.sequenceAt?, spelling.lookup_fields h, Node.toJsonList_eq]
  show some ((nodes.map Node.toJson).map Node.ofJson) = some nodes
  rw [List.map_map]
  exact congrArg some ((List.map_congr_left hnodes).trans (List.map_id nodes))

theorem sequence_fields (spelling : Spelling) {name : String} {nodes : List Node}
    (h : (name, some (.array (Node.toJsonList nodes))) ∈ spelling.possible)
    (hnodes : ∀ node ∈ nodes, Node.ofJson node.toJson = node) :
    (Node.sequenceAt? spelling.fields name).getD [] = nodes := by
  rw [spelling.sequenceAt?_fields h hnodes, Option.getD_some]

theorem proper_value (spelling : Spelling) (hbefore : ∀ field ∈ spelling.before, ∀ value ∈ field.2, value.Proper)
    (hafter : ∀ field ∈ spelling.after, ∀ value ∈ field.2, value.Proper) : spelling.value.Proper := by
  refine proper_present spelling.possible_increasing
    (List.forall_mem_append.2 ⟨hbefore, List.forall_mem_cons.2 ⟨?_, hafter⟩⟩)
  rintro _ ⟨⟩
  exact .string spelling.kind.name

end Spelling

namespace Node

/-- **Preimages.** The value for a node stands for it unless an unhandled node in it is of a listed kind. -/
theorem ofJson_toJson (node : Node)
    (h : ∀ kind, node.Contains (.unhandled kind) → kind ∉ Kind.all.map Kind.name) : ofJson node.toJson = node := by
  induction node using induction_children with
  | step node ih =>
    have hchildren : ∀ child ∈ node.children, ofJson child.toJson = child := fun child hchild =>
      ih child hchild fun kind hkind => h kind (.head hchild hkind)
    cases node
    case text t => rfl
    case unhandled kind =>
      have hkind : Kind.ofName? (kindName [("kind", .string kind)]) = none :=
        Kind.ofName?_eq_none_iff.2 (h kind .refl)
      rw [toJson, ofJson_object, hkind]
      rfl
    -- each part is found under its field and stands for what it was made from
    all_goals rw [toJson, Spelling.value, ofJson_object, Spelling.kindName_fields, Kind.ofName?_name]
    case step key value =>
      exact congrArg₂ step (Spelling.text_fields _ "literal" (.head _))
        (Spelling.childAt?_fields _ (by simp [Spelling.possible]) hchildren)
    case letBlock steps =>
      rw [Spelling.sequenceAt?_fields _ (.head _) hchildren]
      rfl
    case list elements => exact congrArg list (Spelling.sequence_fields _ (.head _) hchildren)
    case function parameters body =>
      exact congrArg₂ function
        (Spelling.sequence_fields _ (by simp [Spelling.possible]) fun node hm =>
          hchildren node (List.mem_append_left _ hm))
        (Spelling.childAt?_fields _ (.head _) fun node hm => hchildren node (List.mem_append_right _ hm))
    case arithmetic left operator right =>
      exact congr
        (congrArg₂ arithmetic
          (Spelling.childAt?_fields _ (by simp [Spelling.possible]) fun node hm =>
            hchildren node (List.mem_append_left _ hm))
          (Spelling.text_fields _ "constantKind" (by simp [Spelling.possible])))
        (Spelling.childAt?_fields _ (by simp [Spelling.possible]) fun node hm =>
          hchildren node (List.mem_append_right _ hm))
    case chain head tails =>
      exact congrArg₂ chain
        (Spelling.childAt?_fields _ (.head _) fun node hm => hchildren node (List.mem_append_left _ hm))
        (Spelling.sequence_fields _ (by simp [Spelling.possible]) fun node hm =>
          hchildren node (List.mem_append_right _ hm))
    case invoke content => exact congrArg invoke (Spelling.childAt?_fields _ (.head _) hchildren)
    case group elements => exact congrArg group (Spelling.sequence_fields _ (.head _) hchildren)
    case identifier name => exact congrArg identifier (Spelling.text_fields _ "literal" (.head _))
    case literal value => exact congrArg literal (Spelling.whole_fields _ (by simp [Spelling.possible]))
    case wrapper inner =>
      exact congrArg wrapper (Spelling.childAt?_fields _ (by simp [Spelling.possible]) hchildren)

/-! ## Proper values for nodes -/

theorem proper_text (text? : Option String) : ∀ value ∈ text?.map Json.Value.string, value.Proper := by
  intro value hvalue
  obtain ⟨t, _, rfl⟩ := Option.map_eq_some_iff.1 hvalue
  exact .string t

theorem proper_toJsonOption {node? : Option Node} (h : ∀ node ∈ node?.toList, node.toJson.Proper) :
    ∀ value ∈ toJsonOption node?, value.Proper := by
  intro value hvalue
  rw [toJsonOption_eq] at hvalue
  obtain ⟨node, rfl, rfl⟩ := Option.map_eq_some_iff.1 hvalue
  exact h node List.mem_cons_self

theorem proper_toJsonList {nodes : List Node} (h : ∀ node ∈ nodes, node.toJson.Proper) :
    ∀ value ∈ some (Json.Value.array (toJsonList nodes)), value.Proper := by
  rintro _ ⟨⟩
  rw [toJsonList_eq]
  exact .array (List.forall_mem_map.2 h)

/-- The value for a node is proper when the values of its literals are. -/
theorem proper_toJson (node : Node) (h : ∀ value, node.Contains (.literal value) → value.Proper) :
    node.toJson.Proper := by
  induction node using induction_children with
  | step node ih =>
    have hchildren : ∀ child ∈ node.children, child.toJson.Proper := fun child hchild =>
      ih child hchild fun value hvalue => h value (.head hchild hvalue)
    cases node with
    | step key value =>
      exact Spelling.proper_value _ (List.forall_mem_singleton.2 (proper_text key))
        (List.forall_mem_singleton.2 (proper_toJsonOption hchildren))
    | letBlock steps =>
      exact Spelling.proper_value _ (List.forall_mem_singleton.2 (proper_toJsonList hchildren)) nofun
    | list elements =>
      exact Spelling.proper_value _ (List.forall_mem_singleton.2 (proper_toJsonList hchildren)) nofun
    | function parameters body =>
      obtain ⟨hparameters, hbody⟩ := List.forall_mem_append.1 hchildren
      exact Spelling.proper_value _ (List.forall_mem_singleton.2 (proper_toJsonOption hbody))
        (List.forall_mem_singleton.2 (proper_toJsonList hparameters))
    | arithmetic left operator right =>
      obtain ⟨hleft, hright⟩ := List.forall_mem_append.1 hchildren
      refine Spelling.proper_value _ nofun (List.forall_mem_cons.2 ⟨proper_toJsonOption hleft, ?_⟩)
      exact List.forall_mem_cons.2
        ⟨proper_text operator, List.forall_mem_singleton.2 (proper_toJsonOption hright)⟩
    | chain head tails =>
      obtain ⟨hhead, htails⟩ := List.forall_mem_append.1 hchildren
      exact Spelling.proper_value _ (List.forall_mem_singleton.2 (proper_toJsonOption hhead))
        (List.forall_mem_singleton.2 (proper_toJsonList htails))
    | invoke content =>
      exact Spelling.proper_value _ (List.forall_mem_singleton.2 (proper_toJsonOption hchildren)) nofun
    | group elements =>
      exact Spelling.proper_value _ (List.forall_mem_singleton.2 (proper_toJsonList hchildren)) nofun
    | identifier name => exact Spelling.proper_value _ (List.forall_mem_singleton.2 (proper_text name)) nofun
    | literal value =>
      refine Spelling.proper_value _ nofun (List.forall_mem_singleton.2 ?_)
      rintro _ ⟨⟩
      exact h value .refl
    | wrapper inner =>
      exact Spelling.proper_value _ nofun (List.forall_mem_singleton.2 (proper_toJsonOption hchildren))
    | unhandled kind =>
      exact .object (List.pairwise_singleton _ _) (List.forall_mem_singleton.2 (.string kind))
    | text t => exact .string t

/-! ## The image -/

/-- An unhandled node in the node of a value is of a kind that is not listed. -/
theorem not_mem_of_contains_unhandled {value : Json.Value} {kind : String}
    (h : (ofJson value).Contains (.unhandled kind)) : kind ∉ Kind.all.map Kind.name := by
  obtain ⟨part, hpart, _⟩ := exists_of_contains h
  exact Kind.ofName?_eq_none_iff.1 (ofName?_of_unhandled hpart.symm)

/-- A literal in the node of a proper value holds a proper value. -/
theorem proper_of_contains_literal {value literal : Json.Value} (hvalue : value.Proper)
    (h : (ofJson value).Contains (.literal literal)) : literal.Proper := by
  obtain ⟨part, hpart, hinside⟩ := exists_of_contains h
  have hproper : part.Proper := by
    rcases hinside with rfl | hinside
    · exact hvalue
    · exact hvalue.inside hinside
  rcases mem_parts_of_literal hpart.symm with rfl | hliteral
  · exact .null
  · exact hproper.part hliteral

/-- The nodes of values are those whose unhandled nodes are of kinds that are not listed. -/
theorem exists_ofJson_eq_iff {node : Node} :
    (∃ value, ofJson value = node) ↔
      ∀ kind, node.Contains (.unhandled kind) → kind ∉ Kind.all.map Kind.name := by
  constructor
  · rintro ⟨value, rfl⟩ kind hkind
    exact not_mem_of_contains_unhandled hkind
  · exact fun h => ⟨node.toJson, ofJson_toJson node h⟩

/-- The nodes of proper values are those that hold proper values besides. -/
theorem exists_proper_ofJson_eq_iff {node : Node} :
    (∃ value : Json.Value, value.Proper ∧ ofJson value = node) ↔
      (∀ kind, node.Contains (.unhandled kind) → kind ∉ Kind.all.map Kind.name) ∧
        ∀ value, node.Contains (.literal value) → value.Proper := by
  constructor
  · rintro ⟨value, hvalue, rfl⟩
    exact ⟨fun kind hkind => not_mem_of_contains_unhandled hkind, fun literal hliteral =>
      proper_of_contains_literal hvalue hliteral⟩
  · rintro ⟨hunhandled, hliterals⟩
    exact ⟨node.toJson, proper_toJson node hliterals, ofJson_toJson node hunhandled⟩

end Node

/-- A document reports no listed kind exactly when each of its steps is the node of a value. -/
theorem Outline.unhandledKinds_not_mem_iff {outline : Outline} :
    (∀ kind ∈ outline.unhandledKinds, kind ∉ Kind.all.map Kind.name) ↔
      ∀ step ∈ outline.document.steps, ∃ value, Node.ofJson value = step := by
  constructor
  · intro h step hstep
    exact Node.exists_ofJson_eq_iff.2 fun kind hkind => h kind (Outline.mem_unhandledKinds.2 ⟨step, hstep, hkind⟩)
  · intro h kind hkind
    obtain ⟨step, hstep, hcontains⟩ := Outline.mem_unhandledKinds.1 hkind
    exact Node.exists_ofJson_eq_iff.1 (h step hstep) kind hcontains

namespace Node

/-- **Image of the conversion.** The nodes of values are those in which every unhandled node is of a kind that is not
listed; proper values have those nodes among them whose literals hold proper values. The node of an object has the kind
that the object names, or else `Unknown`, and belongs to that kind when it is listed. So documents that trees hold
report no listed kind, and other documents report none only if their steps are nodes of values. -/
theorem ofJson_image :
    (∀ node, (∃ value, ofJson value = node) ↔
      ∀ kind, node.Contains (.unhandled kind) → kind ∉ Kind.all.map Kind.name) ∧
    (∀ node, (∃ value : Json.Value, value.Proper ∧ ofJson value = node) ↔
      (∀ kind, node.Contains (.unhandled kind) → kind ∉ Kind.all.map Kind.name) ∧
        ∀ value, node.Contains (.literal value) → value.Proper) ∧
    (∀ fields : List (String × Json.Value),
      (∀ kind, fields.lookup "kind" = some (.string kind) → (ofJson (.object fields)).kind = kind) ∧
      ((∀ kind, fields.lookup "kind" ≠ some (.string kind)) → (ofJson (.object fields)).kind = "Unknown") ∧
      ∀ kind : Kind, fields.lookup "kind" = some (.string kind.name) →
        (ofJson (.object fields)).ownKind? = some kind) ∧
    (∀ outline : Outline, (∀ kind ∈ outline.unhandledKinds, kind ∉ Kind.all.map Kind.name) ↔
      ∀ step ∈ outline.document.steps, ∃ value, ofJson value = step) ∧
    ∀ root (outline : Outline), Document.ofJson root = .ok outline.document →
      ∀ kind ∈ outline.unhandledKinds, kind ∉ Kind.all.map Kind.name := by
  refine ⟨fun _ => exists_ofJson_eq_iff, fun _ => exists_proper_ofJson_eq_iff, fun fields => ⟨?_, ?_, ?_⟩,
    fun _ => Outline.unhandledKinds_not_mem_iff, fun root outline hroot => ?_⟩
  · intro kind hkind
    rw [kind_ofJson_object, kindName_of_string hkind]
  · intro hnone
    rw [kind_ofJson_object, kindName_of_no_string hnone]
  · intro kind hkind
    rw [ownKind?_ofJson_object, kindName_of_string hkind, Kind.ofName?_name]
  · refine Outline.unhandledKinds_not_mem_iff.2 fun step hstep => ?_
    obtain ⟨value, hvalue, _⟩ := Document.depth_step hroot hstep
    exact ⟨value, hvalue.symm⟩

/-- A wrapper around a node of a kind that is not listed. -/
def wrappedEach : Json.Value :=
  .object [("kind", .string "Csv"), ("node", .object [("kind", .string "EachExpression")])]

theorem wrappedEach_proper : wrappedEach.Proper := by
  have hinner : (Json.Value.object [("kind", .string "EachExpression")]).Proper :=
    .object (List.pairwise_singleton _ _) (List.forall_mem_singleton.2 (.string _))
  have hkeys : Names.Increasing ["kind", "node"] := by simp only [Names.Increasing]; decide
  exact .object hkeys (List.forall_mem_cons.2 ⟨.string _, List.forall_mem_singleton.2 hinner⟩)

theorem wrappedEach_ofJson_image :
    wrappedEach.Proper ∧ ofJson wrappedEach = .wrapper (some (.unhandled "EachExpression")) ∧
    ((∀ kind, (Node.wrapper (some (.unhandled "EachExpression"))).Contains (.unhandled kind) →
      kind ∉ Kind.all.map Kind.name) ∧
      ∀ value, (Node.wrapper (some (.unhandled "EachExpression"))).Contains (.literal value) → value.Proper) ∧
    (¬∃ value, ofJson value = .wrapper (some (.unhandled "Csv"))) ∧
    (ofJson wrappedEach).ownKind? = some .wrapper ∧ (ofJson wrappedEach).kind = "Csv" ∧
    (ofJson (.object [("kind", .null)])).kind = "Unknown" ∧
    Document.ofJson (.object [("variableList", .array [wrappedEach])]) = .ok (.ofSteps [ofJson wrappedEach]) ∧
    (Outline.ofDocument (.ofSteps [ofJson wrappedEach])).unhandledKinds = ["EachExpression"] ∧
    "EachExpression" ∉ Kind.all.map Kind.name := by
  obtain ⟨himage, hproper, hobjects, _, hdocuments⟩ := ofJson_image
  have hnode : ofJson wrappedEach = .wrapper (some (.unhandled "EachExpression")) := rfl
  have hroot : Document.ofJson (.object [("variableList", .array [wrappedEach])]) =
      .ok (.ofSteps [ofJson wrappedEach]) := by
    have hlist : variableList? (.object [("variableList", .array [wrappedEach])]) = some (.array [wrappedEach]) := by
      rw [variableList?, searchQueue]
      rfl
    rw [Document.ofJson, hlist]
    rfl
  have hreported : (Outline.ofDocument (.ofSteps [ofJson wrappedEach])).unhandledKinds = ["EachExpression"] := by
    decide +kernel
  have hnone : ∀ kind, [("kind", Json.Value.null)].lookup "kind" ≠ some (.string kind) := by
    intro kind h
    cases h
  refine ⟨wrappedEach_proper, hnode, (hproper _).1 ⟨wrappedEach, wrappedEach_proper, hnode⟩, fun hexists => ?_,
    (hobjects _).2.2 .wrapper rfl, (hobjects _).1 "Csv" rfl, (hobjects _).2.1 hnone, hroot, hreported, ?_⟩
  · have hcsv : "Csv" ∉ Kind.all.map Kind.name :=
      (himage _).1 hexists "Csv" (.tail .refl (show _ ∈ [_] from List.mem_cons_self))
    exact hcsv (by decide)
  · exact hdocuments _ (.ofDocument (.ofSteps [ofJson wrappedEach])) hroot _ (hreported ▸ List.mem_cons_self)

end Node

end QueryOutline
