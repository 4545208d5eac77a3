import Mathlib.Logic.Relation
import QueryOutline.Document
import QueryOutline.Proofs.Json.Nesting
import QueryOutline.Proofs.Keyed

/-!
# The conversion field by field

A node is made of the parts under the fields that its kind reads: nodes (`Node.childAt?`) and sequences of nodes
(`Node.sequenceAt?`).

* **Objects** (`Node.ofJson_object`): the node of an object from the nodes and sequences under its fields.
* **Children** (`Node.mem_children_ofJson`): every child is the node of a value that the value encloses, which is less
  deep (`Json.Value.Encloses.depth_lt`).
-/

namespace QueryOutline

/-! ## Parts of values -/

namespace Json.Value

/-- A value encloses its parts, their parts, and so on. -/
def Encloses (value part : Value) : Prop := Relation.TransGen (fun value part => part ∈ value.parts) value part

theorem depth_lt_of_mem_parts {value part : Value} (h : part ∈ value.parts) : part.depth < value.depth := by
  cases value with
  | array items => exact Nat.lt_succ_of_le (depthOfItems_le_iff.1 (Nat.le_refl _) part h)
  | object fields =>
    obtain ⟨field, hfield, rfl⟩ := List.mem_map.1 h
    exact Nat.lt_succ_of_le (depthOfFields_le_iff.1 (Nat.le_refl _) field hfield)
  | _ => cases h

theorem Encloses.depth_lt {value part : Value} (h : value.Encloses part) : part.depth < value.depth := by
  induction h with
  | single hpart => exact depth_lt_of_mem_parts hpart
  | tail _ hpart ih => exact Nat.lt_trans (depth_lt_of_mem_parts hpart) ih

theorem encloses_of_mem_items {items : List Value} {item : Value} (h : item ∈ items) : (array items).Encloses item :=
  .single h

theorem mem_parts_of_lookup {fields : List (String × Value)} {name : String} {value : Value}
    (h : fields.lookup name = some value) : value ∈ (object fields).parts := by
  obtain ⟨before, after, rfl, _⟩ := List.lookup_eq_some_iff.1 h
  exact List.mem_map_of_mem (List.mem_append_right before List.mem_cons_self)

theorem encloses_of_lookup {fields : List (String × Value)} {name : String} {value : Value}
    (h : fields.lookup name = some value) : (object fields).Encloses value :=
  .single (mem_parts_of_lookup h)

/-- The elements of a sequence lie inside it, under `elements` even two levels below. -/
theorem encloses_of_elements {value item : Value} {items : List Value} (h : elements? value = some items)
    (hitem : item ∈ items) : value.Encloses item := by
  cases value with
  | array own =>
    obtain rfl := Option.some.inj h
    exact encloses_of_mem_items hitem
  | object fields =>
    obtain ⟨list, hlookup, hlist⟩ := Option.bind_eq_some_iff.1 h
    cases list with
    | array own =>
      obtain rfl := Option.some.inj hlist
      exact (encloses_of_lookup hlookup).trans (encloses_of_mem_items hitem)
    | _ => cases hlist
  | _ => cases h

end Json.Value

namespace Node

/-! ## Parts under fields -/

/-- The node under a field. -/
def childAt? (fields : List (String × Json.Value)) (name : String) : Option Node := (fields.lookup name).map ofJson

/-- The nodes of the sequence under a field. -/
def sequenceAt? (fields : List (String × Json.Value)) (name : String) : Option (List Node) :=
  ((fields.lookup name).bind elements?).map (List.map ofJson)

theorem convertItems_eq : ∀ items : List Json.Value, convertItems items = items.map ofJson
  | [] => rfl
  | item :: items => by rw [convertItems, convertItems_eq items, List.map_cons, ofJson]

theorem convertFields_eq : ∀ fields : List (String × Json.Value),
    convertFields fields = fields.map fun (name, value) => (name, convert value)
  | [] => rfl
  | (name, value) :: fields => by rw [convertFields, convertFields_eq fields, List.map_cons]

theorem lookup_convertFields (fields : List (String × Json.Value)) (name : String) :
    (convertFields fields).lookup name = (fields.lookup name).map convert := by
  rw [convertFields_eq, Keyed.lookup_map_values]

theorem items_convert (value : Json.Value) : (convert value).items = value.array?.map (List.map ofJson) := by
  cases value <;> simp [convert, Json.Value.array?, convertItems_eq]

/-- The sequence that a value means has the nodes of its elements. -/
theorem sequence_convert (value : Json.Value) : (convert value).sequence = (elements? value).map (List.map ofJson) := by
  cases value with
  | array items => rw [convert, elements?, Option.map_some, convertItems_eq]
  | object fields =>
    rw [convert, elements?, lookup_convertFields]
    cases fields.lookup "elements" with
    | none => rfl
    | some list => simp only [Option.map_some, Option.bind_some, items_convert]
  | _ => rfl

theorem lookup_node (fields : List (String × Json.Value)) (name : String) :
    ((convertFields fields).lookup name).map Meaning.node = childAt? fields name := by
  rw [lookup_convertFields, Option.map_map]
  rfl

theorem lookup_sequence (fields : List (String × Json.Value)) (name : String) :
    ((convertFields fields).lookup name).bind Meaning.sequence = sequenceAt? fields name := by
  rw [lookup_convertFields, sequenceAt?]
  cases fields.lookup name with
  | none => rfl
  | some value => simp only [Option.map_some, Option.bind_some, sequence_convert]

/-- **Objects.** The parts of a node are those under the fields that its kind reads. -/
theorem ofJson_object (fields : List (String × Json.Value)) :
    ofJson (.object fields) =
      match Kind.ofName? (kindName fields) with
      | some .step => step ((fields.lookup "key").bind (textOf? "literal")) (childAt? fields "value")
      | some .letBlock => letBlock ((sequenceAt? fields "expressions" <|> sequenceAt? fields "variableList").getD [])
      | some .list => list ((sequenceAt? fields "elements").getD [])
      | some .function => function ((sequenceAt? fields "parameters").getD []) (childAt? fields "body")
      | some .arithmetic =>
        arithmetic (childAt? fields "left") ((fields.lookup "operatorConstant").bind (textOf? "constantKind"))
          (childAt? fields "right")
      | some .chain => chain (childAt? fields "head") ((sequenceAt? fields "recursiveExpressions").getD [])
      | some .invoke => invoke (childAt? fields "content")
      | some .group => group ((sequenceAt? fields "elements").getD [])
      | some .identifier => identifier ((fields.lookup "identifier").bind (textOf? "literal"))
      | some .literal => literal ((fields.lookup "literal").getD .null)
      | some .wrapper => wrapper (childAt? fields "node")
      | none => unhandled (kindName fields) := by
  cases hkind : Kind.ofName? (kindName fields) with
  | none => simp only [ofJson, convert, ofObject, hkind]
  | some kind => cases kind <;> simp only [ofJson, convert, ofObject, hkind, lookup_node, lookup_sequence]

/-! ## Children -/

theorem mem_childAt {fields : List (String × Json.Value)} {name : String} {child : Node}
    (h : child ∈ (childAt? fields name).toList) :
    ∃ part, child = ofJson part ∧ (Json.Value.object fields).Encloses part := by
  obtain ⟨part, hlookup, rfl⟩ := Option.map_eq_some_iff.1 (Option.mem_toList.1 h)
  exact ⟨part, rfl, Json.Value.encloses_of_lookup hlookup⟩

theorem mem_sequenceAt {fields : List (String × Json.Value)} {name : String} {child : Node}
    (h : child ∈ (sequenceAt? fields name).getD []) :
    ∃ part, child = ofJson part ∧ (Json.Value.object fields).Encloses part := by
  cases hnodes : sequenceAt? fields name with
  | none => rw [hnodes] at h; cases h
  | some nodes =>
    rw [hnodes, Option.getD_some] at h
    obtain ⟨items, hitems, rfl⟩ := Option.map_eq_some_iff.1 hnodes
    obtain ⟨list, hlookup, helements⟩ := Option.bind_eq_some_iff.1 hitems
    obtain ⟨part, hpart, rfl⟩ := List.mem_map.1 h
    have hinside := Json.Value.encloses_of_elements helements hpart
    exact ⟨part, rfl, (Json.Value.encloses_of_lookup hlookup).trans hinside⟩

/-- **Children.** Every child is the node of a value inside. -/
theorem mem_children_ofJson {value : Json.Value} {child : Node} (h : child ∈ (ofJson value).children) :
    ∃ part, child = ofJson part ∧ value.Encloses part := by
  cases value with
  | object fields =>
    rw [ofJson_object] at h
    -- one case for each kind, in the order of the conversion
    split at h
    case h_1 => exact mem_childAt h
    case h_2 =>
      cases hexpressions : sequenceAt? fields "expressions" with
      | some nodes =>
        have hmem : child ∈ (sequenceAt? fields "expressions").getD [] := by
          simpa [hexpressions, children] using h
        exact mem_sequenceAt hmem
      | none =>
        have hmem : child ∈ (sequenceAt? fields "variableList").getD [] := by
          simpa [hexpressions, children] using h
        exact mem_sequenceAt hmem
    case h_3 => exact mem_sequenceAt h
    case h_4 => exact (List.mem_append.1 h).elim mem_sequenceAt mem_childAt
    case h_5 => exact (List.mem_append.1 h).elim mem_childAt mem_childAt
    case h_6 => exact (List.mem_append.1 h).elim mem_childAt mem_sequenceAt
    case h_7 => exact mem_childAt h
    case h_8 => exact mem_sequenceAt h
    case h_11 => exact mem_childAt h
    all_goals cases h
  | _ => cases h

end Node

end QueryOutline
