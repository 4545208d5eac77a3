import Mathlib.Logic.Relation
import QueryOutline.Proofs.Node.Conversion

/-!
# Spellings of one node

The parser may spell a sequence as an array or as an object around it, a name or an operator as a string or as an object
around it, and the steps of a `let` under either of two fields. `Change` is one change of such a spelling in an object,
and `Respelled` one change anywhere below where an object is converted to a node.

* **Fields** (`Kind.uses`, `Node.ofJson_object_congr`): a node depends on its object only through the fields that its
  kind uses, and on each of these only as far as it is used.
* **One change** (`Change.ofJson_eq`, `Respelled.ofJson_eq`): the node stays the same.
* **Equivalent spellings** (`Node.ofJson_respelled`): so it does for any number of changes, made or taken back.
-/

namespace QueryOutline

/-! ## How fields are used -/

/-- How the conversion uses the value of a field. -/
inductive Use where
  /-- As one node. -/
  | child
  /-- As a sequence of nodes. -/
  | sequence
  /-- As a text, which an object has under the given field. -/
  | text (field : String)
  /-- As it is. -/
  | whole
  deriving DecidableEq, Repr

/-- The fields that a kind uses besides `kind`, and how. -/
def Kind.uses : Kind → List (String × Use)
  | step => [("key", .text "literal"), ("value", .child)]
  | letBlock => [("expressions", .sequence), ("variableList", .sequence)]
  | list => [("elements", .sequence)]
  | function => [("parameters", .sequence), ("body", .child)]
  | arithmetic => [("left", .child), ("operatorConstant", .text "constantKind"), ("right", .child)]
  | chain => [("head", .child), ("recursiveExpressions", .sequence)]
  | invoke => [("content", .child)]
  | group => [("elements", .sequence)]
  | identifier => [("identifier", .text "literal")]
  | literal => [("literal", .whole)]
  | wrapper => [("node", .child)]

/-- The fields that the conversion of an object uses. -/
def usesOf (fields : List (String × Json.Value)) : List (String × Use) :=
  match Kind.ofName? (kindName fields) with
  | some kind => kind.uses
  | none => []

/-- Two values of a field, or their absence, mean the same in a use. -/
def Use.Same (value? other? : Option Json.Value) : Use → Prop
  | child => value?.map Node.ofJson = other?.map Node.ofJson
  | sequence => (value?.bind elements?).map (List.map Node.ofJson) = (other?.bind elements?).map (List.map Node.ofJson)
  | text field => value?.bind (textOf? field) = other?.bind (textOf? field)
  | whole => value? = other?

theorem Use.same_refl (value? : Option Json.Value) : ∀ use : Use, use.Same value? value?
  | child => rfl
  | sequence => rfl
  | text _ => rfl
  | whole => rfl

namespace Node

variable {fields others : List (String × Json.Value)}

/-- **Fields.** A node depends on its object only as far as its kind uses the fields. -/
theorem ofJson_object_congr (hkind : kindName fields = kindName others)
    (h : ∀ name use, (name, use) ∈ usesOf fields → use.Same (fields.lookup name) (others.lookup name)) :
    ofJson (.object fields) = ofJson (.object others) := by
  rw [ofJson_object, ofJson_object, ← hkind]
  simp only [usesOf] at h
  cases hof : Kind.ofName? (kindName fields) with
  | none => rfl
  | some kind =>
    simp only [hof] at h
    have hchild : ∀ name, (name, .child) ∈ kind.uses → childAt? fields name = childAt? others name := fun name hmem =>
      h name .child hmem
    have hsequence : ∀ name, (name, .sequence) ∈ kind.uses → sequenceAt? fields name = sequenceAt? others name :=
      fun name hmem => h name .sequence hmem
    have htext : ∀ name field, (name, .text field) ∈ kind.uses →
        (fields.lookup name).bind (textOf? field) = (others.lookup name).bind (textOf? field) :=
      fun name field hmem => h name (.text field) hmem
    have hwhole : ∀ name, (name, .whole) ∈ kind.uses → fields.lookup name = others.lookup name := fun name hmem =>
      h name .whole hmem
    -- each part of the node is under a field that the kind uses so
    cases kind <;> simp (disch := decide) only [hchild, hsequence, htext, hwhole]

/-- A `let` takes its steps from the first of two fields that has a sequence. -/
theorem ofJson_letBlock (hkind : kindName fields = Kind.letBlock.name) :
    ofJson (.object fields) =
      letBlock ((sequenceAt? fields "expressions" <|> sequenceAt? fields "variableList").getD []) := by
  have hof : Kind.ofName? (kindName fields) = some .letBlock := by
    rw [hkind]
    decide
  rw [ofJson_object, hof]

end Node

/-! ## One change -/

/-- The fields agree but for those with the given names. -/
def AgreeBut (names : List String) (fields others : List (String × Json.Value)) : Prop :=
  ∀ name, name ∉ names → fields.lookup name = others.lookup name

/-- The fields that hold sequences. -/
def sequenceFields : List String := ["expressions", "variableList", "elements", "parameters", "recursiveExpressions"]

/-- The fields that hold texts, with the field of an object around such a text. -/
def textFields : List (String × String) :=
  [("key", "literal"), ("identifier", "literal"), ("operatorConstant", "constantKind")]

/-- One object comes from the other by one change of spelling. -/
inductive Change (fields others : List (String × Json.Value)) : Prop where
  /-- An array of elements gets an object around it, with whatever other fields. -/
  | sequence {name : String} {items : List Json.Value} {around : List (String × Json.Value)}
    (hname : name ∈ sequenceFields) (hbare : fields.lookup name = some (.array items))
    (haround : others.lookup name = some (.object around)) (hitems : around.lookup "elements" = some (.array items))
    (hrest : AgreeBut [name] fields others)
  /-- A string gets an object around it, with whatever other fields. -/
  | text {name field s : String} {around : List (String × Json.Value)} (hname : (name, field) ∈ textFields)
    (hbare : fields.lookup name = some (.string s)) (haround : others.lookup name = some (.object around))
    (htext : around.lookup field = some (.string s)) (hrest : AgreeBut [name] fields others)
  /-- The sequence of a `let` goes to the other field, and nothing that is a sequence stays where it was. -/
  | letSteps {sequence : Json.Value} {items : List Json.Value} (hkind : kindName fields = Kind.letBlock.name)
    (hbefore : fields.lookup "expressions" = some sequence) (hitems : elements? sequence = some items)
    (hafter : others.lookup "variableList" = some sequence)
    (hunusable : (others.lookup "expressions").bind elements? = none)
    (hrest : AgreeBut ["expressions", "variableList"] fields others)
  /-- A field that the kind does not use comes, goes or has another value. -/
  | unused {name : String} (hkind : name ≠ "kind") (hunused : ∀ use, (name, use) ∉ usesOf fields)
    (hrest : AgreeBut [name] fields others)

section Agree

variable {fields others : List (String × Json.Value)} {name : String}

/-- One field has another value. -/
theorem agreeBut_set (before after : List (String × Json.Value)) (value other : Json.Value) :
    AgreeBut [name] (before ++ (name, value) :: after) (before ++ (name, other) :: after) := by
  intro field hfield
  have hne : field ≠ name := by simpa using hfield
  rw [List.lookup_append, List.lookup_append, Keyed.lookup_cons_eq, Keyed.lookup_cons_eq, if_neg hne, if_neg hne]

/-- There is one more field. -/
theorem agreeBut_insert (before after : List (String × Json.Value)) (value : Json.Value) :
    AgreeBut [name] (before ++ after) (before ++ (name, value) :: after) := by
  intro field hfield
  have hne : field ≠ name := by simpa using hfield
  rw [List.lookup_append, List.lookup_append, Keyed.lookup_cons_eq, if_neg hne]

theorem kindName_congr {names : List String} (h : AgreeBut names fields others) (hkind : "kind" ∉ names) :
    kindName fields = kindName others := by
  rw [kindName, kindName, h "kind" hkind]

/-- Fields that differ under one name, where they mean the same in its use, make the same node. -/
theorem ofJson_object_eq_of_agreeBut (hrest : AgreeBut [name] fields others) (hname : name ≠ "kind")
    (h : ∀ use, (name, use) ∈ usesOf fields → use.Same (fields.lookup name) (others.lookup name)) :
    Node.ofJson (.object fields) = Node.ofJson (.object others) := by
  apply Node.ofJson_object_congr
  · apply kindName_congr hrest
    simpa using Ne.symm hname
  · intro other use huse
    by_cases hother : other = name
    · subst hother
      exact h use huse
    · rw [hrest other (by simpa using hother)]
      exact Use.same_refl _ use

theorem mem_usesOf_iff {use : Use} :
    (name, use) ∈ usesOf fields ↔ ∃ kind, Kind.ofName? (kindName fields) = some kind ∧ (name, use) ∈ kind.uses := by
  unfold usesOf
  split <;> simp_all

/-- The fields of sequences are used as sequences only, those of texts as texts only, and `kind` has no further use. -/
theorem use_of_mem_uses (kind : Kind) : ∀ field ∈ kind.uses, (field.1 ∈ sequenceFields → field.2 = .sequence) ∧
    (∀ text ∈ textFields, text.1 = field.1 → field.2 = .text text.2) ∧ field.1 ≠ "kind" := by
  cases kind <;> decide

theorem eq_sequence_of_mem_usesOf {use : Use} (hname : name ∈ sequenceFields) (huse : (name, use) ∈ usesOf fields) :
    use = .sequence := by
  obtain ⟨kind, _, hmem⟩ := mem_usesOf_iff.1 huse
  exact (use_of_mem_uses kind _ hmem).1 hname

theorem eq_text_of_mem_usesOf {field : String} {use : Use} (hname : (name, field) ∈ textFields)
    (huse : (name, use) ∈ usesOf fields) : use = .text field := by
  obtain ⟨kind, _, hmem⟩ := mem_usesOf_iff.1 huse
  exact (use_of_mem_uses kind _ hmem).2.1 _ hname rfl

theorem ne_kind_of_mem_usesOf {use : Use} (huse : (name, use) ∈ usesOf fields) : name ≠ "kind" := by
  obtain ⟨kind, _, hmem⟩ := mem_usesOf_iff.1 huse
  exact (use_of_mem_uses kind _ hmem).2.2

/-- A kind uses a field in one way only. -/
theorem use_unique {use other : Use} (huse : (name, use) ∈ usesOf fields) (hother : (name, other) ∈ usesOf fields) :
    use = other := by
  obtain ⟨kind, hkind, hmem⟩ := mem_usesOf_iff.1 huse
  obtain ⟨same, hsame, hmem'⟩ := mem_usesOf_iff.1 hother
  obtain rfl : kind = same := Option.some.inj (hkind.symm.trans hsame)
  have hall : ∀ kind : Kind, ∀ field ∈ kind.uses, ∀ again ∈ kind.uses, field.1 = again.1 → field.2 = again.2 := by
    intro kind
    cases kind <;> decide
  exact hall kind _ hmem _ hmem' rfl

theorem ne_kind_of_mem_sequenceFields (hname : name ∈ sequenceFields) : name ≠ "kind" := by
  rintro rfl
  revert hname
  decide

theorem ne_kind_of_mem_textFields {field : String} (hname : (name, field) ∈ textFields) : name ≠ "kind" := by
  have hall : ∀ text ∈ textFields, text.1 ≠ "kind" := by decide
  exact hall _ hname

end Agree

/-- **One change** of an object leaves its node as it is. -/
theorem Change.ofJson_eq {fields others : List (String × Json.Value)} (h : Change fields others) :
    Node.ofJson (.object fields) = Node.ofJson (.object others) := by
  cases h with
  | sequence hname hbare haround hitems hrest =>
    apply ofJson_object_eq_of_agreeBut hrest (ne_kind_of_mem_sequenceFields hname)
    intro use huse
    rw [eq_sequence_of_mem_usesOf hname huse, hbare, haround]
    simp [Use.Same, elements?, hitems, Json.Value.array?]
  | text hname hbare haround htext hrest =>
    apply ofJson_object_eq_of_agreeBut hrest (ne_kind_of_mem_textFields hname)
    intro use huse
    rw [eq_text_of_mem_usesOf hname huse, hbare, haround]
    simp [Use.Same, textOf?, htext, Json.Value.string?]
  | letSteps hkind hbefore hitems hafter hunusable hrest =>
    have hothers : kindName others = Kind.letBlock.name := by
      rw [← kindName_congr hrest (by decide), hkind]
    rw [Node.ofJson_letBlock hkind, Node.ofJson_letBlock hothers]
    simp [Node.sequenceAt?, hbefore, hitems, hafter, hunusable]
  | unused hkind hunused hrest =>
    apply ofJson_object_eq_of_agreeBut hrest hkind
    intro use huse
    exact absurd huse (hunused use)

/-! ## Changes below -/

/-- One value comes from the other by one change of spelling, in it or in a part that becomes a node. -/
inductive Respelled : Json.Value → Json.Value → Prop where
  | here {fields others : List (String × Json.Value)} (h : Change fields others) :
    Respelled (.object fields) (.object others)
  /-- The change is in a node under a field. -/
  | child {fields others : List (String × Json.Value)} {name : String} {part changed : Json.Value}
    (huse : (name, .child) ∈ usesOf fields) (hpart : fields.lookup name = some part)
    (hchanged : others.lookup name = some changed) (hrest : AgreeBut [name] fields others)
    (h : Respelled part changed) : Respelled (.object fields) (.object others)
  /-- The change is in an element of a sequence. -/
  | element {fields others : List (String × Json.Value)} {name : String} {sequence resulting part changed : Json.Value}
    {before after : List Json.Value} (huse : (name, .sequence) ∈ usesOf fields)
    (hsequence : fields.lookup name = some sequence) (hresulting : others.lookup name = some resulting)
    (hpart : elements? sequence = some (before ++ part :: after))
    (hchanged : elements? resulting = some (before ++ changed :: after)) (hrest : AgreeBut [name] fields others)
    (h : Respelled part changed) : Respelled (.object fields) (.object others)

/-- One change anywhere leaves the node as it is. -/
theorem Respelled.ofJson_eq {value other : Json.Value} (h : Respelled value other) :
    Node.ofJson value = Node.ofJson other := by
  induction h with
  | here h => exact h.ofJson_eq
  | child huse hpart hchanged hrest _ ih =>
    apply ofJson_object_eq_of_agreeBut hrest (ne_kind_of_mem_usesOf huse)
    intro use hmem
    rw [use_unique hmem huse, hpart, hchanged]
    simp only [Use.Same, Option.map_some, ih]
  | element huse hsequence hresulting hpart hchanged hrest _ ih =>
    apply ofJson_object_eq_of_agreeBut hrest (ne_kind_of_mem_usesOf huse)
    intro use hmem
    rw [use_unique hmem huse, hsequence, hresulting]
    simp only [Use.Same, Option.bind_some, hpart, hchanged, Option.map_some, List.map_append, List.map_cons, ih]

namespace Node

/-- **Equivalent spellings** have the same node. -/
theorem ofJson_respelled {value other : Json.Value} (h : Relation.EqvGen Respelled value other) :
    ofJson value = ofJson other := by
  induction h with
  | rel value other hchange => exact hchange.ofJson_eq
  | refl value => rfl
  | symm value other _ ih => exact ih.symm
  | trans value other more _ _ ih ih' => exact ih.trans ih'

/-- A step with the given spelling of its name and of its value. -/
def stepSpelled (key value : Json.Value) : Json.Value :=
  .object [("key", key), ("kind", .string "IdentifierPairedExpression"), ("value", value)]

/-- An identifier with the given spelling of its name. -/
def identifierSpelled (name : Json.Value) : Json.Value :=
  .object [("identifier", name), ("kind", .string "IdentifierExpression")]

/-- A `let` with the given spelling of its steps under a field. -/
def letSpelled (field : String) (steps : Json.Value) : Json.Value :=
  .object [(field, steps), ("kind", .string "LetExpression")]

/-- A `let` with one step, in as few words as possible. -/
def terseLet : Json.Value :=
  letSpelled "expressions" (.array [stepSpelled (.string "a") (identifierSpelled (.string "b"))])

/-- The same step with an object around each name. -/
def wordyStep : Json.Value :=
  stepSpelled (.object [("literal", .string "a")]) (identifierSpelled (.object [("literal", .string "b")]))

/-- The same `let` with an object around each name and around the steps, which stand under the other field, and with a
field that is not used. -/
def wordyLet : Json.Value :=
  .object [("comment", .null), ("variableList", .object [("elements", .array [wordyStep])]),
    ("kind", .string "LetExpression")]

/-- The names in the step are spelled in the other way one after the other, the inner one first. -/
theorem wordyStep_respelled :
    Relation.EqvGen Respelled (stepSpelled (.string "a") (identifierSpelled (.string "b"))) wordyStep := by
  have hidentifier : Respelled (identifierSpelled (.string "b"))
      (identifierSpelled (.object [("literal", .string "b")])) :=
    .here (.text (show ("identifier", "literal") ∈ textFields by decide) rfl rfl rfl (agreeBut_set [] _ _ _))
  have hvalue : Respelled (stepSpelled (.string "a") (identifierSpelled (.string "b")))
      (stepSpelled (.string "a") (identifierSpelled (.object [("literal", .string "b")]))) :=
    .child (show ("value", .child) ∈ Kind.step.uses by decide) rfl rfl (agreeBut_set [_, _] [] _ _) hidentifier
  have hkey : Respelled (stepSpelled (.string "a") (identifierSpelled (.object [("literal", .string "b")])))
      wordyStep :=
    .here (.text (show ("key", "literal") ∈ textFields by decide) rfl rfl rfl (agreeBut_set [] _ _ _))
  exact .trans _ _ _ (.rel _ _ hvalue) (.rel _ _ hkey)

/-- Changes of an element are changes of the `let`. -/
theorem letSpelled_respelled {value other : Json.Value} (h : Relation.EqvGen Respelled value other) :
    Relation.EqvGen Respelled (letSpelled "expressions" (.array [value]))
      (letSpelled "expressions" (.array [other])) := by
  induction h with
  | rel value other hchange =>
    apply Relation.EqvGen.rel
    exact .element (show ("expressions", .sequence) ∈ Kind.letBlock.uses by decide) rfl rfl
      (show _ = some ([] ++ _ :: []) from rfl) rfl (agreeBut_set [] _ _ _) hchange
  | refl value => exact .refl _
  | symm value other _ ih => exact .symm _ _ ih
  | trans value other more _ _ ih ih' => exact .trans _ _ _ ih ih'

theorem wordyLet_respelled : Relation.EqvGen Respelled terseLet wordyLet ∧ ofJson terseLet = ofJson wordyLet := by
  have hsteps : Relation.EqvGen Respelled terseLet (letSpelled "expressions" (.array [wordyStep])) :=
    letSpelled_respelled wordyStep_respelled
  have haround : Respelled (letSpelled "expressions" (.array [wordyStep]))
      (letSpelled "expressions" (.object [("elements", .array [wordyStep])])) :=
    .here (.sequence (by decide) rfl rfl rfl (agreeBut_set [] _ _ _))
  have hfield : Respelled (letSpelled "expressions" (.object [("elements", .array [wordyStep])]))
      (letSpelled "variableList" (.object [("elements", .array [wordyStep])])) := by
    refine .here (.letSteps rfl rfl rfl rfl rfl ?_)
    intro name hname
    simp only [List.mem_cons, List.not_mem_nil, or_false, not_or] at hname
    simp [Keyed.lookup_cons_eq, hname]
  have hcomment : Respelled (letSpelled "variableList" (.object [("elements", .array [wordyStep])])) wordyLet :=
    .here (.unused (show "comment" ≠ "kind" by decide) (show ∀ use, ("comment", use) ∉ Kind.letBlock.uses by
      simp [Kind.uses]) (agreeBut_insert [] _ _))
  have hchanges : Relation.EqvGen Respelled terseLet wordyLet :=
    .trans _ _ _ hsteps (.trans _ _ _ (.rel _ _ haround) (.trans _ _ _ (.rel _ _ hfield) (.rel _ _ hcomment)))
  exact ⟨hchanges, ofJson_respelled hchanges⟩

end Node

end QueryOutline
