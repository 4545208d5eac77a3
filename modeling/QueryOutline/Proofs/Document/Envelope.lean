import QueryOutline.Outline
import QueryOutline.Proofs.Document.LevelOrder
import QueryOutline.Proofs.Json.ReadBack
import QueryOutline.Proofs.Keyed

/-!
# Envelopes are transparent

An envelope is made of arrays and objects inside one another around a hole (`Frame`, `enclose`).

* **Positions** (`Frame.listAt_fill`): around a value, a frame that is clear has the lists of steps of the value, each
  one level further down.
* **Search** (`Frame.variableList?_fill`): so the list that comes first is the same, although the search also goes
  through everything beside the hole.
* **Documents** (`Document.ofJson_enclose`): an envelope of clear frames changes nothing.
-/

namespace QueryOutline

/-- An array or object around a hole, with the items or fields on both sides of the hole. -/
inductive Frame where
  | array (left right : List Json.Value)
  | object (left : List (String × Json.Value)) (name : String) (right : List (String × Json.Value))

namespace Frame

/-- The frame with a value in its hole. -/
def fill (value : Json.Value) : Frame → Json.Value
  | array left right => .array (left ++ value :: right)
  | object left name right => .object (left ++ (name, value) :: right)

/-- The names of the fields of a frame. -/
def names : Frame → List String
  | array _ _ => []
  | object left name right => left.map Prod.fst ++ name :: right.map Prod.fst

/-- The values in front of the hole. -/
def before : Frame → List Json.Value
  | array left _ => left
  | object left _ _ => left.map Prod.snd

/-- The values behind the hole. -/
def behind : Frame → List Json.Value
  | array _ right => right
  | object _ _ right => right.map Prod.snd

/-- Neither the frame nor any object beside the hole, at any depth, has a field `variableList`. -/
structure Clear (frame : Frame) : Prop where
  names : "variableList" ∉ frame.names
  beside : ∀ value ∈ frame.before ++ frame.behind, ∀ position list, ¬ListAt value position list

/-- The place of the hole. -/
def place (frame : Frame) : Nat := frame.before.length

/-! ## Positions -/

theorem fill_container (frame : Frame) (value : Json.Value) :
    (∃ items, frame.fill value = .array items) ∨ ∃ fields, frame.fill value = .object fields := by
  cases frame with
  | array left right => exact .inl ⟨_, rfl⟩
  | object left name right => exact .inr ⟨_, rfl⟩

theorem parts_fill (frame : Frame) (value : Json.Value) :
    (frame.fill value).parts = frame.before ++ value :: frame.behind := by
  cases frame with
  | array left right => rfl
  | object left name right => simp [fill, Json.Value.parts, before, behind]

theorem part_at_place (frame : Frame) (value : Json.Value) : (frame.fill value).parts[frame.place]? = some value := by
  rw [parts_fill, place, List.getElem?_append_right (Nat.le_refl _), Nat.sub_self, List.getElem?_cons_zero]

/-- At every other place stands a value beside the hole. -/
theorem mem_beside_of_part {frame : Frame} {value part : Json.Value} {place : Nat} (hplace : place ≠ frame.place)
    (h : (frame.fill value).parts[place]? = some part) : part ∈ frame.before ++ frame.behind := by
  rw [parts_fill] at h
  rcases Nat.lt_or_gt_of_ne hplace with hlt | hgt
  · rw [List.getElem?_append_left hlt] at h
    exact List.mem_append_left _ (List.mem_of_getElem? h)
  · obtain ⟨further, rfl⟩ := Nat.exists_eq_add_of_lt hgt
    have hafter : frame.place + further + 1 - frame.before.length = further + 1 := by rw [Frame.place]; omega
    rw [List.getElem?_append_right (by rw [Frame.place]; omega), hafter, List.getElem?_cons_succ] at h
    exact List.mem_append_right _ (List.mem_of_getElem? h)

/-- A field of the filled frame has the name of a field of the frame. -/
theorem mem_names_of_field {frame : Frame} {value list : Json.Value} {fields : List (String × Json.Value)}
    {name : String} (h : frame.fill value = .object fields) (hlist : fields.lookup name = some list) :
    name ∈ frame.names := by
  cases frame with
  | array left right => cases h
  | object left hole right =>
    obtain rfl := Json.Value.object.inj h
    have hmem := Keyed.isSome_lookup_iff.1 (Option.isSome_iff_exists.2 ⟨list, hlist⟩)
    simpa [names] using hmem

/-- Below one place positions are ordered as they are there. -/
theorem before_cons_iff {place : Nat} {p q : List Nat} : Before (place :: p) (place :: q) ↔ Before p q := by
  simp [Before, List.shortlex_cons_iff]

section Clear

variable {frame : Frame} (hclear : frame.Clear) {value : Json.Value}
include hclear

/-- The lists of steps in a clear frame are those of the value in its hole. -/
theorem listAt_fill {position : List Nat} {list : Json.Value} :
    ListAt (frame.fill value) position list ↔ ∃ below, position = frame.place :: below ∧ ListAt value below list := by
  constructor
  · rintro ⟨fields, hat, hlist⟩
    cases position with
    | nil =>
      -- the frame itself would be the object
      exact absurd (mem_names_of_field (Option.some.inj hat) hlist) hclear.names
    | cons place below =>
      obtain ⟨part, hpart, hbelow⟩ := Option.bind_eq_some_iff.1 hat
      by_cases hplace : place = frame.place
      · subst hplace
        rw [part_at_place] at hpart
        obtain rfl := Option.some.inj hpart
        exact ⟨below, rfl, fields, hbelow, hlist⟩
      · exact absurd ⟨fields, hbelow, hlist⟩ (hclear.beside part (mem_beside_of_part hplace hpart) below list)
  · rintro ⟨below, rfl, fields, hbelow, hlist⟩
    refine ⟨fields, ?_, hlist⟩
    rw [Json.Value.at?, part_at_place, Option.bind_some, hbelow]

/-- So the list that comes first is the same. -/
theorem firstListAt_fill {position : List Nat} {list : Json.Value} (h : FirstListAt value position list) :
    FirstListAt (frame.fill value) (frame.place :: position) list := by
  obtain ⟨hat, hfirst⟩ := h
  refine ⟨(listAt_fill hclear).2 ⟨position, rfl, hat⟩, fun other otherList hother => ?_⟩
  obtain ⟨below, rfl, hbelow⟩ := (listAt_fill hclear).1 hother
  rcases hfirst below otherList hbelow with rfl | hbefore
  · exact .inl rfl
  · exact .inr (before_cons_iff.2 hbefore)

end Clear

end Frame

/-! ## The search -/

theorem variableList?_eq_none_iff {root : Json.Value} :
    variableList? root = none ↔ ∀ position list, ¬ListAt root position list := by
  constructor
  · intro hnone position list hat
    obtain ⟨first, firstList, hfirst⟩ := exists_first hat
    rw [variableList?, searchQueue_of_first hfirst] at hnone
    cases hnone
  · intro h
    by_contra hsome
    obtain ⟨list, hlist⟩ := Option.ne_none_iff_exists'.1 hsome
    obtain ⟨value, hvalue, position, hat⟩ := exists_of_searchQueue hlist
    rw [List.mem_singleton] at hvalue
    exact h position list (hvalue ▸ hat)

/-- What the search does not find anything in may stand beside the hole. -/
theorem Frame.clear_of_search {frame : Frame} (hnames : "variableList" ∉ frame.names)
    (hbeside : ∀ value ∈ frame.before ++ frame.behind, variableList? value = none) : frame.Clear :=
  ⟨hnames, fun value hvalue => variableList?_eq_none_iff.1 (hbeside value hvalue)⟩

/-- **Search.** From a clear frame the search finds what it finds from the value in its hole. -/
theorem Frame.variableList?_fill {frame : Frame} (hclear : frame.Clear) (value : Json.Value) :
    variableList? (frame.fill value) = variableList? value := by
  by_cases h : ∃ position list, ListAt value position list
  · obtain ⟨position, list, hat⟩ := h
    obtain ⟨first, firstList, hfirst⟩ := exists_first hat
    rw [variableList?, searchQueue_of_first (firstListAt_fill hclear hfirst), variableList?,
      searchQueue_of_first hfirst]
  · have hnone : variableList? value = none :=
      variableList?_eq_none_iff.2 fun position list hat => h ⟨position, list, hat⟩
    rw [hnone, variableList?_eq_none_iff]
    intro position list hat
    obtain ⟨below, _, hbelow⟩ := (listAt_fill hclear).1 hat
    exact h ⟨below, list, hbelow⟩

/-! ## Documents -/

/-- A value inside the frames, the first of them outermost. -/
def enclose (value : Json.Value) : List Frame → Json.Value
  | [] => value
  | frame :: frames => frame.fill (enclose value frames)

namespace Document

/-- An array or object stays one inside frames. -/
theorem enclose_container {value : Json.Value}
    (h : (∃ items, value = .array items) ∨ ∃ fields, value = .object fields) : ∀ frames : List Frame,
    (∃ items, enclose value frames = .array items) ∨ ∃ fields, enclose value frames = .object fields
  | [] => h
  | frame :: frames => frame.fill_container (enclose value frames)

theorem variableList?_enclose (value : Json.Value) : ∀ {frames : List Frame}, (∀ frame ∈ frames, frame.Clear) →
    variableList? (enclose value frames) = variableList? value
  | [], _ => rfl
  | frame :: frames, h => by
    obtain ⟨hframe, hframes⟩ := List.forall_mem_cons.1 h
    rw [enclose, frame.variableList?_fill hframe, variableList?_enclose value hframes]

/-- **Envelopes are transparent.** An array or object inside frames without a list of steps, on the way to it and
beside it, is the same document as without them, so two sources that differ in such an envelope have the same outline
or fail with the same error. -/
theorem ofJson_enclose {value : Json.Value}
    (hvalue : (∃ items, value = .array items) ∨ ∃ fields, value = .object fields)
    {envelope : List Frame} (henvelope : ∀ frame ∈ envelope, frame.Clear) :
    (∃ document, ofJson value = .ok document ∧ ofJson (enclose value envelope) = .ok document) ∧
    ∀ source enclosed, readJson source = .ok value → readJson enclosed = .ok (enclose value envelope) →
      Outline.ofSource enclosed = Outline.ofSource source := by
  have hsame : ofJson (enclose value envelope) = ofJson value := by
    rw [ofJson_of_container hvalue, ofJson_of_container (enclose_container hvalue envelope),
      variableList?_enclose value henvelope]
  refine ⟨⟨_, ofJson_of_container hvalue, by rw [hsame, ofJson_of_container hvalue]⟩, ?_⟩
  intro source enclosed hsource henclosed
  rw [Outline.ofSource, Outline.ofSource, readDocument, readDocument, hsource, henclosed]
  show (do return Outline.ofDocument (← ofJson (enclose value envelope))) = _
  rw [hsame]
  rfl

/-- The answer of a service around a step: arrays and objects on the way to the hole, and beside it, on higher and on
lower levels, data of other kinds. -/
def serviceAnswer : List Frame :=
  [.object [("log", .array [.object [("kind", .string "Note")]])] "parseResult" [("status", .string "Ok")],
    .array [.null] [.object [("root", .object [])]]]

theorem clear_serviceAnswer : ∀ frame ∈ serviceAnswer, frame.Clear := by
  simp only [serviceAnswer, List.forall_mem_cons, List.not_mem_nil, false_implies, implies_true, and_true]
  constructor <;> refine Frame.clear_of_search (by decide) ?_ <;>
    simp [Frame.before, Frame.behind, variableList?, searchQueue_cons, searchQueue_nil, stepList?, Json.Value.field?,
      Json.Value.parts, Keyed.lookup_cons_eq]

/-- A list of one step. -/
def oneStep : Json.Value := .object [("variableList", .array [.null])]

/-- The texts of that list, alone and inside the answer. -/
def stepText : String := Json.compact oneStep

def answerText : String := Json.compact (enclose oneStep serviceAnswer)

theorem serviceAnswer_ofJson :
    (∀ frame ∈ serviceAnswer, frame.Clear) ∧
    (∃ document, ofJson oneStep = .ok document ∧ ofJson (enclose oneStep serviceAnswer) = .ok document) ∧
    readJson stepText = .ok oneStep ∧ readJson answerText = .ok (enclose oneStep serviceAnswer) ∧
    Outline.ofSource answerText = Outline.ofSource stepText := by
  have hstep : readJson stepText = .ok oneStep := readJson_compact (by decide) (by decide)
  have hanswer : readJson answerText = .ok (enclose oneStep serviceAnswer) :=
    readJson_compact (by decide) (by decide)
  obtain ⟨henclosed, hsources⟩ := ofJson_enclose (.inr ⟨_, rfl⟩) clear_serviceAnswer
  exact ⟨clear_serviceAnswer, henclosed, hstep, hanswer, hsources _ _ hstep hanswer⟩

end Document

end QueryOutline
