import Mathlib.Data.List.Basic
import Mathlib.Data.List.Shortlex
import Mathlib.Order.WellFounded
import QueryOutline.Document

/-!
# The search for the list of steps goes level by level

A value inside another has a position, the list of the places to go down to it. Positions are ordered level by level
and, within a level, from left to right (`Before`).

* **Levels**: `Json.Value.level` lists the values at one depth with their positions, from left to right
  (`Json.Value.mem_level`, `Json.Value.level_pairwise`).
* **Queue** (`searchQueue_append`): what stands in the queue is searched before any of its parts; so the search goes
  through one level after the other (`searchQueue_values`).
* **Result** (`searchQueue_of_first`): the search finds the field `variableList` of the object whose position comes
  first, after no more turns than there are values (`searchWithin_eq`).
* **Documents** (`Document.ofJson_level_order`): a document has the items of that field as its steps.
-/

namespace QueryOutline

/-! ## Positions -/

/-- On a higher level, or further left on the same one. -/
def Before (p q : List Nat) : Prop := List.Shortlex (· < ·) p q

theorem before_iff {p q : List Nat} : Before p q ↔ p.length < q.length ∨ p.length = q.length ∧ p < q :=
  List.shortlex_def

theorem Before.asymm {p q : List Nat} (h : Before p q) : ¬Before q p :=
  Std.Asymm.asymm (r := List.Shortlex (· < ·)) p q h

/-- Of two positions one comes first. -/
theorem eq_or_before_of_not_before {p q : List Nat} (h : ¬Before q p) : q = p ∨ Before p q := by
  by_cases hp : Before p q
  · exact .inr hp
  · exact .inl (Std.Trichotomous.trichotomous (r := List.Shortlex (· < ·)) q p h hp)

theorem wellFounded_before : WellFounded Before := List.Shortlex.wf wellFounded_lt

namespace Json.Value

/-- The value at a position: at each place, that part of the value is entered. -/
def at? (value : Value) : List Nat → Option Value
  | [] => some value
  | place :: position => (value.parts[place]?).bind fun part => part.at? position

/-- The values at one depth with their positions. -/
def level : Nat → Value → List (List Nat × Value)
  | 0, value => [([], value)]
  | n + 1, value =>
    value.parts.zipIdx.flatMap fun (part, place) => (level n part).map fun (position, v) => (place :: position, v)

theorem mem_level : ∀ {n : Nat} {root value : Value} {position : List Nat},
    (position, value) ∈ level n root ↔ position.length = n ∧ root.at? position = some value
  | 0, root, value, position => by
    simp only [level, List.mem_singleton, Prod.mk.injEq, List.length_eq_zero_iff]
    exact and_congr_right fun h => by rw [h, at?, Option.some.injEq, eq_comm]
  | n + 1, root, value, position => by
    simp only [level, List.mem_flatMap, List.mem_map, Prod.exists, Prod.mk.injEq, List.mem_zipIdx_iff_getElem?]
    constructor
    · rintro ⟨part, place, hpart, below, v, hmem, rfl, rfl⟩
      obtain ⟨hlen, hat⟩ := mem_level.1 hmem
      exact ⟨by rw [List.length_cons, hlen], by rw [at?, hpart, Option.bind_some, hat]⟩
    · rintro ⟨hlen, hat⟩
      cases position with
      | nil => simp at hlen
      | cons place below =>
        obtain ⟨part, hpart, hbelow⟩ := Option.bind_eq_some_iff.1 hat
        exact ⟨part, place, hpart, below, value, mem_level.2 ⟨by simpa using hlen, hbelow⟩, rfl, rfl⟩

/-- A level is listed from left to right. -/
theorem level_pairwise : ∀ (n : Nat) (root : Value), (level n root).Pairwise fun a b => a.1 < b.1
  | 0, _ => List.pairwise_singleton _ _
  | n + 1, root => by
    rw [level, List.pairwise_flatMap]
    constructor
    · rintro ⟨part, place⟩ _
      refine List.pairwise_map.2 ((level_pairwise n part).imp fun {a b} h => ?_)
      exact List.cons_lt_cons_iff.2 (.inr ⟨rfl, h⟩)
    · -- parts further right have greater places
      have hplaces : root.parts.zipIdx.Pairwise fun a b => a.2 < b.2 := by
        rw [← List.pairwise_map (f := Prod.snd) (R := (· < ·)), List.zipIdx_map_snd]
        exact List.pairwise_lt_range'
      refine hplaces.imp fun {a b} h => ?_
      intro x hx y hy
      obtain ⟨_, _, rfl⟩ := List.mem_map.1 hx
      obtain ⟨_, _, rfl⟩ := List.mem_map.1 hy
      exact List.cons_lt_cons_iff.2 (.inl h)

end Json.Value

/-! ## The queue -/

/-- The field that the search looks for. -/
def stepList? (value : Json.Value) : Option Json.Value := value.field? "variableList"

theorem searchQueue_nil : searchQueue [] = none := by rw [searchQueue]

theorem searchQueue_cons (value : Json.Value) (queue : List Json.Value) :
    searchQueue (value :: queue) = (stepList? value).or (searchQueue (queue ++ value.parts)) := by
  rw [searchQueue, stepList?]
  cases value.field? "variableList" <;> rfl

/-- **The queue.** What stands in front is searched first; then the search goes on behind it, with the parts of what
stood in front at the end. -/
theorem searchQueue_append : ∀ front back : List Json.Value,
    searchQueue (front ++ back) =
      (front.findSome? stepList?).or (searchQueue (back ++ front.flatMap Json.Value.parts))
  | [], back => by simp
  | value :: front, back => by
    rw [List.cons_append, searchQueue_cons, List.findSome?_cons, List.append_assoc, searchQueue_append front]
    cases stepList? value <;> simp

/-- A whole level is searched before the next one. -/
theorem searchQueue_level (values : List Json.Value) :
    searchQueue values =
      (values.findSome? stepList?).or (searchQueue (values.flatMap Json.Value.parts)) := by
  have h := searchQueue_append values []
  rwa [List.append_nil, List.nil_append] at h

/-- The values at one depth below some values. -/
def values (n : Nat) (roots : List Json.Value) : List Json.Value :=
  roots.flatMap fun root => (root.level n).map Prod.snd

theorem values_zero (roots : List Json.Value) : values 0 roots = roots := by simp [values, Json.Value.level]

theorem values_succ (n : Nat) (roots : List Json.Value) :
    values (n + 1) roots = values n (roots.flatMap Json.Value.parts) := by
  have hroot : ∀ root : Json.Value,
      (root.level (n + 1)).map Prod.snd = root.parts.flatMap fun part => (part.level n).map Prod.snd := by
    intro root
    rw [Json.Value.level, List.map_flatMap]
    conv => rhs; rw [← List.zipIdx_map_fst 0 root.parts, List.flatMap_map]
    simp [Function.comp_def]
  simp only [values, hroot, List.flatMap_assoc]

/-- Levels without the field are passed. -/
theorem searchQueue_values : ∀ (n : Nat) (roots : List Json.Value),
    (∀ m < n, ∀ value ∈ values m roots, stepList? value = none) → searchQueue roots = searchQueue (values n roots)
  | 0, roots, _ => by rw [values_zero]
  | n + 1, roots, h => by
    have hnone : roots.findSome? stepList? = none :=
      List.findSome?_eq_none_iff.2 fun value hv => h 0 n.succ_pos value (by rwa [values_zero])
    rw [values_succ, searchQueue_level, hnone, Option.none_or]
    exact searchQueue_values n _ fun m hm value hv => h (m + 1) (by omega) value (by rwa [values_succ])

/-- The search, cut off after a number of turns; nothing when it has not ended by then. -/
def searchWithin : Nat → List Json.Value → Option (Option Json.Value)
  | 0, _ => none
  | _ + 1, [] => some none
  | turns + 1, value :: queue =>
    match value.field? "variableList" with
    | some list => some (some list)
    | none => searchWithin turns (queue ++ value.parts)

/-- **Termination.** The search ends after as many turns as there are values in the queue, and one. -/
theorem searchWithin_eq : ∀ (turns : Nat) (queue : List Json.Value), Json.Value.sizeOfItems queue < turns →
    searchWithin turns queue = some (searchQueue queue)
  | turns + 1, [], _ => by rw [searchWithin, searchQueue_nil]
  | turns + 1, value :: queue, h => by
    rw [searchWithin, searchQueue]
    cases value.field? "variableList" with
    | some list => rfl
    | none =>
      refine searchWithin_eq turns _ ?_
      have := value.sizeOfItems_parts
      rw [Json.Value.sizeOfItems] at h
      rw [Json.Value.sizeOfItems_append]
      omega

/-! ## The object that comes first -/

section First

variable (root : Json.Value)

/-- At the position stands an object with this field `variableList`. -/
def ListAt (position : List Nat) (list : Json.Value) : Prop :=
  ∃ fields, root.at? position = some (.object fields) ∧ fields.lookup "variableList" = some list

/-- ... and every other such object comes later in level order. -/
def FirstListAt (position : List Nat) (list : Json.Value) : Prop :=
  ListAt root position list ∧ ∀ other otherList, ListAt root other otherList → other = position ∨ Before position other

variable {root}

theorem stepList?_eq_some {value list : Json.Value} :
    stepList? value = some list ↔ ∃ fields, value = .object fields ∧ fields.lookup "variableList" = some list := by
  cases value <;> simp [stepList?, Json.Value.field?]

theorem listAt_iff {position : List Nat} {list : Json.Value} :
    ListAt root position list ↔ ∃ value, root.at? position = some value ∧ stepList? value = some list := by
  constructor
  · rintro ⟨fields, hat, hlist⟩
    exact ⟨_, hat, stepList?_eq_some.2 ⟨fields, rfl, hlist⟩⟩
  · rintro ⟨value, hat, hlist⟩
    obtain ⟨fields, rfl, hlist⟩ := stepList?_eq_some.1 hlist
    exact ⟨fields, hat, hlist⟩

/-- An object on a level has the position under which it is listed there. -/
theorem listAt_of_mem_level {n : Nat} {position : List Nat} {value list : Json.Value}
    (hm : (position, value) ∈ root.level n) (hlist : stepList? value = some list) : ListAt root position list :=
  listAt_iff.2 ⟨value, (Json.Value.mem_level.1 hm).2, hlist⟩

theorem values_root (n : Nat) : values n [root] = (root.level n).map Prod.snd := by simp [values]

/-- The search finds the list that comes first. -/
theorem searchQueue_of_first {position : List Nat} {list : Json.Value} (h : FirstListAt root position list) :
    searchQueue [root] = some list := by
  obtain ⟨hat, hfirst⟩ := h
  obtain ⟨value, hvalue, hlist⟩ := listAt_iff.1 hat
  have hmem : (position, value) ∈ root.level position.length := Json.Value.mem_level.2 ⟨rfl, hvalue⟩
  -- an object in front of the position has no such field
  have hnone : ∀ {other v}, (other, v) ∈ root.level other.length → Before other position → stepList? v = none := by
    intro other v hm hbefore
    by_contra hsome
    obtain ⟨l, hl⟩ := Option.ne_none_iff_exists'.1 hsome
    rcases hfirst other l (listAt_of_mem_level hm hl) with rfl | hafter
    · exact hbefore.asymm hbefore
    · exact hbefore.asymm hafter
  have habove : ∀ m < position.length, ∀ v ∈ values m [root], stepList? v = none := by
    intro m hm v hv
    rw [values_root] at hv
    obtain ⟨⟨other, _⟩, hother, rfl⟩ := List.mem_map.1 hv
    obtain ⟨rfl, _⟩ := Json.Value.mem_level.1 hother
    exact hnone hother (before_iff.2 (.inl hm))
  obtain ⟨lefts, rights, hsplit⟩ := List.append_of_mem hmem
  have hlefts : ∀ v ∈ lefts.map Prod.snd, stepList? v = none := by
    intro v hv
    obtain ⟨⟨other, _⟩, hother, rfl⟩ := List.mem_map.1 hv
    have hsorted := root.level_pairwise position.length
    rw [hsplit] at hsorted
    have hlt : other < position := (List.pairwise_append.1 hsorted).2.2 _ hother _ List.mem_cons_self
    have hmem' : (other, _) ∈ root.level position.length := hsplit ▸ List.mem_append_left _ hother
    have hlen : other.length = position.length := (Json.Value.mem_level.1 hmem').1
    exact hnone (hlen ▸ hmem') (before_iff.2 (.inr ⟨hlen, hlt⟩))
  have hfound : (values position.length [root]).findSome? stepList? = some list := by
    rw [values_root, hsplit, List.map_append, List.map_cons]
    exact List.findSome?_eq_some_iff.2 ⟨_, _, _, rfl, hlist, hlefts⟩
  rw [searchQueue_values position.length [root] habove, searchQueue_level, hfound, Option.some_or]

/-- If some object has the field, one comes first. -/
theorem exists_first {position : List Nat} {list : Json.Value} (h : ListAt root position list) :
    ∃ first firstList, FirstListAt root first firstList := by
  obtain ⟨first, ⟨firstList, hat⟩, hmin⟩ :=
    wellFounded_before.has_min {p | ∃ list, ListAt root p list} ⟨position, list, h⟩
  refine ⟨first, firstList, hat, fun other otherList hother => ?_⟩
  exact eq_or_before_of_not_before (hmin other ⟨otherList, hother⟩)

/-- What the search finds is the field of some object. -/
theorem exists_of_searchQueue {queue : List Json.Value} {list : Json.Value} (h : searchQueue queue = some list) :
    ∃ value ∈ queue, ∃ position, ListAt value position list := by
  induction queue using searchQueue.induct with
  | case1 => rw [searchQueue_nil] at h; cases h
  | case2 value queue found hfound =>
    rw [searchQueue_cons, stepList?, hfound, Option.some_or, Option.some.injEq] at h
    exact ⟨value, List.mem_cons_self, [], listAt_iff.2 ⟨value, rfl, h ▸ hfound⟩⟩
  | case3 value queue hnone ih =>
    rw [searchQueue_cons, stepList?, hnone, Option.none_or] at h
    obtain ⟨v, hv, position, hat⟩ := ih h
    rcases List.mem_append.1 hv with hv | hv
    · exact ⟨v, List.mem_cons_of_mem _ hv, position, hat⟩
    · obtain ⟨place, hplace⟩ := List.mem_iff_getElem?.1 hv
      obtain ⟨fields, hfields, hlist⟩ := hat
      refine ⟨value, List.mem_cons_self, place :: position, fields, ?_, hlist⟩
      rw [Json.Value.at?, hplace, Option.bind_some, hfields]

end First

/-! ## The steps of a document -/

namespace Document

/-- The items of a list of steps: those of a bare array, or of an array under `elements`; all else has none. -/
inductive StepItems : Json.Value → List Json.Value → Prop
  | bare {items : List Json.Value} : StepItems (.array items) items
  | elements {fields : List (String × Json.Value)} {items : List Json.Value} :
      fields.lookup "elements" = some (.array items) → StepItems (.object fields) items
  | neither {list : Json.Value} : (∀ items, list ≠ .array items) →
      (∀ fields items, list = .object fields → fields.lookup "elements" ≠ some (.array items)) → StepItems list []

theorem array?_eq_some {value : Json.Value} {items : List Json.Value} :
    value.array? = some items ↔ value = .array items := by
  cases value <;> simp [Json.Value.array?]

theorem stepItems_elements (list : Json.Value) : StepItems list ((elements? list).getD []) := by
  cases list with
  | array items => exact .bare
  | object fields =>
    cases h : (fields.lookup "elements").bind Json.Value.array? with
    | some items =>
      obtain ⟨value, hvalue, hitems⟩ := Option.bind_eq_some_iff.1 h
      rw [elements?, h]
      exact .elements (hvalue.trans (congrArg some (array?_eq_some.1 hitems)))
    | none =>
      rw [elements?, h]
      refine .neither (by simp) fun fields' items hf hitems => ?_
      cases hf
      rw [hitems] at h
      cases h
  | _ => exact .neither (by simp) (by simp)

theorem ofJson_of_container {root : Json.Value} (h : (∃ items, root = .array items) ∨ ∃ fields, root = .object fields) :
    ofJson root = .ok ⟨(variableList? root).map fun list => ((elements? list).getD []).map Node.ofJson⟩ := by
  rcases h with ⟨items, rfl⟩ | ⟨fields, rfl⟩ <;> rfl

/-- **Level order.** The search from an array or object ends. The document has a list of steps exactly when some object
inside the root has a field `variableList`; then one such object comes first in level order, and the steps are the items
of its field. -/
theorem ofJson_level_order (root : Json.Value) (h : (∃ items, root = .array items) ∨ ∃ fields, root = .object fields) :
    searchWithin (root.size + 1) [root] = some (variableList? root) ∧
    ∃ document, ofJson root = .ok document ∧
      (document.hasVariableList = true ↔ ∃ position list, ListAt root position list) ∧
      (document.hasVariableList = true → ∃ position list, FirstListAt root position list) ∧
      ∀ position list, FirstListAt root position list →
        variableList? root = some list ∧
        ∃ items, StepItems list items ∧ document.steps? = some (items.map Node.ofJson) := by
  have hsome : (variableList? root).isSome = true ↔ ∃ position list, ListAt root position list := by
    rw [Option.isSome_iff_exists]
    constructor
    · rintro ⟨list, hlist⟩
      obtain ⟨value, hvalue, position, hat⟩ := exists_of_searchQueue hlist
      rw [List.mem_singleton] at hvalue
      exact ⟨position, list, hvalue ▸ hat⟩
    · rintro ⟨position, list, hat⟩
      obtain ⟨first, firstList, hfirst⟩ := exists_first hat
      exact ⟨firstList, searchQueue_of_first hfirst⟩
  refine ⟨?_, _, ofJson_of_container h, ?_, fun hlist => ?_, fun position list hfirst => ?_⟩
  · refine searchWithin_eq _ _ ?_
    simp only [Json.Value.sizeOfItems]
    omega
  · rw [hasVariableList, Option.isSome_map]
    exact hsome
  · rw [hasVariableList, Option.isSome_map] at hlist
    obtain ⟨position, list, hat⟩ := hsome.1 hlist
    exact exists_first hat
  · have hfound : variableList? root = some list := searchQueue_of_first hfirst
    exact ⟨hfound, _, stepItems_elements list, by rw [hfound, Option.map_some]⟩

/-- An envelope around two objects with lists of steps, with a third list on a higher level to the right of them. -/
def envelope : Json.Value :=
  .object
    [("ast", .array [.object [("variableList", .array [.null])], .object [("variableList", .array [])]]),
      ("meta", .object [("variableList", .object [("elements", .array [.string "x", .string "y"])])])]

theorem envelope_level_order :
    ((∃ items, envelope = .array items) ∨ ∃ fields, envelope = .object fields) ∧
    ∃ document, ofJson envelope = .ok document ∧ document.hasVariableList = true ∧
      ∃ position list, FirstListAt envelope position list ∧
        ∃ items, StepItems list items ∧ document.steps? = some (items.map Node.ofJson) := by
  have hroot : (∃ items, envelope = .array items) ∨ ∃ fields, envelope = .object fields := .inr ⟨_, rfl⟩
  have hat : ListAt envelope [1] (.object [("elements", .array [.string "x", .string "y"])]) := ⟨_, rfl, rfl⟩
  obtain ⟨_, document, hdocument, hlist, hfirst, hsteps⟩ := ofJson_level_order envelope hroot
  have hsome : document.hasVariableList = true := hlist.2 ⟨_, _, hat⟩
  obtain ⟨position, list, hposition⟩ := hfirst hsome
  exact ⟨hroot, document, hdocument, hsome, position, list, hposition, (hsteps position list hposition).2⟩

end Document

end QueryOutline
