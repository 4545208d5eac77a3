import Mathlib.Data.List.Basic
import QueryOutline.Json.Reader
import QueryOutline.Proofs.Keyed

/-!
# Nesting of values that are read

A value is read with a budget of arrays and objects inside one another, so its depth stays within the budget.

* **Parts** (`readItems_parts`, `readFields_parts`): what stands inside brackets was read by the reader of nested
  values.
* **Brackets** (`readValueWith_shape`): only such a reader gives arrays and objects.
* **Depth** (`depth_le_of_readValue`, `depth_le_of_read`): the depth is at most the budget, and for a whole text 127.
-/

namespace QueryOutline.Json

theorem andThen_eq_ok_iff {α β : Type} {reading : Reading α} {next : α → List Char → Reading β}
    {result : β × List Char} :
    reading.andThen next = .ok result ↔ ∃ a rest, reading = .ok (a, rest) ∧ next a rest = .ok result := by
  unfold Reading.andThen
  split <;> simp

/-! ## Depth -/

namespace Value

theorem depthOfItems_le_iff {n : Nat} : ∀ {items : List Value}, depthOfItems items ≤ n ↔ ∀ item ∈ items, item.depth ≤ n
  | [] => by simp [depthOfItems]
  | item :: items => by rw [depthOfItems, Nat.max_le, List.forall_mem_cons, depthOfItems_le_iff]

theorem depthOfFields_le_iff {n : Nat} : ∀ {fields : List (String × Value)},
    depthOfFields fields ≤ n ↔ ∀ field ∈ fields, field.2.depth ≤ n
  | [] => by simp [depthOfFields]
  | (name, value) :: fields => by rw [depthOfFields, Nat.max_le, List.forall_mem_cons, depthOfFields_le_iff]

end Value

/-! ## Parts -/

section Parts

variable {read : List Char → Reading Value}

theorem readItems_parts : ∀ {bound : Nat} {text rest : List Char} {items : List Value},
    readItems read bound text = .ok (items, rest) → ∀ item ∈ items, ∃ text rest, read text = .ok (item, rest)
  | bound + 1, text, rest, items, h => by
    rw [readItems, andThen_eq_ok_iff] at h
    obtain ⟨first, afterFirst, hfirst, h⟩ := h
    split at h
    · cases h
    · cases h
      exact fun item hitem => ⟨_, _, List.mem_singleton.1 hitem ▸ hfirst⟩
    · split at h
      · cases h
      · cases h
      · obtain ⟨more, afterMore, hmore, h⟩ := andThen_eq_ok_iff.1 h
        cases h
        exact List.forall_mem_cons.2 ⟨⟨_, _, hfirst⟩, readItems_parts hmore⟩
    · cases h

theorem readArray_parts {text rest : List Char} {value : Value} (h : readArray read text = .ok (value, rest)) :
    ∃ items, value = .array items ∧ ∀ item ∈ items, ∃ text rest, read text = .ok (item, rest) := by
  unfold readArray at h
  split at h
  · cases h
  · cases h
    exact ⟨[], rfl, nofun⟩
  · obtain ⟨items, afterItems, hitems, h⟩ := andThen_eq_ok_iff.1 h
    cases h
    exact ⟨items, rfl, readItems_parts hitems⟩

theorem readField_part {text rest : List Char} {field : String × Value} (h : readField read text = .ok (field, rest)) :
    ∃ text rest, read text = .ok (field.2, rest) := by
  unfold readField at h
  split at h
  · cases h
  · obtain ⟨key, afterKey, _, h⟩ := andThen_eq_ok_iff.1 h
    split at h
    · cases h
    · obtain ⟨value, afterValue, hvalue, h⟩ := andThen_eq_ok_iff.1 h
      cases h
      exact ⟨_, _, hvalue⟩
    · cases h
  · cases h

theorem readFields_parts : ∀ {bound : Nat} {text rest : List Char} {fields : List (String × Value)},
    readFields read bound text = .ok (fields, rest) → ∀ field ∈ fields, ∃ text rest, read text = .ok (field.2, rest)
  | bound + 1, text, rest, fields, h => by
    rw [readFields, andThen_eq_ok_iff] at h
    obtain ⟨first, afterFirst, hfirst, h⟩ := h
    split at h
    · cases h
    · cases h
      exact fun field hfield => List.mem_singleton.1 hfield ▸ readField_part hfirst
    · split at h
      · cases h
      · cases h
      · obtain ⟨more, afterMore, hmore, h⟩ := andThen_eq_ok_iff.1 h
        cases h
        exact List.forall_mem_cons.2 ⟨readField_part hfirst, readFields_parts hmore⟩
    · cases h

theorem readObject_parts {text rest : List Char} {value : Value} (h : readObject read text = .ok (value, rest)) :
    ∃ fields, value = .object fields ∧ ∀ field ∈ fields, ∃ text rest, read text = .ok (field.2, rest) := by
  unfold readObject at h
  split at h
  · cases h
  · cases h
    exact ⟨[], rfl, nofun⟩
  · obtain ⟨fields, afterFields, hfields, h⟩ := andThen_eq_ok_iff.1 h
    cases h
    exact ⟨_, rfl, fun field hfield => readFields_parts hfields field (Keyed.mem_of_mem_ofList hfield)⟩

end Parts

/-! ## Values -/

theorem readWord_value {value result : Value} : ∀ {word text rest : List Char},
    readWord value word text = .ok (result, rest) → result = value
  | [], text, rest, h => by cases h; rfl
  | w :: word, [], rest, h => by cases h
  | w :: word, c :: text, rest, h => by
    rw [readWord] at h
    split at h
    · exact readWord_value h
    · cases h

/-- A value without brackets has no depth; one with brackets was read by the reader of nested values. -/
theorem readValueWith_shape {nested : Option (List Char → Reading Value)} {text rest : List Char} {value : Value}
    (h : readValueWith nested text = .ok (value, rest)) :
    value.depth = 0 ∨ ∃ read, nested = some read ∧
      ((∃ items, value = .array items ∧ ∀ item ∈ items, ∃ text rest, read text = .ok (item, rest)) ∨
        ∃ fields, value = .object fields ∧ ∀ field ∈ fields, ∃ text rest, read text = .ok (field.2, rest)) := by
  unfold readValueWith at h
  split at h
  · cases h
  · exact .inl (by rw [readWord_value h]; rfl)
  · exact .inl (by rw [readWord_value h]; rfl)
  · exact .inl (by rw [readWord_value h]; rfl)
  · obtain ⟨s, _, _, h⟩ := andThen_eq_ok_iff.1 h
    cases h
    exact .inl rfl
  · obtain ⟨n, _, _, h⟩ := andThen_eq_ok_iff.1 h
    cases h
    exact .inl rfl
  · split at h
    · exact .inr ⟨_, rfl, .inl (readArray_parts h)⟩
    · cases h
  · split at h
    · exact .inr ⟨_, rfl, .inr (readObject_parts h)⟩
    · cases h
  · split at h
    · obtain ⟨n, _, _, h⟩ := andThen_eq_ok_iff.1 h
      cases h
      exact .inl rfl
    · cases h

/-- **Depth.** A value is no deeper than the budget with which it is read. -/
theorem depth_le_of_readValue : ∀ {budget : Nat} {text rest : List Char} {value : Value},
    readValue budget text = .ok (value, rest) → value.depth ≤ budget
  | 0, text, rest, value, h => by
    obtain hflat | ⟨_, ⟨⟩, _⟩ := readValueWith_shape h
    exact Nat.le_of_eq hflat
  | budget + 1, text, rest, value, h => by
    obtain hflat | ⟨read, hread, ⟨items, rfl, hitems⟩ | ⟨fields, rfl, hfields⟩⟩ := readValueWith_shape h
    · omega
    · obtain rfl := Option.some.inj hread
      refine Nat.succ_le_succ (Value.depthOfItems_le_iff.2 fun item hitem => ?_)
      obtain ⟨text, rest, hitem⟩ := hitems item hitem
      exact depth_le_of_readValue hitem
    · obtain rfl := Option.some.inj hread
      refine Nat.succ_le_succ (Value.depthOfFields_le_iff.2 fun field hfield => ?_)
      obtain ⟨text, rest, hfield⟩ := hfields field hfield
      exact depth_le_of_readValue hfield

/-- The value of a text has at most 127 arrays and objects inside one another. -/
theorem depth_le_of_read {source : String} {value : Value} (h : read source = .ok value) : value.depth ≤ 127 := by
  unfold read at h
  split at h
  · rename_i result rest hread
    cases h
    obtain ⟨_, _, hvalue, hrest⟩ := andThen_eq_ok_iff.1 hread
    split at hrest
    · cases hrest
      exact depth_le_of_readValue hvalue
    · cases hrest
  · cases h

end QueryOutline.Json
