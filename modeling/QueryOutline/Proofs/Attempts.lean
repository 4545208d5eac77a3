import Mathlib.Data.List.Basic

/-!
# Attempts

A step of the program attempts something for every item in order and gives up at the first item for which it fails.

* **Success** (`mapM_attempt_eq_ok`, `exists_mapM_attempt_iff`): every attempt succeeds, and the results are in the
  order of the items.
* **Failure** (`mapM_attempt_eq_error`): some item is the first for which the attempt fails (`FirstFailure`).
* **Two attempts** (`Alike`): both succeed with related results, or both fail with the same error.
-/

namespace QueryOutline

section Attempts

variable {α β γ ε δ : Type}

theorem bind_eq_ok_iff {x : Except ε α} {f : α → Except ε β} {b : β} :
    (x >>= f) = .ok b ↔ ∃ a, x = .ok a ∧ f a = .ok b := by
  cases x <;> simp [bind, Except.bind]

theorem bind_eq_error_iff {x : Except ε α} {f : α → Except ε β} {e : ε} :
    (x >>= f) = .error e ↔ x = .error e ∨ ∃ a, x = .ok a ∧ f a = .error e := by
  cases x <;> simp [bind, Except.bind]

theorem map_eq_ok_iff {x : Except ε α} {f : α → β} {b : β} : x.map f = .ok b ↔ ∃ a, x = .ok a ∧ f a = b := by
  cases x <;> simp [Except.map]

theorem mapError_eq_ok_iff {x : Except ε α} {f : ε → δ} {a : α} : x.mapError f = .ok a ↔ x = .ok a := by
  cases x <;> simp [Except.mapError]

theorem mapError_eq_error_iff {x : Except ε α} {f : ε → δ} {d : δ} :
    x.mapError f = .error d ↔ ∃ e, x = .error e ∧ f e = d := by
  cases x <;> simp [Except.mapError]

/-- Attempts something for an item; the result and the error are told together with the item. -/
def attempt (f : α → Except ε β) (result : α → β → γ) (blame : α → ε → δ) (item : α) : Except δ γ :=
  match f item with
  | .ok b => .ok (result item b)
  | .error e => .error (blame item e)

/-- Telling only the error together with the item is such an attempt. -/
theorem mapError_attempt (f : α → Except ε β) (blame : α → ε → δ) :
    (fun item => (f item).mapError (blame item)) = attempt f (fun _ b => b) blame := by
  funext item
  unfold attempt
  cases f item <;> rfl

/-- The item is the first for which the attempt fails, with the given error. -/
def FirstFailure (f : α → Except ε β) (items : List α) (item : α) (error : ε) : Prop :=
  ∃ before after, items = before ++ item :: after ∧ (∀ other ∈ before, ∃ b, f other = .ok b) ∧ f item = .error error

variable {f : α → Except ε β} {result : α → β → γ} {blame : α → ε → δ}

theorem attempt_eq_ok_iff {item : α} {c : γ} :
    attempt f result blame item = .ok c ↔ ∃ b, f item = .ok b ∧ result item b = c := by
  unfold attempt
  split <;> simp_all

theorem attempt_eq_error_iff {item : α} {d : δ} :
    attempt f result blame item = .error d ↔ ∃ e, f item = .error e ∧ blame item e = d := by
  unfold attempt
  split <;> simp_all

theorem not_firstFailure_nil {item : α} {error : ε} : ¬FirstFailure f [] item error := by
  rintro ⟨before, after, h, _⟩
  simp at h

/-- Either the first item fails, or it does not and a later one is the first to fail. -/
theorem firstFailure_cons {first item : α} {items : List α} {error : ε} :
    FirstFailure f (first :: items) item error ↔
      first = item ∧ f first = .error error ∨ (∃ b, f first = .ok b) ∧ FirstFailure f items item error := by
  constructor
  · rintro ⟨before, after, h, hbefore, hitem⟩
    cases before with
    | nil =>
      obtain ⟨rfl, rfl⟩ := List.cons.inj h
      exact .inl ⟨rfl, hitem⟩
    | cons other before =>
      obtain ⟨rfl, rfl⟩ := List.cons.inj h
      exact .inr ⟨hbefore first List.mem_cons_self, before, after, rfl,
        fun other hm => hbefore other (List.mem_cons_of_mem _ hm), hitem⟩
  · rintro (⟨rfl, h⟩ | ⟨hfirst, before, after, rfl, hbefore, hitem⟩)
    · exact ⟨[], items, rfl, nofun, h⟩
    · refine ⟨first :: before, after, rfl, fun other hm => ?_, hitem⟩
      rcases List.mem_cons.1 hm with rfl | hm
      · exact hfirst
      · exact hbefore other hm

/-- **Success**: every attempt succeeds. -/
theorem mapM_attempt_eq_ok : ∀ {items : List α} {results : List γ},
    items.mapM (attempt f result blame) = .ok results ↔
      ∃ pairs : List (α × β), pairs.map Prod.fst = items ∧ (∀ pair ∈ pairs, f pair.1 = .ok pair.2) ∧
        results = pairs.map fun pair => result pair.1 pair.2
  | [], results => by
    simp only [List.mapM_nil, List.map_eq_nil_iff]
    constructor
    · rintro ⟨⟩
      exact ⟨[], rfl, nofun, rfl⟩
    · rintro ⟨pairs, rfl, _, rfl⟩
      rfl
  | item :: items, results => by
    simp only [List.mapM_cons, bind_eq_ok_iff, attempt_eq_ok_iff, mapM_attempt_eq_ok]
    constructor
    · rintro ⟨_, ⟨b, hitem, rfl⟩, _, ⟨pairs, rfl, hpairs, rfl⟩, ⟨⟩⟩
      exact ⟨(item, b) :: pairs, rfl, List.forall_mem_cons.2 ⟨hitem, hpairs⟩, rfl⟩
    · rintro ⟨_ | ⟨⟨first, b⟩, pairs⟩, hmap, hpairs, rfl⟩
      · cases hmap
      · obtain ⟨rfl, rfl⟩ := List.cons.inj hmap
        obtain ⟨hitem, hpairs⟩ := List.forall_mem_cons.1 hpairs
        exact ⟨_, ⟨b, hitem, rfl⟩, _, ⟨pairs, rfl, hpairs, rfl⟩, rfl⟩

/-- **Failure**: the error is that of the first item for which the attempt fails. -/
theorem mapM_attempt_eq_error : ∀ {items : List α} {d : δ},
    items.mapM (attempt f result blame) = .error d ↔
      ∃ item error, FirstFailure f items item error ∧ blame item error = d
  | [], d => by
    simp only [List.mapM_nil, not_firstFailure_nil, false_and, exists_false, iff_false]
    nofun
  | item :: items, d => by
    simp only [List.mapM_cons, bind_eq_error_iff, attempt_eq_error_iff, attempt_eq_ok_iff, mapM_attempt_eq_error,
      firstFailure_cons]
    constructor
    · rintro (⟨error, hitem, rfl⟩ | ⟨_, ⟨b, hitem, rfl⟩, ⟨later, error, hlater, rfl⟩ | ⟨_, _, ⟨⟩⟩⟩)
      · exact ⟨item, error, .inl ⟨rfl, hitem⟩, rfl⟩
      · exact ⟨later, error, .inr ⟨⟨b, hitem⟩, hlater⟩, rfl⟩
    · rintro ⟨_, error, ⟨rfl, hitem⟩ | ⟨⟨b, hitem⟩, hlater⟩, rfl⟩
      · exact .inl ⟨error, hitem, rfl⟩
      · exact .inr ⟨_, ⟨b, hitem, rfl⟩, .inl ⟨_, error, hlater, rfl⟩⟩

theorem exists_mapM_attempt_iff {items : List α} :
    (∃ results, items.mapM (attempt f result blame) = .ok results) ↔ ∀ item ∈ items, ∃ b, f item = .ok b := by
  constructor
  · rintro ⟨results, h⟩
    obtain ⟨pairs, rfl, hpairs, _⟩ := mapM_attempt_eq_ok.1 h
    exact List.forall_mem_map.2 fun pair hpair => ⟨pair.2, hpairs pair hpair⟩
  · intro h
    cases hresults : items.mapM (attempt f result blame) with
    | ok results => exact ⟨results, rfl⟩
    | error d =>
      obtain ⟨item, error, ⟨before, after, rfl, _, hitem⟩, _⟩ := mapM_attempt_eq_error.1 hresults
      obtain ⟨b, hb⟩ := h item (by simp)
      rw [hitem] at hb
      cases hb

end Attempts

/-! ## Two attempts -/

section Alike

variable {α β γ δ ε : Type} {related : α → β → Prop} {also : γ → δ → Prop} {x : Except ε α} {y : Except ε β}

/-- Both attempts succeed, with related results, or both fail with the same error. -/
inductive Alike (related : α → β → Prop) : Except ε α → Except ε β → Prop where
  | ok {a : α} {b : β} (h : related a b) : Alike related (.ok a) (.ok b)
  | error (e : ε) : Alike related (.error e) (.error e)

theorem alike_iff : Alike related x y ↔
    (∃ a b, x = .ok a ∧ y = .ok b ∧ related a b) ∨ ∃ e, x = .error e ∧ y = .error e := by
  constructor
  · rintro (⟨h⟩ | ⟨e⟩)
    · exact .inl ⟨_, _, rfl, rfl, h⟩
    · exact .inr ⟨e, rfl, rfl⟩
  · rintro (⟨a, b, rfl, rfl, h⟩ | ⟨e, rfl, rfl⟩)
    · exact .ok h
    · exact .error e

theorem Alike.bind {f : α → Except ε γ} {g : β → Except ε δ} (h : Alike related x y)
    (hnext : ∀ a b, related a b → Alike also (f a) (g b)) : Alike also (x >>= f) (y >>= g) := by
  cases h with
  | ok h => exact hnext _ _ h
  | error e => exact .error e

/-- What starts with the same attempt goes on alike when it does so from every result. -/
theorem Alike.bind_self {f : α → Except ε γ} {g : α → Except ε δ} (x : Except ε α)
    (hnext : ∀ a, Alike also (f a) (g a)) : Alike also (x >>= f) (x >>= g) := by
  cases x with
  | error e => exact .error e
  | ok a => exact hnext a

theorem Alike.map {f : α → γ} {g : β → δ} (h : Alike related x y) (hmap : ∀ a b, related a b → also (f a) (g b)) :
    Alike also (x.map f) (y.map g) := by
  cases h with
  | ok h => exact .ok (hmap _ _ h)
  | error e => exact .error e

theorem Alike.ite {x' : Except ε α} {y' : Except ε β} {p : Prop} [Decidable p] (hpos : p → Alike related x y)
    (hneg : ¬p → Alike related x' y') : Alike related (if p then x else x') (if p then y else y') := by
  by_cases h : p
  · rw [if_pos h, if_pos h]
    exact hpos h
  · rw [if_neg h, if_neg h]
    exact hneg h

end Alike

end QueryOutline
