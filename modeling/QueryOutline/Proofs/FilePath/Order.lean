import Mathlib.Data.List.Lex
import Mathlib.Data.List.Sort
import QueryOutline.FilePath
import QueryOutline.Proofs.Keyed

/-!
# The order of paths

Paths are ordered by their components, as words are by their letters; two paths with the same components are alike.

* **Components** (`Component.Before`): a strict order in which any two different components are comparable.
* **Paths** (`FilePath.before_iff`): the order of words over it.
* **Sorting** (`FilePath.sorted_pairwise`, `FilePath.mem_of_mem_sorted`, `FilePath.exists_mem_sorted`): a sorted list is
  strictly increasing, has only paths that were given, and one alike for each of them.
-/

namespace QueryOutline.FilePath

/-! ## Components -/

/-- One component comes before another. -/
def Component.Before (a b : Component) : Prop := a.before b = true

instance : Std.Asymm Component.Before where
  asymm a b h h' := by
    cases a <;> cases b <;>
      simp only [Component.Before, Component.before, Bool.false_eq_true, decide_eq_true_eq] at h h'
    exact String.lt_asymm h h'

instance : Std.Trichotomous Component.Before where
  trichotomous a b h h' := by
    cases a <;> cases b <;>
      simp only [Component.Before, Component.before, decide_eq_true_eq, Bool.false_eq_true, not_true,
        not_false_iff] at h h' ⊢
    rename_i a b
    by_cases hab : a = b
    · rw [hab]
    · exact absurd (Names.lt_of_not_lt_of_ne h hab) h'

theorem Component.Before.trans {a b c : Component} (h : a.Before b) (h' : b.Before c) : a.Before c := by
  cases a <;> cases b <;> cases c <;>
    simp only [Component.Before, Component.before, Bool.false_eq_true, decide_eq_true_eq] at h h' ⊢
  exact String.lt_trans h h'

/-! ## Paths -/

/-- The order of paths compares the first components that differ. -/
theorem componentsBefore_iff : ∀ {as bs : List Component},
    componentsBefore as bs = true ↔ List.Lex Component.Before as bs
  | [], [] => by simp [componentsBefore]
  | [], _ :: _ => by simp [componentsBefore]
  | _ :: _, [] => by simp [componentsBefore]
  | a :: as, b :: bs => by
    rw [componentsBefore, List.cons_lex_cons_iff, ← componentsBefore_iff]
    simp [Component.Before]

theorem before_iff {a b : FilePath} : a.before b = true ↔ List.Lex Component.Before a.components b.components :=
  componentsBefore_iff

theorem alike_iff_components {a b : FilePath} : a.alike b = true ↔ a.components = b.components := by
  simp [alike]

theorem before_trans {a b c : FilePath} (h : a.before b = true) (h' : b.before c = true) : a.before c = true := by
  rw [before_iff] at h h' ⊢
  exact List.lex_trans Component.Before.trans h h'

/-- What holds of a path holds of those alike. -/
theorem before_of_alike {a b c : FilePath} (h : a.alike b = true) (h' : b.before c = true) : a.before c = true := by
  rw [before_iff] at h' ⊢
  rw [alike_iff_components.1 h]
  exact h'

/-- A path that neither comes before another nor is alike comes after it. -/
theorem before_of_not {a b : FilePath} (h : ¬a.before b = true) (halike : ¬a.alike b = true) : b.before a = true := by
  rw [before_iff] at h ⊢
  by_contra hafter
  exact halike (alike_iff_components.2 (Std.Trichotomous.trichotomous _ _ h hafter))

theorem components_ne_of_before {a b : FilePath} (h : a.before b = true) : a.components ≠ b.components := by
  intro heq
  rw [before_iff, heq] at h
  exact asymm h h

/-! ## Sorting -/

theorem mem_of_mem_insert {path other : FilePath} : ∀ {paths : List FilePath},
    other ∈ insert path paths → other = path ∨ other ∈ paths
  | [], h => .inl (List.mem_singleton.1 h)
  | p :: rest, h => by
    unfold insert at h
    split at h
    · exact List.mem_cons.1 h
    · split at h
      · exact (List.mem_cons.1 h).imp_right (List.mem_cons_of_mem p)
      · rcases List.mem_cons.1 h with rfl | h
        · exact .inr List.mem_cons_self
        · exact (mem_of_mem_insert h).imp_right (List.mem_cons_of_mem p)

/-- The inserted path stays itself, and each of the others has a path alike. -/
theorem exists_mem_insert {path other : FilePath} : ∀ {paths : List FilePath}, other = path ∨ other ∈ paths →
    ∃ input ∈ insert path paths, input.components = other.components
  | [], h => by
    obtain rfl : other = path := by simpa using h
    exact ⟨other, List.mem_singleton.2 rfl, rfl⟩
  | p :: rest, h => by
    unfold insert
    split
    · exact ⟨other, List.mem_cons.2 h, rfl⟩
    · split
      · rename_i halike
        rcases h with rfl | h
        · exact ⟨other, List.mem_cons_self, rfl⟩
        · rcases List.mem_cons.1 h with rfl | h
          · exact ⟨path, List.mem_cons_self, alike_iff_components.1 halike⟩
          · exact ⟨other, List.mem_cons_of_mem path h, rfl⟩
      · have hcases : other = p ∨ other = path ∨ other ∈ rest := by
          rcases h with rfl | h
          · exact .inr (.inl rfl)
          · exact (List.mem_cons.1 h).imp_right .inr
        rcases hcases with rfl | h
        · exact ⟨other, List.mem_cons_self, rfl⟩
        · obtain ⟨input, hinput, hcomponents⟩ := exists_mem_insert h
          exact ⟨input, List.mem_cons_of_mem p hinput, hcomponents⟩

theorem insert_pairwise (path : FilePath) : ∀ {paths : List FilePath},
    paths.Pairwise (fun a b => a.before b = true) → (insert path paths).Pairwise fun a b => a.before b = true
  | [], _ => List.pairwise_singleton _ _
  | p :: rest, h => by
    obtain ⟨hp, hrest⟩ := List.pairwise_cons.1 h
    unfold insert
    split
    · rename_i hbefore
      refine List.pairwise_cons.2 ⟨fun q hq => ?_, h⟩
      rcases List.mem_cons.1 hq with rfl | hq
      · exact hbefore
      · exact before_trans hbefore (hp q hq)
    · split
      · rename_i halike
        exact List.pairwise_cons.2 ⟨fun q hq => before_of_alike halike (hp q hq), hrest⟩
      · rename_i hnot halike
        refine List.pairwise_cons.2 ⟨fun q hq => ?_, insert_pairwise path hrest⟩
        rcases mem_of_mem_insert hq with rfl | hq
        · exact before_of_not hnot halike
        · exact hp q hq

theorem sorted_cons (path : FilePath) (paths : List FilePath) :
    sorted (path :: paths) = insert path (sorted paths) :=
  rfl

/-- A sorted list is strictly increasing. -/
theorem sorted_pairwise (paths : List FilePath) : (sorted paths).Pairwise fun a b => a.before b = true := by
  induction paths with
  | nil => exact List.Pairwise.nil
  | cons path paths ih => exact insert_pairwise path ih

theorem mem_of_mem_sorted {path : FilePath} {paths : List FilePath} (h : path ∈ sorted paths) : path ∈ paths := by
  induction paths with
  | nil => cases h
  | cons first paths ih =>
    rw [sorted_cons] at h
    rcases mem_of_mem_insert h with rfl | h
    · exact List.mem_cons_self
    · exact List.mem_cons_of_mem first (ih h)

theorem exists_mem_sorted {path : FilePath} {paths : List FilePath} (h : path ∈ paths) :
    ∃ input ∈ sorted paths, input.components = path.components := by
  induction paths with
  | nil => cases h
  | cons first paths ih =>
    rw [sorted_cons]
    rcases List.mem_cons.1 h with rfl | h
    · exact exists_mem_insert (.inl rfl)
    · obtain ⟨input, hinput, hcomponents⟩ := ih h
      obtain ⟨kept, hkept, halike⟩ : ∃ kept ∈ insert first (sorted paths), kept.components = input.components :=
        exists_mem_insert (.inr hinput)
      exact ⟨kept, hkept, halike.trans hcomponents⟩

/-- Increasing lists with the same paths up to spelling are the same list up to spelling. -/
theorem components_eq_of_pairwise {paths others : List FilePath}
    (hpaths : paths.Pairwise fun a b => a.before b = true) (hothers : others.Pairwise fun a b => a.before b = true)
    (h : ∀ components, components ∈ paths.map FilePath.components ↔ components ∈ others.map FilePath.components) :
    paths.map FilePath.components = others.map FilePath.components := by
  have hincreasing : ∀ {paths : List FilePath}, paths.Pairwise (fun a b => a.before b = true) →
      (paths.map FilePath.components).Pairwise (List.Lex Component.Before) := by
    intro paths hpaths
    rw [List.pairwise_map]
    exact hpaths.imp before_iff.1
  exact List.Pairwise.eq_of_mem_iff (hincreasing hpaths) (hincreasing hothers) h

end QueryOutline.FilePath
