import Mathlib.Data.List.Basic
import Mathlib.Data.List.Induction
import QueryOutline.Keyed

/-!
# Lists in key order and sets of names

* **Order**: inserting keeps a list of names increasing (`Names.insert_increasing`), so a set of names is increasing
  (`Names.ofList_increasing`), and so are the keys of a keyed list (`Keyed.keys_ofList`).
* **Contents**: a set of names has the given names as members (`Names.mem_ofList`), and a keyed list has under each key
  the last value given for it (`Keyed.lookup_ofList`). A list that is in key order stays as it is
  (`Keyed.ofList_of_increasing`).
* **First occurrences**: `Names.dedup` keeps each name where it occurs first (`Names.dedup_firstOccurrences`), and does
  not mind if parts of the list were treated before (`Names.dedup_flatMap`).
-/

namespace QueryOutline

/-! ## Sets of names -/

namespace Names

/-- In increasing order, by code points, and each name once. -/
def Increasing (names : List String) : Prop := names.Pairwise (· < ·)

theorem Increasing.nodup {names : List String} (h : Increasing names) : names.Nodup := h.imp String.ne_of_lt

theorem mem_insert {x name : String} : ∀ {names : List String}, x ∈ insert name names ↔ x = name ∨ x ∈ names
  | [] => by simp [insert]
  | n :: rest => by
    have ih := @mem_insert x name rest
    unfold insert
    split
    · simp
    · split
      · rename_i h; simp [h]
      · simp only [List.mem_cons, ih]; tauto

/-- Of two names neither of which precedes the other, both are the same. -/
theorem lt_of_not_lt_of_ne {a b : String} (h : ¬a < b) (hne : a ≠ b) : b < a := by
  rcases String.le_total a b with hab | hba
  · exact absurd (String.le_antisymm hab (String.not_lt.1 h)) hne
  · exact String.not_le.1 fun hab => hne (String.le_antisymm hab hba)

theorem insert_increasing (name : String) : ∀ {names : List String}, Increasing names → Increasing (insert name names)
  | [], _ => by simp [insert, Increasing]
  | n :: rest, h => by
    obtain ⟨hn, hrest⟩ := List.pairwise_cons.1 h
    unfold insert
    split
    · rename_i hlt
      refine List.pairwise_cons.2 ⟨fun m hm => ?_, h⟩
      rcases List.mem_cons.1 hm with rfl | hm
      · exact hlt
      · exact String.lt_trans hlt (hn m hm)
    · split
      · exact h
      · rename_i hge hne
        refine List.pairwise_cons.2 ⟨fun m hm => ?_, insert_increasing name hrest⟩
        rcases mem_insert.1 hm with rfl | hm
        · exact lt_of_not_lt_of_ne hge hne
        · exact hn m hm

theorem mem_ofList {x : String} {names : List String} : x ∈ ofList names ↔ x ∈ names := by
  induction names using List.reverseRecOn with
  | nil => simp [ofList]
  | append_singleton names name ih =>
    have h : ofList (names ++ [name]) = insert name (ofList names) := by simp [ofList]
    rw [h, mem_insert, ih, List.mem_append, List.mem_singleton, or_comm]

theorem ofList_increasing (names : List String) : Increasing (ofList names) := by
  induction names using List.reverseRecOn with
  | nil => exact List.Pairwise.nil
  | append_singleton names name ih =>
    have h : ofList (names ++ [name]) = insert name (ofList names) := by simp [ofList]
    rw [h]
    exact insert_increasing name ih

end Names

/-! ## Lists in key order -/

namespace Keyed

variable {α : Type}

theorem keys_put (key : String) (value : α) :
    ∀ entries : List (String × α), (put key value entries).map Prod.fst = Names.insert key (entries.map Prod.fst)
  | [] => rfl
  | (k, v) :: rest => by
    unfold put
    simp only [List.map_cons, Names.insert]
    split
    · rfl
    · split
      · rename_i h; simp [h]
      · simp only [List.map_cons, keys_put key value rest]

theorem ofList_concat (pairs : List (String × α)) (pair : String × α) :
    ofList (pairs ++ [pair]) = put pair.1 pair.2 (ofList pairs) := by
  simp [ofList]

/-- The keys of a keyed list are the given keys, each once, in increasing order. -/
theorem keys_ofList (pairs : List (String × α)) : (ofList pairs).map Prod.fst = Names.ofList (pairs.map Prod.fst) := by
  induction pairs using List.reverseRecOn with
  | nil => rfl
  | append_singleton pairs pair ih =>
    rw [ofList_concat, keys_put, ih]
    simp [Names.ofList]

theorem lookup_cons_eq (k l : String) (v : α) (rest : List (String × α)) :
    ((l, v) :: rest).lookup k = if k = l then some v else rest.lookup k := by
  by_cases h : k = l
  · subst h; simp
  · rw [List.lookup_cons, beq_false_of_ne h, if_neg h]

theorem lookup_put (k key : String) (value : α) :
    ∀ entries : List (String × α), (put key value entries).lookup k = if k = key then some value else entries.lookup k
  | [] => by rw [put, lookup_cons_eq]
  | (l, v) :: rest => by
    unfold put
    split
    · rw [lookup_cons_eq]
    · split
      · rename_i h; subst h; simp only [lookup_cons_eq]; split <;> rfl
      · rename_i h; simp only [lookup_cons_eq, lookup_put k key value rest]
        -- the two keys differ, so the order of the two tests does not matter
        split
        · rename_i hl; rw [if_neg (fun hk => h (hk.symm.trans hl))]
        · rfl

/-- Under each key stands the last value given for it. -/
theorem lookup_ofList (k : String) (pairs : List (String × α)) : (ofList pairs).lookup k = pairs.reverse.lookup k := by
  induction pairs using List.reverseRecOn with
  | nil => rfl
  | append_singleton pairs pair ih =>
    rw [ofList_concat, lookup_put, ih, List.reverse_append, List.reverse_singleton, List.singleton_append,
      lookup_cons_eq]

/-- The pairs of a keyed list are among the given ones. -/
theorem mem_of_mem_ofList {pairs : List (String × α)} {pair : String × α} (h : pair ∈ ofList pairs) : pair ∈ pairs := by
  have hput : ∀ {key : String} {value : α} {entries : List (String × α)},
      pair ∈ put key value entries → pair = (key, value) ∨ pair ∈ entries := by
    intro key value entries hmem
    induction entries with
    | nil => exact .inl (List.mem_singleton.1 hmem)
    | cons entry rest ih =>
      unfold put at hmem
      split at hmem
      · exact List.mem_cons.1 hmem
      · split at hmem
        · exact (List.mem_cons.1 hmem).imp_right (List.mem_cons_of_mem _)
        · rcases List.mem_cons.1 hmem with rfl | hmem
          · exact .inr List.mem_cons_self
          · exact (ih hmem).imp_right (List.mem_cons_of_mem _)
  induction pairs using List.reverseRecOn with
  | nil => cases h
  | append_singleton pairs last ih =>
    rw [ofList_concat] at h
    rcases hput h with rfl | h
    · exact List.mem_append_right _ List.mem_cons_self
    · exact List.mem_append_left _ (ih h)

/-- A greater key goes to the end. -/
theorem put_of_lt {key : String} {value : α} : ∀ {entries : List (String × α)}, (∀ entry ∈ entries, entry.1 < key) →
    put key value entries = entries ++ [(key, value)]
  | [], _ => rfl
  | entry :: rest, h => by
    obtain ⟨hlt, hrest⟩ := List.forall_mem_cons.1 h
    rw [put, if_neg (String.lt_asymm hlt), if_neg (String.ne_of_lt hlt).symm, put_of_lt hrest, List.cons_append]

/-- A list that is in key order stays as it is. -/
theorem ofList_of_increasing {pairs : List (String × α)} (h : Names.Increasing (pairs.map Prod.fst)) :
    ofList pairs = pairs := by
  induction pairs using List.reverseRecOn with
  | nil => rfl
  | append_singleton pairs last ih =>
    rw [List.map_append] at h
    obtain ⟨hpairs, _, hlast⟩ := List.pairwise_append.1 h
    have hlt : ∀ entry ∈ pairs, entry.1 < last.1 := fun entry hentry =>
      hlast _ (List.mem_map_of_mem hentry) _ List.mem_cons_self
    rw [ofList_concat, ih hpairs, put_of_lt hlt]

/-- A value is found exactly under the keys. -/
theorem isSome_lookup_iff {k : String} {entries : List (String × α)} :
    (entries.lookup k).isSome = true ↔ k ∈ entries.map Prod.fst := by
  rw [List.lookup_isSome_iff, List.mem_map]
  exact exists_congr fun entry => and_congr_right fun _ => beq_iff_eq.trans eq_comm

/-- When no key occurs twice, each value is found under its key. -/
theorem lookup_eq_some_iff {key : String} {value : α} : ∀ {entries : List (String × α)},
    (entries.map Prod.fst).Nodup → (entries.lookup key = some value ↔ (key, value) ∈ entries)
  | [], _ => by simp
  | (k, v) :: rest, h => by
    obtain ⟨hnotin, hnodup⟩ := List.nodup_cons.1 h
    rw [lookup_cons_eq, List.mem_cons, Prod.mk.injEq]
    by_cases hkey : key = k
    · subst hkey
      have hrest : (key, value) ∉ rest := fun hmem => hnotin (List.mem_map.2 ⟨_, hmem, rfl⟩)
      simp [hrest, eq_comm]
    · simp [hkey, lookup_eq_some_iff hnodup]

/-- The keys stay when every value is replaced by one computed from it. -/
theorem lookup_map_values {β : Type} (f : α → β) (k : String) :
    ∀ entries : List (String × α), (entries.map fun (key, value) => (key, f value)).lookup k = (entries.lookup k).map f
  | [] => rfl
  | (key, value) :: rest => by
    simp only [List.map_cons, List.lookup_cons, lookup_map_values f k rest]
    split <;> rfl

theorem put_map_values {β : Type} (f : α → β) (key : String) (value : α) : ∀ entries : List (String × α),
    put key (f value) (entries.map fun (k, v) => (k, f v)) = (put key value entries).map fun (k, v) => (k, f v)
  | [] => rfl
  | (k, v) :: rest => by
    simp only [List.map_cons, put, put_map_values f key value rest]
    split
    · rfl
    · split <;> rfl

/-- Replacing the values before or after is the same. -/
theorem ofList_map_values {β : Type} (f : α → β) (pairs : List (String × α)) :
    ofList (pairs.map fun (k, v) => (k, f v)) = (ofList pairs).map fun (k, v) => (k, f v) := by
  induction pairs using List.reverseRecOn with
  | nil => rfl
  | append_singleton pairs pair ih =>
    rw [ofList_concat, ← put_map_values, ← ih, List.map_append]
    exact ofList_concat _ _

end Keyed

/-! ## First occurrences -/

namespace Names

/-- The names of a list, each once, in the order in which they first occur there. -/
structure FirstOccurrences (names all : List String) : Prop where
  mem_iff : ∀ name, name ∈ names ↔ name ∈ all
  nodup : names.Nodup
  ordered : names.Pairwise fun a b => all.idxOf a < all.idxOf b

/-- The seen names after one more. -/
def see (seen : List String) (name : String) : List String := if name ∈ seen then seen else seen ++ [name]

theorem dedup_eq_foldl (names : List String) : dedup names = names.foldl see [] := rfl

theorem dedup_concat (names : List String) (name : String) : dedup (names ++ [name]) = see (dedup names) name := by
  simp [dedup_eq_foldl]

theorem mem_see {x name : String} {seen : List String} : x ∈ see seen name ↔ x ∈ seen ∨ x = name := by
  unfold see
  split
  · rename_i h
    exact ⟨Or.inl, fun hx => hx.elim id fun hx => hx ▸ h⟩
  · rw [List.mem_append, List.mem_singleton]

theorem mem_foldl_see {x : String} : ∀ {names seen : List String}, x ∈ names.foldl see seen ↔ x ∈ seen ∨ x ∈ names
  | [], seen => by simp
  | name :: names, seen => by rw [List.foldl_cons, mem_foldl_see, mem_see, List.mem_cons, or_assoc]

theorem mem_dedup {x : String} {names : List String} : x ∈ dedup names ↔ x ∈ names := by
  simp [dedup_eq_foldl, mem_foldl_see]

theorem dedup_firstOccurrences (names : List String) : FirstOccurrences (dedup names) names := by
  induction names using List.reverseRecOn with
  | nil => exact ⟨fun _ => Iff.rfl, List.Pairwise.nil, List.Pairwise.nil⟩
  | append_singleton names name ih =>
    -- the names seen so far keep their places
    have hold : ∀ a ∈ dedup names, (names ++ [name]).idxOf a = names.idxOf a := fun a ha =>
      List.idxOf_append_of_mem (mem_dedup.1 ha)
    have hordered : (dedup names).Pairwise fun a b => (names ++ [name]).idxOf a < (names ++ [name]).idxOf b :=
      ih.ordered.imp_of_mem fun ha hb hab => by rw [hold _ ha, hold _ hb]; exact hab
    refine ⟨fun x => mem_dedup, ?_, ?_⟩ <;> rw [dedup_concat, see] <;> split
    · exact ih.nodup
    · rename_i h
      exact List.nodup_append.2 ⟨ih.nodup, List.pairwise_singleton _ _, fun a ha b hb hab => h (by simp_all)⟩
    · exact hordered
    · rename_i h
      refine List.pairwise_append.2 ⟨hordered, List.pairwise_singleton _ _, fun a ha b hb => ?_⟩
      rw [List.mem_singleton.1 hb, hold a ha, List.idxOf_append_of_notMem (fun hm => h (mem_dedup.2 hm))]
      have := List.idxOf_lt_length_of_mem (mem_dedup.1 ha)
      omega

/-- Names that were treated before are seen as the untreated ones are. -/
theorem foldl_see_dedup (names seen : List String) : (dedup names).foldl see seen = names.foldl see seen := by
  induction names using List.reverseRecOn with
  | nil => rfl
  | append_singleton names name ih =>
    rw [dedup_concat, List.foldl_append, ← ih, see]
    split
    · rename_i h
      have hseen : name ∈ (dedup names).foldl see seen := mem_foldl_see.2 (Or.inr h)
      rw [List.foldl_cons, List.foldl_nil, see, if_pos hseen]
    · rw [List.foldl_append]

/-- Treating the parts of a list first does not matter. -/
theorem dedup_flatMap {α : Type} (parts : List α) (names : α → List String) :
    dedup (parts.flatMap fun part => dedup (names part)) = dedup (parts.flatMap names) := by
  simp only [dedup_eq_foldl, List.foldl_flatMap]
  simp only [← dedup_eq_foldl, foldl_see_dedup]

end Names

end QueryOutline
