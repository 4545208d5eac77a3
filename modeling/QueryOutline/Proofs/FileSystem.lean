import Mathlib.Data.List.Basic
import Mathlib.Logic.Relation
import QueryOutline.FileSystem
import QueryOutline.Proofs.Attempts
import QueryOutline.Proofs.Keyed

/-!
# Listings in another order

A directory lists its entries in no particular order. What a path denotes does not depend on that order, except that
the directories below it are listed differently, too.

* **One listing** (`Entry.Relists`): some directory of the tree has its entries in another order. What is found below a
  directory is the same or has another listing inside (`Entry.Relists.at?`).
* **All listings** (`Entry.Relisted`): any number of directories, one after the other.
* **Paths** (`FileSystem.Relisted`): they lead to the same locations (`FileSystem.Relisted.locate`) and denote the same
  (`FileSystem.Relisted.find`).
-/

namespace QueryOutline

open Relation

/-! ## One listing -/

namespace Entry

/-- One directory of the tree lists its entries, whose names all differ, in another order. -/
inductive Relists : Entry → Entry → Prop where
  | here {entries others : List (String × Entry)} (hnames : (entries.map Prod.fst).Nodup)
      (hperm : entries.Perm others) : Relists (.directory entries) (.directory others)
  | inside {inner other : Entry} (before : List (String × Entry)) (name : String) (after : List (String × Entry))
      (h : Relists inner other) :
      Relists (.directory (before ++ (name, inner) :: after)) (.directory (before ++ (name, other) :: after))

variable {entry relisted found : Entry} {entries others : List (String × Entry)} {name : String} {names : List String}

theorem Relists.symm (h : Relists entry relisted) : Relists relisted entry := by
  induction h with
  | here hnames hperm => exact .here ((hperm.map Prod.fst).nodup_iff.1 hnames) hperm.symm
  | inside before name after _ ih => exact .inside before name after ih

instance : Std.Symm Relists where
  symm _ _ := Relists.symm

theorem Relists.exists_directory (h : Relists (.directory entries) relisted) :
    ∃ others, relisted = .directory others := by
  cases h with
  | here hnames hperm => exact ⟨_, rfl⟩
  | inside before name after h => exact ⟨_, rfl⟩

/-- Each entry of a directory is listed in both, the same or with another listing inside. -/
theorem Relists.mem (h : Relists (.directory entries) (.directory others)) (hmem : (name, found) ∈ entries) :
    ∃ other, (name, other) ∈ others ∧ ReflGen Relists found other := by
  cases h with
  | here hnames hperm => exact ⟨found, hperm.mem_iff.1 hmem, .refl⟩
  | @inside inner other before n after h =>
    rcases List.mem_append.1 hmem with hmem | hmem
    · exact ⟨found, List.mem_append_left _ hmem, .refl⟩
    rcases List.mem_cons.1 hmem with heq | hmem
    · obtain ⟨rfl, rfl⟩ := Prod.mk.inj heq
      exact ⟨other, List.mem_append_right _ List.mem_cons_self, .single h⟩
    · exact ⟨found, List.mem_append_right _ (List.mem_cons_of_mem _ hmem), .refl⟩

/-- What is found under a name is the same or has another listing inside. -/
theorem Relists.lookup (h : Relists (.directory entries) (.directory others))
    (hfound : entries.lookup name = some found) :
    ∃ other, others.lookup name = some other ∧ ReflGen Relists found other := by
  cases h with
  | here hnames hperm =>
    have hothers : (others.map Prod.fst).Nodup := (hperm.map Prod.fst).nodup_iff.1 hnames
    have hmem : (name, found) ∈ others := hperm.mem_iff.1 ((Keyed.lookup_eq_some_iff hnames).1 hfound)
    exact ⟨found, (Keyed.lookup_eq_some_iff hothers).2 hmem, .refl⟩
  | @inside inner other before n after h =>
    rw [List.lookup_append, Keyed.lookup_cons_eq] at hfound ⊢
    cases hbefore : before.lookup name with
    | some first =>
      rw [hbefore, Option.some_or] at hfound
      exact ⟨found, by rw [Option.some_or, hfound], .refl⟩
    | none =>
      rw [hbefore, Option.none_or] at hfound
      rw [Option.none_or]
      by_cases hname : name = n
      · rw [if_pos hname] at hfound ⊢
        exact ⟨other, rfl, Option.some.inj hfound ▸ .single h⟩
      · rw [if_neg hname] at hfound ⊢
        exact ⟨found, hfound, .refl⟩

theorem at?_nil (entry : Entry) : entry.at? [] = some entry := by
  cases entry <;> rfl

theorem at?_cons : (directory entries).at? (name :: names) = some found ↔
    ∃ inner, entries.lookup name = some inner ∧ inner.at? names = some found := by
  rw [Entry.at?, Option.bind_eq_some_iff]

/-- What is found below is the same or has another listing inside. -/
theorem Relists.at? : ∀ {names : List String} {entry relisted : Entry}, Relists entry relisted →
    entry.at? names = some found → ∃ other, relisted.at? names = some other ∧ ReflGen Relists found other
  | [], entry, relisted, h, hfound => by
    rw [at?_nil, Option.some.injEq] at hfound
    exact ⟨relisted, at?_nil _, hfound ▸ .single h⟩
  | name :: names, .file bytes, relisted, h, hfound => by
    cases h
  | name :: names, .directory entries, relisted, h, hfound => by
    obtain ⟨others, rfl⟩ := h.exists_directory
    obtain ⟨inner, hinner, hfound⟩ := at?_cons.1 hfound
    obtain ⟨other, hother, hrelists⟩ := h.lookup hinner
    cases hrelists with
    | refl => exact ⟨found, at?_cons.2 ⟨inner, hother, hfound⟩, .refl⟩
    | single hrelists =>
      obtain ⟨below, hbelow, hrelists⟩ := Relists.at? hrelists hfound
      exact ⟨below, at?_cons.2 ⟨other, hother, hbelow⟩, hrelists⟩

/-! ## All listings -/

/-- Directories of the tree list their entries in another order. -/
def Relisted : Entry → Entry → Prop := ReflTransGen Relists

theorem Relisted.symm (h : Relisted entry relisted) : Relisted relisted entry :=
  ReflTransGen.stdSymm.symm _ _ h

theorem Relisted.at? (h : Relisted entry relisted) (hfound : entry.at? names = some found) :
    ∃ other, relisted.at? names = some other ∧ Relisted found other := by
  induction h with
  | refl => exact ⟨found, hfound, .refl⟩
  | tail _ hstep ih =>
    obtain ⟨middle, hmiddle, hbefore⟩ := ih
    obtain ⟨other, hother, hafter⟩ := hstep.at? hmiddle
    exact ⟨other, hother, hbefore.trans hafter.to_reflTransGen⟩

/-- A file has no listing. -/
theorem Relisted.eq_of_file {bytes : ByteArray} (h : Relisted (.file bytes) relisted) : relisted = .file bytes := by
  induction h with
  | refl => rfl
  | tail _ hstep ih =>
    subst ih
    cases hstep

theorem Relisted.exists_directory (h : Relisted (.directory entries) relisted) :
    ∃ others, relisted = .directory others := by
  induction h with
  | refl => exact ⟨entries, rfl⟩
  | tail _ hstep ih =>
    obtain ⟨middle, rfl⟩ := ih
    exact hstep.exists_directory

/-- Each entry of a directory is listed in both. -/
theorem Relisted.mem (h : Relisted (.directory entries) (.directory others)) (hmem : (name, found) ∈ entries) :
    ∃ other, (name, other) ∈ others ∧ Relisted found other := by
  generalize hrelisted : Entry.directory others = relisted at h
  induction h generalizing others with
  | refl =>
    obtain rfl := Entry.directory.inj hrelisted
    exact ⟨found, hmem, .refl⟩
  | tail hsteps hstep ih =>
    subst hrelisted
    obtain ⟨middle, rfl⟩ := Relisted.exists_directory hsteps
    obtain ⟨between, hbetween, hbefore⟩ := ih rfl
    obtain ⟨other, hother, hafter⟩ := hstep.mem hbetween
    exact ⟨other, hother, hbefore.trans hafter.to_reflTransGen⟩

end Entry

/-! ## Paths -/

namespace FileSystem

/-- The directories list their entries in another order. -/
structure Relisted (files relisted : FileSystem) : Prop where
  root : files.root.Relisted relisted.root
  workingDirectory : files.workingDirectory = relisted.workingDirectory

variable {files relisted : FileSystem} {location next : List String} {piece : String} {path : FilePath} {entry : Entry}

theorem Relisted.symm (h : files.Relisted relisted) : relisted.Relisted files :=
  ⟨h.root.symm, h.workingDirectory.symm⟩

/-- A piece of a path leads on from a directory only: nowhere, up, or to one of the entries. -/
theorem step_eq_ok_iff : files.step location piece = .ok next ↔
    ∃ entries, files.root.at? location = some (.directory entries) ∧
      (if FilePath.isVoid piece then next = location
      else if piece = ".." then next = location.dropLast
      else (∃ entry, entries.lookup piece = some entry) ∧ next = location ++ [piece]) := by
  unfold step
  split
  · rename_i entries hat
    simp only [hat, Option.some.injEq, Entry.directory.injEq, exists_eq_left']
    split_ifs with hvoid hup hfound
    · simp [eq_comm]
    · simp [eq_comm]
    · simp [Option.isSome_iff_exists.1 hfound, eq_comm]
    · simp [← Option.isSome_iff_exists, hfound]
  · rename_i hat
    simp [hat]
  · rename_i hat
    simp [hat]

theorem Relisted.step (h : files.Relisted relisted) (hstep : files.step location piece = .ok next) :
    relisted.step location piece = .ok next := by
  obtain ⟨entries, hat, hnext⟩ := step_eq_ok_iff.1 hstep
  obtain ⟨other, hother, hrelisted⟩ := h.root.at? hat
  obtain ⟨others, rfl⟩ := hrelisted.exists_directory
  refine step_eq_ok_iff.2 ⟨others, hother, ?_⟩
  split_ifs at hnext ⊢ with hvoid hup
  · exact hnext
  · exact hnext
  · obtain ⟨⟨entry, hlookup⟩, hnext⟩ := hnext
    have hentry : (Entry.directory entries).at? [piece] = some entry :=
      Entry.at?_cons.2 ⟨entry, hlookup, Entry.at?_nil _⟩
    obtain ⟨found, hfound, _⟩ := hrelisted.at? hentry
    obtain ⟨inner, hinner, _⟩ := Entry.at?_cons.1 hfound
    exact ⟨⟨inner, hinner⟩, hnext⟩

/-- A path leads to the same location. -/
theorem Relisted.locate (h : files.Relisted relisted) (hlocate : files.locate path = .ok location) :
    relisted.locate path = .ok location := by
  have hpieces : ∀ (pieces : List String) (start : List String), pieces.foldlM files.step start = .ok location →
      pieces.foldlM relisted.step start = .ok location := by
    intro pieces
    induction pieces with
    | nil => exact fun start hstart => hstart
    | cons piece pieces ih =>
      intro start hstart
      rw [List.foldlM_cons, bind_eq_ok_iff] at hstart ⊢
      obtain ⟨next, hnext, hrest⟩ := hstart
      exact ⟨next, h.step hnext, ih next hrest⟩
  unfold FileSystem.locate at hlocate ⊢
  split at hlocate
  · cases hlocate
  · rename_i hempty
    rw [if_neg hempty, ← h.workingDirectory]
    exact hpieces _ _ hlocate

theorem find_eq_ok_iff : files.find path = .ok entry ↔
    ∃ location, files.locate path = .ok location ∧ files.root.at? location = some entry := by
  unfold find
  rw [bind_eq_ok_iff]
  refine exists_congr fun location => and_congr_right fun _ => ?_
  cases files.root.at? location <;> simp [pure, Except.pure, throw, throwThe, MonadExceptOf.throw]

/-- A path denotes the same, up to the order of listings. -/
theorem Relisted.find (h : files.Relisted relisted) (hfind : files.find path = .ok entry) :
    ∃ other, relisted.find path = .ok other ∧ entry.Relisted other := by
  obtain ⟨location, hlocate, hat⟩ := find_eq_ok_iff.1 hfind
  obtain ⟨other, hother, hrelisted⟩ := h.root.at? hat
  exact ⟨other, find_eq_ok_iff.2 ⟨location, h.locate hlocate, hother⟩, hrelisted⟩

end FileSystem

end QueryOutline
