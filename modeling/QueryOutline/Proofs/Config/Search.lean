import QueryOutline.Config
import QueryOutline.Proofs.FileSystem.Locations

/-!
# The search for a config file

The search goes up in the text of the start path. That is the way up in the file system unless there is a `..` in it.

* **The search** (`SearchEnds`, `searchEnds_findConfig`): it tries the start and then goes on with its parent; it ends.
* **Directories** (`FileSystem.directoriesUp`, `findConfig_locate`): what it finds is the first one among the start
  directory and those above it, the nearest first, that holds a config file.
* **Start paths with `..`** (`findConfig_directory`): when the directory of the file that is found is the start
  directory or one above it, which it need not be (`neighbours_findConfig_below`).
-/

namespace QueryOutline

open FilePath (namesOf resolve)

variable {files : FileSystem} {path start parent directory found : FilePath}

/-! ## The search -/

/-- How the search from a path ends: with the config file in the directory of that path, or the way the search from the
parent ends, or, at the top, with nothing. -/
inductive SearchEnds (files : FileSystem) : FilePath → Option FilePath → Prop where
  | found {path : FilePath} (hfile : files.isFile (path.child configFileName) = true) :
    SearchEnds files path (some (path.child configFileName))
  | further {path parent : FilePath} {result : Option FilePath}
    (hfile : ¬files.isFile (path.child configFileName) = true) (hparent : path.parent? = some parent)
    (h : SearchEnds files parent result) : SearchEnds files path result
  | top {path : FilePath} (hfile : ¬files.isFile (path.child configFileName) = true) (hparent : path.parent? = none) :
    SearchEnds files path none

theorem findConfig_eq (files : FileSystem) (start : FilePath) :
    findConfig files start = if files.isFile (start.child configFileName) then some (start.child configFileName)
      else start.parent?.bind (findConfig files) := by
  rw [findConfig, FilePath.ancestors_eq, List.map_cons, List.find?_cons]
  cases files.isFile (start.child configFileName) with
  | true => rfl
  | false => cases start.parent? <;> rfl

/-- The search ends. -/
theorem searchEnds_findConfig (files : FileSystem) (start : FilePath) :
    SearchEnds files start (findConfig files start) := by
  induction start using FilePath.induction_parents with
  | h path ih =>
    rw [findConfig_eq]
    split_ifs with hfile
    · exact .found hfile
    · cases hparent : path.parent? with
      | none => exact .top hfile hparent
      | some parent => exact .further hfile hparent (ih parent hparent)

theorem configFileName_entryName : FilePath.EntryName configFileName where
  ne_empty := by decide
  ne_here := by decide
  ne_up := by decide
  noSlash := by decide

/-! ## Directories -/

namespace FileSystem

/-- The directory with that location has a config file in it. -/
def HoldsConfig (files : FileSystem) (directory : List String) : Prop :=
  ∃ bytes, files.root.at? (directory ++ [configFileName]) = some (.file bytes)

instance (files : FileSystem) : DecidablePred files.HoldsConfig := fun directory =>
  match h : files.root.at? (directory ++ [configFileName]) with
  | some (.file bytes) => .isTrue ⟨bytes, h⟩
  | some (.directory _) => .isFalse fun ⟨_, hfile⟩ => by simp [h] at hfile
  | none => .isFalse fun ⟨_, hfile⟩ => by simp [h] at hfile

/-- The first of the directories that holds a config file. -/
def nearest (files : FileSystem) (directories : List (List String)) : Option (List String) :=
  directories.find? fun directory => files.HoldsConfig directory

theorem nearest_cons (files : FileSystem) (directory : List String) (directories : List (List String)) :
    files.nearest (directory :: directories) =
      if files.HoldsConfig directory then some directory else files.nearest directories := by
  rw [nearest, List.find?_cons]
  by_cases h : files.HoldsConfig directory
  · simp [h]
  · simp [h, nearest]

/-- Where a path starts: at the root or in the working directory. -/
def base (files : FileSystem) (path : FilePath) : List String :=
  if path.components.head? = some .root then [] else files.workingDirectory

/-- The directory that a path without `..` denotes and those above it, the nearest first. The last one is the root, or
for a relative path the working directory. -/
def directoriesUp (files : FileSystem) (path : FilePath) : List (List String) :=
  (namesOf path.components).inits.reverse.map (files.base path ++ ·)

end FileSystem

open FileSystem

theorem FilePath.head?_components : path.components.head? = some .root ↔ path.spelling.start = .root := by
  rw [components_spelling]
  cases path.spelling.start with
  | root => exact iff_of_true rfl rfl
  | here => exact iff_of_false nofun nofun
  | silent =>
    refine iff_of_false (fun h => ?_) nofun
    exact root_notMem_named (List.mem_of_head? h)

/-- Without `..`, the components lead from the start of the path down along the names. -/
theorem resolve_eq_base (hup : .up ∉ path.components) :
    resolve files.workingDirectory path.components = files.base path ++ namesOf path.components := by
  have hnames : namesOf path.components = namesOf (FilePath.named path.spelling.pieces) := by
    rw [FilePath.components_spelling]
    cases path.spelling.start <;> rfl
  rw [hnames, base]
  simp only [FilePath.head?_components]
  rw [FilePath.components_spelling] at hup ⊢
  rw [FilePath.resolve_append, resolve_start]
  exact FilePath.resolve_of_down (fun h => hup (List.mem_append_right _ h)) FilePath.root_notMem_named

theorem base_of_parent? (h : path.parent? = some parent) : files.base parent = files.base path := by
  obtain ⟨last, hlast, hcomponents⟩ := FilePath.components_of_parent? h
  unfold base
  rw [hcomponents]
  cases parent.components with
  | nil => simp [hlast]
  | cons first rest => rfl

theorem directoriesUp_eq_cons (files : FileSystem) (path : FilePath) :
    ∃ above, files.directoriesUp path = (files.base path ++ namesOf path.components) :: above := by
  rw [directoriesUp, List.inits_eq_tails, List.reverse_reverse]
  cases hnames : (namesOf path.components).reverse with
  | nil => exact ⟨_, by simp [List.reverse_eq_nil_iff.1 hnames]; rfl⟩
  | cons last before => exact ⟨_, by simp [List.reverse_eq_cons_iff.1 hnames]; rfl⟩

/-- The directories up from the parent are all, or all but the nearest one. -/
theorem directoriesUp_of_parent? (files : FileSystem) (hup : .up ∉ path.components) (h : path.parent? = some parent) :
    files.directoriesUp path = (files.base path ++ namesOf path.components) :: files.directoriesUp parent ∨
      files.directoriesUp path = files.directoriesUp parent := by
  obtain ⟨last, hlast, hcomponents⟩ := FilePath.components_of_parent? h
  unfold directoriesUp
  rw [base_of_parent? h]
  cases last with
  | root => exact absurd rfl hlast
  | up => exact absurd (hcomponents ▸ List.mem_append_right _ (List.mem_singleton.2 rfl)) hup
  | here =>
    have hnames : namesOf path.components = namesOf parent.components := by
      rw [hcomponents, namesOf, List.filterMap_append]
      exact List.append_nil _
    exact .inr (by rw [hnames])
  | name n =>
    have hnames : namesOf path.components = namesOf parent.components ++ [n] := by
      rw [hcomponents, namesOf, List.filterMap_append]
      rfl
    exact .inl (by simp [hnames, List.inits_append])

theorem directoriesUp_top (h : path.parent? = none) :
    files.directoriesUp path = [files.base path ++ namesOf path.components] := by
  have hnames : namesOf path.components = [] := by
    rcases FilePath.components_of_parent?_none h with h | h <;> rw [h] <;> rfl
  rw [directoriesUp, hnames]
  rfl

/-- What the search finds is the config file of the nearest directory that holds one. -/
theorem findConfig_locate (files : FileSystem) (hup : .up ∉ start.components) :
    (findConfig files start).map files.locate =
      (files.nearest (files.directoriesUp start)).map fun directory => .ok (directory ++ [configFileName]) := by
  induction start using FilePath.induction_parents with
  | h path ih =>
    have hholds : files.isFile (path.child configFileName) = true ↔
        files.HoldsConfig (files.base path ++ namesOf path.components) := by
      rw [isFile_iff, ← resolve_eq_base hup]
      exact exists_congr fun _ => find_child_iff configFileName_entryName hup
    rw [findConfig_eq]
    split_ifs with hfile
    · obtain ⟨bytes, hfind⟩ := isFile_iff.1 hfile
      obtain ⟨above, habove⟩ := directoriesUp_eq_cons files path
      rw [habove, nearest_cons, if_pos (hholds.1 hfile), Option.map_some, Option.map_some,
        (locate_child configFileName_entryName hfind).1, resolve_eq_base hup]
    · rw [hholds] at hfile
      cases hparent : path.parent? with
      | none =>
        rw [directoriesUp_top hparent, nearest_cons, if_neg hfile]
        rfl
      | some parent =>
        obtain ⟨last, _, hcomponents⟩ := FilePath.components_of_parent? hparent
        rw [Option.bind_some, ih parent hparent fun h => hup (hcomponents ▸ List.mem_append_left _ h)]
        rcases directoriesUp_of_parent? files hup hparent with heq | heq
        · rw [heq, nearest_cons, if_neg hfile]
        · rw [heq]

/-- A config file is the one of the nearest directory if that directory holds it and none before does. -/
theorem nearest_eq_some {directories : List (List String)} {directory : List String}
    (h : files.nearest directories = some directory) :
    ∃ nearer farther, directories = nearer ++ directory :: farther ∧ files.HoldsConfig directory ∧
      ∀ other ∈ nearer, ¬files.HoldsConfig other := by
  obtain ⟨hholds, nearer, farther, heq, hnearer⟩ := List.find?_eq_some_iff_append.1 h
  refine ⟨nearer, farther, heq, of_decide_eq_true hholds, fun other hother => ?_⟩
  simpa using hnearer other hother

theorem isSome_nearest {directories : List (List String)} :
    (files.nearest directories).isSome = true ↔ ∃ directory ∈ directories, files.HoldsConfig directory := by
  rw [nearest, List.find?_isSome]
  simp

/-- **The nearest config file.** The search ends. Without `..` in the start path it finds something exactly when the
start directory or one above it holds a config file, and what it finds is that of the nearest one. Its outcome is the
same for all spellings of the start path: the paths that are found lead to the same file. -/
theorem findConfig_nearest (files : FileSystem) (hup : .up ∉ start.components) :
    SearchEnds files start (findConfig files start) ∧
    ((findConfig files start).isSome = true ↔ ∃ directory ∈ files.directoriesUp start, files.HoldsConfig directory) ∧
    (∀ found, findConfig files start = some found → ∃ nearer directory farther,
      files.directoriesUp start = nearer ++ directory :: farther ∧
      files.locate found = .ok (directory ++ [configFileName]) ∧ files.HoldsConfig directory ∧
      ∀ other ∈ nearer, ¬files.HoldsConfig other) ∧
    ∀ other : FilePath, .up ∉ other.components → files.base other = files.base start →
      namesOf other.components = namesOf start.components →
        (findConfig files other).map files.locate = (findConfig files start).map files.locate := by
  have hlocate := findConfig_locate files hup
  refine ⟨searchEnds_findConfig files start, ?_, fun found hfound => ?_, fun other hother hbase hnames => ?_⟩
  · have hsome := congrArg Option.isSome hlocate
    rw [Option.isSome_map, Option.isSome_map] at hsome
    rw [hsome, isSome_nearest]
  · rw [hfound, Option.map_some, eq_comm, Option.map_eq_some_iff] at hlocate
    obtain ⟨directory, hnearest, hdirectory⟩ := hlocate
    obtain ⟨nearer, farther, heq, hholds, hnearer⟩ := nearest_eq_some hnearest
    exact ⟨nearer, directory, farther, heq, hdirectory.symm, hholds, hnearer⟩
  · rw [hlocate, findConfig_locate files hother, directoriesUp, directoriesUp, hbase, hnames]

/-- The working directory with a config file, a directory of that name in `a`, and nothing in `a/b`. -/
def shadowedConfig : FileSystem :=
  (((FileSystem.ofWorkingDirectory ["work"]).place [configFileName] (.file .empty)).place ["a", configFileName]
    (.directory [])).place ["a", "b"] (.directory [])

/-- The directory in `a` is passed over, and both spellings of the start lead to the same file. -/
theorem shadowedConfig_nearest :
    .up ∉ (FilePath.mk "./a//b/.").components ∧
    findConfig shadowedConfig ⟨"./a//b/."⟩ = some ⟨"./pq-outline.toml"⟩ ∧
    shadowedConfig.directoriesUp ⟨"./a//b/."⟩ = [["work", "a", "b"], ["work", "a"], ["work"]] ∧
    (∃ nearer directory farther, shadowedConfig.directoriesUp ⟨"./a//b/."⟩ = nearer ++ directory :: farther ∧
      shadowedConfig.locate ⟨"./pq-outline.toml"⟩ = .ok (directory ++ [configFileName]) ∧
      shadowedConfig.HoldsConfig directory ∧ ∀ other ∈ nearer, ¬shadowedConfig.HoldsConfig other) ∧
    (findConfig shadowedConfig ⟨"a/b"⟩).map shadowedConfig.locate = some (.ok ["work", configFileName]) := by
  have hup : .up ∉ (FilePath.mk "./a//b/.").components := by decide
  have hfound : findConfig shadowedConfig ⟨"./a//b/."⟩ = some ⟨"./pq-outline.toml"⟩ := by decide +kernel
  have hlocate : shadowedConfig.locate ⟨"./pq-outline.toml"⟩ = .ok ["work", configFileName] := by decide +kernel
  obtain ⟨_, _, hnearest, hsame⟩ := findConfig_nearest shadowedConfig hup
  refine ⟨hup, hfound, by decide +kernel, hnearest _ hfound, ?_⟩
  rw [hsame ⟨"a/b"⟩ (by decide) (by decide +kernel) (by decide +kernel), hfound, Option.map_some, hlocate]

/-! ## Start paths with `..` -/

open FilePath (wayOf)

theorem exists_ancestor_of_findConfig (h : findConfig files start = some found) :
    ∃ ancestor ∈ start.ancestors, found = ancestor.child configFileName ∧ files.isFile found = true := by
  obtain ⟨ancestor, hancestor, rfl⟩ := List.mem_map.1 (List.mem_of_find?_eq_some h)
  exact ⟨ancestor, hancestor, rfl, List.find?_some h⟩

/-- **Config files and `..`.** The search cuts off components of the start path until the rest names a directory that
holds a config file. That is the start directory or one above it exactly when the components that were cut off come down
again by the names over which they go up, as they do when there is no `..`. -/
theorem findConfig_directory (hfound : findConfig files start = some found) :
    ∃ ancestor ∈ start.ancestors, ∃ cut directory,
      found = ancestor.child configFileName ∧ start.components = ancestor.components ++ cut ∧
      files.locate found = .ok (directory ++ [configFileName]) ∧ files.HoldsConfig directory ∧
      ∀ location, files.locate start = .ok location →
        location = directory.rdrop (wayOf cut).up ++ (wayOf cut).down ∧
        (directory <+: location ↔ directory.rtake (wayOf cut).up <+: (wayOf cut).down) ∧
        (.up ∉ cut → directory <+: location) := by
  obtain ⟨ancestor, hancestor, rfl, hfile⟩ := exists_ancestor_of_findConfig hfound
  obtain ⟨cut, hroot, hcomponents⟩ := FilePath.exists_cut_of_mem_ancestors hancestor
  obtain ⟨bytes, hfind⟩ := isFile_iff.1 hfile
  obtain ⟨hlocate, hat⟩ := locate_child configFileName_entryName hfind
  refine ⟨ancestor, hancestor, cut, _, rfl, hcomponents, hlocate, ⟨bytes, hat⟩, fun location hlocation => ?_⟩
  have hway := locate_eq_resolve hlocation
  rw [hcomponents, FilePath.resolve_append, FilePath.resolve_eq_way hroot] at hway
  subst hway
  refine ⟨rfl, FilePath.prefix_way_iff _, fun hup => ?_⟩
  rw [FilePath.prefix_way_iff, FilePath.wayOf_up_eq_zero hup, List.rtake_zero]
  exact List.nil_prefix

/-- Two directories side by side in the working directory. The one has a config file and another directory in it. -/
def neighbours : FileSystem :=
  (((FileSystem.ofWorkingDirectory ["work"]).place ["a", configFileName] (.file .empty)).place ["a", "c"]
    (.directory [])).place ["b"] (.directory [])

/-- The search from `a/c`, reached through the neighbour, finds the config file in `a`. -/
theorem neighbours_findConfig_directory :
    findConfig neighbours ⟨"b/../a/c"⟩ = some ⟨"b/../a/pq-outline.toml"⟩ ∧
    ∃ ancestor ∈ (FilePath.mk "b/../a/c").ancestors, ∃ cut directory,
      FilePath.mk "b/../a/pq-outline.toml" = ancestor.child configFileName ∧
      (FilePath.mk "b/../a/c").components = ancestor.components ++ cut ∧
      neighbours.locate ⟨"b/../a/pq-outline.toml"⟩ = .ok (directory ++ [configFileName]) ∧
      directory.rtake (wayOf cut).up <+: (wayOf cut).down ∧ directory <+: ["work", "a", "c"] := by
  have hfound : findConfig neighbours ⟨"b/../a/c"⟩ = some ⟨"b/../a/pq-outline.toml"⟩ := by decide +kernel
  have hstart : neighbours.locate ⟨"b/../a/c"⟩ = .ok ["work", "a", "c"] := by decide +kernel
  have hfile : neighbours.locate ⟨"b/../a/pq-outline.toml"⟩ = .ok (["work", "a"] ++ [configFileName]) := by
    decide +kernel
  obtain ⟨ancestor, hancestor, cut, directory, hchild, hcomponents, hlocate, _, hlocation⟩ :=
    findConfig_directory hfound
  obtain ⟨_, habove_iff, _⟩ := hlocation _ hstart
  have hdirectory : ["work", "a"] = directory := List.append_cancel_right (Except.ok.inj (hfile.symm.trans hlocate))
  have habove : directory <+: ["work", "a", "c"] := hdirectory ▸ by decide
  exact ⟨hfound, ancestor, hancestor, cut, directory, hchild, hcomponents, hlocate, habove_iff.1 habove, habove⟩

/-- From the working directory, written `a/..`, the search goes on with `a`, and finds the config file there. -/
theorem neighbours_findConfig_below :
    (∃ entries, neighbours.find ⟨"a/.."⟩ = .ok (.directory entries)) ∧
    neighbours.locate ⟨"a/.."⟩ = .ok ["work"] ∧
    findConfig neighbours ⟨"a/.."⟩ = some ⟨"a/pq-outline.toml"⟩ ∧
    neighbours.locate ⟨"a/pq-outline.toml"⟩ = .ok (["work", "a"] ++ [configFileName]) ∧
    ¬["work", "a"] <+: ["work"] :=
  ⟨⟨_, rfl⟩, by decide +kernel, by decide +kernel, by decide +kernel, by decide⟩

end QueryOutline
