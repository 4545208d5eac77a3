import QueryOutline.Inputs
import QueryOutline.Proofs.FilePath.Components
import QueryOutline.Proofs.FilePath.Order
import QueryOutline.Proofs.FileSystem

/-!
# What is collected

The collected inputs are the given files and the selected files below the given directories, each path once and in
order.

* **Below a directory** (`mem_inputsBelow`): the files with the extension `json` that are not inside a skipped directory
  (`Entry.Selects`), under the paths that lead to them.
* **Directories on the way** (`mem_enteredDirectories`): the directories that are entered are those to which a path
  leads without a skipped one (`Entry.Entered`).
* **All arguments** (`exists_collectInputs`, `exists_sorted`): unless one of the arguments cannot be looked up, the
  inputs of all of them (`IsInput`) are sorted together.
* **The result** (`collectInputs_of_found`): which paths it has, in which order, and that neither the order of the
  arguments nor that of the listings matters.
-/

namespace QueryOutline

/-! ## Below a directory -/

namespace Entry

/-- Some directories, one inside the other, lead to a file with the name. -/
inductive HasFile : Entry → List String → String → Prop where
  | here {entries : List (String × Entry)} {name : String} {bytes : ByteArray} (hmem : (name, file bytes) ∈ entries) :
      HasFile (directory entries) [] name
  | inside {entries : List (String × Entry)} {inner : Entry} {outer name : String} {directories : List String}
      (hmem : (outer, inner) ∈ entries) (h : HasFile inner directories name) :
      HasFile (directory entries) (outer :: directories) name

/-- A file below a directory is selected by its extension, and only if no directory on the way is skipped. -/
structure Selects (entry : Entry) (directories : List String) (name : String) : Prop where
  file : entry.HasFile directories name
  extension : ∃ stem, stem ≠ "" ∧ name = stem ++ ".json"
  notSkipped : ∀ outer ∈ directories, outer ∉ skippedDirectories

variable {entry other : Entry} {entries : List (String × Entry)} {directories : List String} {name first : String}

theorem hasFile_nil : ¬(directory []).HasFile directories name := by
  rintro (⟨hmem⟩ | ⟨hmem, _⟩) <;> cases hmem

/-- The file is the first entry, or below it, or it is in the rest. -/
theorem hasFile_cons : (directory ((first, entry) :: entries)).HasFile directories name ↔
    (∃ bytes, entry = .file bytes ∧ directories = [] ∧ name = first) ∨
      (∃ inner, directories = first :: inner ∧ entry.HasFile inner name) ∨
      (directory entries).HasFile directories name := by
  constructor
  · rintro (⟨hmem⟩ | ⟨hmem, h⟩) <;> rcases List.mem_cons.1 hmem with heq | hmem
    · obtain ⟨rfl, rfl⟩ := Prod.mk.inj heq
      exact .inl ⟨_, rfl, rfl, rfl⟩
    · exact .inr (.inr (.here hmem))
    · obtain ⟨rfl, rfl⟩ := Prod.mk.inj heq
      exact .inr (.inl ⟨_, rfl, h⟩)
    · exact .inr (.inr (.inside hmem h))
  · rintro (⟨bytes, rfl, rfl, rfl⟩ | ⟨inner, rfl, h⟩ | ⟨hmem⟩ | ⟨hmem, h⟩)
    · exact .here List.mem_cons_self
    · exact .inside List.mem_cons_self h
    · exact .here (List.mem_cons_of_mem _ hmem)
    · exact .inside (List.mem_cons_of_mem _ hmem) h

theorem HasFile.relisted (h : entry.HasFile directories name) (hrelisted : entry.Relisted other) :
    other.HasFile directories name := by
  induction h generalizing other with
  | here hmem =>
    obtain ⟨others, rfl⟩ := hrelisted.exists_directory
    obtain ⟨other, hother, hfile⟩ := hrelisted.mem hmem
    rw [hfile.eq_of_file] at hother
    exact .here hother
  | inside hmem _ ih =>
    obtain ⟨others, rfl⟩ := hrelisted.exists_directory
    obtain ⟨other, hother, hinner⟩ := hrelisted.mem hmem
    exact .inside hother (ih hinner)

theorem Selects.relisted (h : entry.Selects directories name) (hrelisted : entry.Relisted other) :
    other.Selects directories name :=
  ⟨h.file.relisted hrelisted, h.extension, h.notSkipped⟩

theorem not_selects_nil : ¬(directory []).Selects directories name := fun h => hasFile_nil h.file

theorem selects_cons : (directory ((first, entry) :: entries)).Selects directories name ↔
    (∃ bytes, entry = .file bytes ∧ extension? first = some "json" ∧ directories = [] ∧ name = first) ∨
      (∃ inner, directories = first :: inner ∧ first ∉ skippedDirectories ∧ entry.Selects inner name) ∨
      (directory entries).Selects directories name := by
  constructor
  · rintro ⟨hfile, hextension, hskipped⟩
    rcases hasFile_cons.1 hfile with ⟨bytes, rfl, rfl, rfl⟩ | ⟨inner, rfl, h⟩ | h
    · exact .inl ⟨bytes, rfl, extension?_eq_json_iff.2 hextension, rfl, rfl⟩
    · obtain ⟨hfirst, hinner⟩ := List.forall_mem_cons.1 hskipped
      exact .inr (.inl ⟨inner, rfl, hfirst, h, hextension, hinner⟩)
    · exact .inr (.inr ⟨h, hextension, hskipped⟩)
  · rintro (⟨bytes, rfl, hextension, rfl, rfl⟩ | ⟨inner, rfl, hfirst, h⟩ | h)
    · exact ⟨hasFile_cons.2 (.inl ⟨bytes, rfl, rfl, rfl⟩), extension?_eq_json_iff.1 hextension, nofun⟩
    · have hskipped : ∀ outer ∈ first :: inner, outer ∉ skippedDirectories :=
        List.forall_mem_cons.2 ⟨hfirst, h.notSkipped⟩
      exact ⟨hasFile_cons.2 (.inr (.inl ⟨inner, rfl, h.file⟩)), h.extension, hskipped⟩
    · exact ⟨hasFile_cons.2 (.inr (.inr h.file)), h.extension, h.notSkipped⟩

theorem not_selects_file {bytes : ByteArray} : ¬(file bytes).Selects directories name := fun h => by
  cases h.file

end Entry

open Entry

/-- The files below a directory that are collected. -/
theorem mem_inputsBelow {input : FilePath} : ∀ {path : FilePath} {entries : List (String × Entry)},
    input ∈ inputsBelow path entries ↔
      ∃ directories name, (directory entries).Selects directories name ∧ input = path.join (directories ++ [name])
  | path, [] => by
    simp [inputsBelow, not_selects_nil]
  | path, (first, .file bytes) :: rest => by
    rw [inputsBelow, List.mem_append, mem_inputsBelow]
    constructor
    · rintro (h | ⟨directories, name, hselects, rfl⟩)
      · split_ifs at h with hextension
        · obtain rfl := List.mem_singleton.1 h
          exact ⟨[], first, selects_cons.2 (.inl ⟨bytes, rfl, hextension, rfl, rfl⟩), rfl⟩
        · cases h
      · exact ⟨directories, name, selects_cons.2 (.inr (.inr hselects)), rfl⟩
    · rintro ⟨directories, name, hselects, rfl⟩
      rcases selects_cons.1 hselects with ⟨_, _, hextension, rfl, rfl⟩ | ⟨inner, _, _, hfile⟩ | hselects
      · rw [if_pos hextension]
        exact .inl (List.mem_singleton.2 rfl)
      · exact absurd hfile not_selects_file
      · exact .inr ⟨directories, name, hselects, rfl⟩
  | path, (first, .directory inner) :: rest => by
    rw [inputsBelow, List.mem_append, mem_inputsBelow]
    constructor
    · rintro (h | ⟨directories, name, hselects, rfl⟩)
      · split_ifs at h with hskipped
        · cases h
        · obtain ⟨directories, name, hselects, rfl⟩ := mem_inputsBelow.1 h
          exact ⟨first :: directories, name, selects_cons.2 (.inr (.inl ⟨directories, rfl, hskipped, hselects⟩)), rfl⟩
      · exact ⟨directories, name, selects_cons.2 (.inr (.inr hselects)), rfl⟩
    · rintro ⟨directories, name, hselects, rfl⟩
      rcases selects_cons.1 hselects with ⟨_, hfile, _⟩ | ⟨directories, rfl, hskipped, hselects⟩ | hselects
      · cases hfile
      · rw [if_neg hskipped]
        exact .inl (mem_inputsBelow.2 ⟨directories, name, hselects, rfl⟩)
      · exact .inr ⟨directories, name, hselects, rfl⟩

/-! ## Directories on the way -/

namespace Entry

/-- Directories that are not skipped, one inside the other, lead to a directory. -/
inductive Entered : Entry → List String → Prop where
  | here (entries : List (String × Entry)) : Entered (directory entries) []
  | inside {entries : List (String × Entry)} {inner : Entry} {outer : String} {directories : List String}
      (hmem : (outer, inner) ∈ entries) (hskipped : outer ∉ skippedDirectories) (h : Entered inner directories) :
      Entered (directory entries) (outer :: directories)

end Entry

mutual

/-- The directories that are entered are those to which directories that are not skipped lead. -/
theorem mem_directoriesFrom {directory : FilePath} : ∀ {path : FilePath} {entry : Entry},
    directory ∈ directoriesFrom path entry ↔ ∃ names, entry.Entered names ∧ directory = path.join names
  | path, .file bytes => by
    rw [directoriesFrom]
    exact iff_of_false List.not_mem_nil fun ⟨_, hentered, _⟩ => nomatch hentered
  | path, .directory entries => by
    rw [directoriesFrom, List.mem_cons, mem_directoriesAmong]
    constructor
    · rintro (rfl | ⟨outer, inner, names, hmem, hskipped, hentered, rfl⟩)
      · exact ⟨[], .here entries, rfl⟩
      · exact ⟨outer :: names, .inside hmem hskipped hentered, rfl⟩
    · rintro ⟨_, _ | ⟨hmem, hskipped, hentered⟩, rfl⟩
      · exact .inl rfl
      · exact .inr ⟨_, _, _, hmem, hskipped, hentered, rfl⟩

theorem mem_directoriesAmong {directory : FilePath} : ∀ {path : FilePath} {entries : List (String × Entry)},
    directory ∈ directoriesAmong path entries ↔ ∃ outer inner names, (outer, inner) ∈ entries ∧
      outer ∉ skippedDirectories ∧ inner.Entered names ∧ directory = path.join (outer :: names)
  | path, [] => by simp [directoriesAmong]
  | path, (first, entry) :: rest => by
    rw [directoriesAmong, List.mem_append, mem_directoriesAmong]
    constructor
    · rintro (h | ⟨outer, inner, names, hmem, h⟩)
      · split_ifs at h with hskipped
        · cases h
        · obtain ⟨names, hentered, rfl⟩ := mem_directoriesFrom.1 h
          exact ⟨first, entry, names, List.mem_cons_self, hskipped, hentered, rfl⟩
      · exact ⟨outer, inner, names, List.mem_cons_of_mem _ hmem, h⟩
    · rintro ⟨outer, inner, names, hmem, hskipped, hentered, rfl⟩
      rcases List.mem_cons.1 hmem with heq | hmem
      · obtain ⟨rfl, rfl⟩ := Prod.mk.inj heq
        rw [if_neg hskipped]
        exact .inl (mem_directoriesFrom.2 ⟨names, hentered, rfl⟩)
      · exact .inr ⟨outer, inner, names, hmem, hskipped, hentered, rfl⟩

end

/-- The directories that are entered for paths are below those that are found before the first that is not. -/
theorem mem_enteredDirectories {files : FileSystem} {directory : FilePath} : ∀ {paths : List FilePath},
    directory ∈ enteredDirectories files paths ↔ ∃ before path after, paths = before ++ path :: after ∧
      (∀ other ∈ before, ∃ entry, files.find other = .ok entry) ∧
        ∃ entry names, files.find path = .ok entry ∧ entry.Entered names ∧ directory = path.join names
  | [] => by simp [enteredDirectories]
  | first :: paths => by
    rw [enteredDirectories]
    cases hfind : files.find first with
    | error cause =>
      refine iff_of_false List.not_mem_nil ?_
      rintro ⟨_ | ⟨other, before⟩, path, after, hpaths, hbefore, entry, names, hentry, _⟩
      · rw [← (List.cons.inj hpaths).1, hfind] at hentry
        cases hentry
      · obtain ⟨entry, hother⟩ := hbefore other List.mem_cons_self
        rw [← (List.cons.inj hpaths).1, hfind] at hother
        cases hother
    | ok entry =>
      rw [List.mem_append, mem_directoriesFrom, mem_enteredDirectories]
      constructor
      · rintro (⟨names, h⟩ | ⟨before, path, after, rfl, hbefore, h⟩)
        · exact ⟨[], first, paths, rfl, nofun, entry, names, hfind, h⟩
        · exact ⟨first :: before, path, after, rfl, List.forall_mem_cons.2 ⟨⟨entry, hfind⟩, hbefore⟩, h⟩
      · rintro ⟨_ | ⟨other, before⟩, path, after, hpaths, hbefore, found, names, hfound, h⟩
        · obtain ⟨rfl, rfl⟩ := List.cons.inj hpaths
          obtain rfl := Except.ok.inj (hfind.symm.trans hfound)
          exact .inl ⟨names, h⟩
        · obtain ⟨rfl, rfl⟩ := List.cons.inj hpaths
          exact .inr ⟨before, path, after, rfl, fun other hother => hbefore other (List.mem_cons_of_mem _ hother),
            found, names, hfound, h⟩

/-! ## All arguments -/

/-- A path is an input if it is given and denotes a file, or if a given path denotes a directory in which it is
selected. -/
inductive IsInput (files : FileSystem) (args : List FilePath) : FilePath → Prop where
  | given {arg : FilePath} {bytes : ByteArray} (harg : arg ∈ args) (hfile : files.find arg = .ok (.file bytes)) :
      IsInput files args arg
  | below {arg : FilePath} {entries : List (String × Entry)} {directories : List String} {name : String}
      (harg : arg ∈ args) (hdirectory : files.find arg = .ok (.directory entries))
      (hselects : (directory entries).Selects directories name) :
      IsInput files args (arg.join (directories ++ [name]))

variable {files relisted : FileSystem} {args others inputs : List FilePath} {input : FilePath}

theorem isInput_iff :
    IsInput files args input ↔ ∃ arg ∈ args, ∃ inputs, inputsOf files arg = .ok inputs ∧ input ∈ inputs := by
  unfold inputsOf
  simp only [bind_eq_ok_iff]
  constructor
  · rintro (⟨harg, hfile⟩ | ⟨harg, hdirectory, hselects⟩)
    · exact ⟨input, harg, [input], ⟨_, hfile, rfl⟩, List.mem_singleton.2 rfl⟩
    · exact ⟨_, harg, _, ⟨_, hdirectory, rfl⟩, mem_inputsBelow.2 ⟨_, _, hselects, rfl⟩⟩
  · rintro ⟨arg, harg, inputs, ⟨entry, hfind, hinputs⟩, hinput⟩
    cases entry with
    | file bytes =>
      obtain rfl : [arg] = inputs := Except.ok.inj hinputs
      obtain rfl := List.mem_singleton.1 hinput
      exact .given harg hfind
    | directory entries =>
      obtain rfl : inputsBelow arg entries = inputs := Except.ok.inj hinputs
      obtain ⟨directories, name, hselects, rfl⟩ := mem_inputsBelow.1 hinput
      exact .below harg hfind hselects

/-- The inputs depend on which paths are given, and not on the order of listings. -/
theorem IsInput.mono (h : IsInput files args input) (hfiles : files.Relisted relisted)
    (hargs : ∀ arg ∈ args, arg ∈ others) : IsInput relisted others input := by
  cases h with
  | given harg hfile =>
    obtain ⟨entry, hfind, hentry⟩ := hfiles.find hfile
    rw [hentry.eq_of_file] at hfind
    exact .given (hargs _ harg) hfind
  | below harg hdirectory hselects =>
    obtain ⟨entry, hfind, hentry⟩ := hfiles.find hdirectory
    obtain ⟨entries, rfl⟩ := hentry.exists_directory
    exact .below (hargs _ harg) hfind (hselects.relisted hentry)

theorem inputsOf_attempt (files : FileSystem) :
    (fun path => (inputsOf files path).mapError fun error => (path, error)) =
      attempt (inputsOf files) (fun _ inputs => inputs) Prod.mk :=
  mapError_attempt _ _

theorem collectInputs_eq_error_iff {path : FilePath} {cause : AccessError} :
    collectInputs files args = .error (path, cause) ↔ FirstFailure (inputsOf files) args path cause := by
  unfold collectInputs
  rw [inputsOf_attempt, bind_eq_error_iff, mapM_attempt_eq_error]
  simp [pure, Except.pure]

theorem exists_collectInputs (hfound : ∀ arg ∈ args, ∃ entry, files.find arg = .ok entry) :
    ∃ inputs, collectInputs files args = .ok inputs := by
  cases hcollected : collectInputs files args with
  | ok inputs => exact ⟨inputs, rfl⟩
  | error failure =>
    obtain ⟨before, after, hargs, _, hfailure⟩ := collectInputs_eq_error_iff.1 hcollected
    obtain ⟨entry, hentry⟩ := hfound failure.1 (by simp [hargs])
    rw [inputsOf, hentry] at hfailure
    cases entry <;> cases hfailure

/-- The collected paths are the inputs, sorted. -/
theorem exists_sorted (h : collectInputs files args = .ok inputs) :
    ∃ paths, inputs = FilePath.sorted paths ∧ ∀ path, path ∈ paths ↔ IsInput files args path := by
  unfold collectInputs at h
  rw [inputsOf_attempt, bind_eq_ok_iff] at h
  obtain ⟨results, hresults, hinputs⟩ := h
  obtain ⟨pairs, rfl, hpairs, rfl⟩ := mapM_attempt_eq_ok.1 hresults
  refine ⟨_, (Except.ok.inj hinputs).symm, fun path => ?_⟩
  rw [isInput_iff, List.mem_flatten]
  constructor
  · rintro ⟨paths, hpaths, hpath⟩
    obtain ⟨pair, hpair, rfl⟩ := List.mem_map.1 hpaths
    exact ⟨pair.1, List.mem_map_of_mem hpair, pair.2, hpairs pair hpair, hpath⟩
  · rintro ⟨arg, harg, inputs, hinputs, hpath⟩
    obtain ⟨pair, hpair, rfl⟩ := List.mem_map.1 harg
    obtain rfl : pair.2 = inputs := Except.ok.inj ((hpairs pair hpair).symm.trans hinputs)
    exact ⟨pair.2, List.mem_map.2 ⟨pair, hpair, rfl⟩, hpath⟩

/-! ## The result -/

section Collected

variable (hcollected : collectInputs files args = .ok inputs)
include hcollected

theorem collected_pairwise : inputs.Pairwise fun a b => a.before b = true := by
  obtain ⟨paths, rfl, _⟩ := exists_sorted hcollected
  exact FilePath.sorted_pairwise paths

theorem isInput_of_mem (hinput : input ∈ inputs) : IsInput files args input := by
  obtain ⟨paths, rfl, hpaths⟩ := exists_sorted hcollected
  exact (hpaths input).1 (FilePath.mem_of_mem_sorted hinput)

theorem exists_collected (hinput : IsInput files args input) :
    ∃ collected ∈ inputs, collected.components = input.components := by
  obtain ⟨paths, rfl, hpaths⟩ := exists_sorted hcollected
  exact FilePath.exists_mem_sorted ((hpaths input).2 hinput)

theorem mem_components_iff {components : List FilePath.Component} :
    components ∈ inputs.map FilePath.components ↔
      ∃ input, IsInput files args input ∧ input.components = components := by
  rw [List.mem_map]
  constructor
  · rintro ⟨input, hinput, rfl⟩
    exact ⟨input, isInput_of_mem hcollected hinput, rfl⟩
  · rintro ⟨input, hinput, rfl⟩
    exact exists_collected hcollected hinput

/-- Neither the order of the arguments nor that of the listings matters. -/
theorem collected_relisted (hfiles : files.Relisted relisted) (hargs : ∀ arg, arg ∈ args ↔ arg ∈ others)
    {more : List FilePath} (hmore : collectInputs relisted others = .ok more) :
    more.map FilePath.components = inputs.map FilePath.components := by
  refine FilePath.components_eq_of_pairwise (collected_pairwise hmore) (collected_pairwise hcollected) ?_
  intro components
  rw [mem_components_iff hmore, mem_components_iff hcollected]
  constructor
  · rintro ⟨input, hinput, hcomponents⟩
    exact ⟨input, hinput.mono hfiles.symm fun arg harg => (hargs arg).2 harg, hcomponents⟩
  · rintro ⟨input, hinput, hcomponents⟩
    exact ⟨input, hinput.mono hfiles fun arg harg => (hargs arg).1 harg, hcomponents⟩

end Collected

/-- When all arguments are found, the collected paths are strictly increasing, component by component, so that no two
have the same components. They are inputs, and every input is among them in some spelling, where a path below an
argument has the components of that argument and then the names that lead to the file. Other orders of the arguments and
of the listings give the same paths up to spelling. -/
theorem collectInputs_of_found {files : FileSystem} {args : List FilePath}
    (hfound : ∀ arg ∈ args, ∃ entry, files.find arg = .ok entry) :
    ∃ inputs, collectInputs files args = .ok inputs ∧
      inputs.Pairwise (fun a b => List.Lex FilePath.Component.Before a.components b.components) ∧
      (inputs.map FilePath.components).Nodup ∧
      (∀ input ∈ inputs, IsInput files args input) ∧
      (∀ input, IsInput files args input → ∃ collected ∈ inputs, collected.components = input.components) ∧
      (∀ (arg : FilePath) (names : List String), (∀ name ∈ names, FilePath.EntryName name) →
        (arg.join names).components = arg.components ++ names.map .name) ∧
      ∀ relisted others, files.Relisted relisted → (∀ arg, arg ∈ args ↔ arg ∈ others) →
        ∃ more, collectInputs relisted others = .ok more ∧
          more.map FilePath.components = inputs.map FilePath.components := by
  obtain ⟨inputs, hcollected⟩ := exists_collectInputs hfound
  have hincreasing := collected_pairwise hcollected
  refine ⟨inputs, hcollected, hincreasing.imp FilePath.before_iff.1, ?_, fun input => isInput_of_mem hcollected,
    fun input => exists_collected hcollected, fun arg names hnames => FilePath.components_join hnames arg, ?_⟩
  · exact List.pairwise_map.2 (hincreasing.imp FilePath.components_ne_of_before)
  · intro relisted others hfiles hargs
    have hothers : ∀ arg ∈ others, ∃ entry, relisted.find arg = .ok entry := by
      intro arg harg
      obtain ⟨entry, hentry⟩ := hfound arg ((hargs arg).2 harg)
      obtain ⟨other, hother, _⟩ := hfiles.find hentry
      exact ⟨other, hother⟩
    obtain ⟨more, hmore⟩ := exists_collectInputs hothers
    exact ⟨more, hmore, collected_relisted hcollected hfiles hargs hmore⟩

/-- A directory with the name of a skipped one, and another such directory in it. -/
def targetEntries : List (String × Entry) :=
  [("b.json", .file .empty), (".json", .file .empty), ("target", .directory [("c.json", .file .empty)])]

/-- A working directory with that directory, its entries listed as given, and a file of another extension. -/
def workshop (entries : List (String × Entry)) : FileSystem where
  root := .directory [("w", .directory [("target", .directory entries), ("notes.txt", .file .empty)])]
  workingDirectory := ["w"]

theorem relisted_workshop : (workshop targetEntries).Relisted (workshop targetEntries.reverse) where
  root :=
    have hreverse : Entry.Relists (.directory targetEntries) (.directory targetEntries.reverse) :=
      .here (by decide) (List.reverse_perm _).symm
    .single (.inside [] "w" [] (.inside [] "target" [("notes.txt", .file .empty)] hreverse))
  workingDirectory := rfl

/-- The overlap of arguments and their order, and the order in which the directory is listed, do not matter. -/
theorem workshop_collectInputs :
    (∃ inputs, collectInputs (workshop targetEntries) [⟨"target//b.json"⟩, ⟨"target"⟩, ⟨"notes.txt"⟩] = .ok inputs ∧
      inputs.map FilePath.components = [[.name "notes.txt"], [.name "target", .name "b.json"]]) ∧
    ∃ inputs, collectInputs (workshop targetEntries.reverse) [⟨"notes.txt"⟩, ⟨"target"⟩, ⟨"target//b.json"⟩] =
      .ok inputs ∧ inputs.map FilePath.components = [[.name "notes.txt"], [.name "target", .name "b.json"]] := by
  have hfound : ∀ arg ∈ [⟨"target//b.json"⟩, ⟨"target"⟩, ⟨"notes.txt"⟩],
      ∃ entry, (workshop targetEntries).find arg = .ok entry := by
    intro arg harg
    simp only [List.mem_cons, List.not_mem_nil, or_false] at harg
    rcases harg with rfl | rfl | rfl <;> exact ⟨_, rfl⟩
  obtain ⟨inputs, hcollected, -, -, -, -, -, hrelisted⟩ := collectInputs_of_found hfound
  have hcomponents : inputs.map FilePath.components = [[.name "notes.txt"], [.name "target", .name "b.json"]] := by
    have hbelow : inputsBelow ⟨"target"⟩ targetEntries = [⟨"target/b.json"⟩] := by
      simp only [targetEntries, inputsBelow]
      rfl
    have hgiven : collectInputs (workshop targetEntries) [⟨"target//b.json"⟩, ⟨"target"⟩, ⟨"notes.txt"⟩] =
        .ok (FilePath.sorted [⟨"target//b.json"⟩, ⟨"target/b.json"⟩, ⟨"notes.txt"⟩]) := by
      have hdirectory : inputsOf (workshop targetEntries) ⟨"target"⟩ = .ok (inputsBelow ⟨"target"⟩ targetEntries) := rfl
      rw [hbelow] at hdirectory
      unfold collectInputs
      simp only [List.mapM_cons, hdirectory]
      rfl
    obtain rfl := Except.ok.inj (hcollected.symm.trans hgiven)
    decide
  obtain ⟨more, hmore, heq⟩ := hrelisted _ [⟨"notes.txt"⟩, ⟨"target"⟩, ⟨"target//b.json"⟩] relisted_workshop (by
    intro arg
    simp only [List.mem_cons, List.not_mem_nil, or_false]
    tauto)
  exact ⟨⟨inputs, hcollected, hcomponents⟩, more, hmore, heq.trans hcomponents⟩

end QueryOutline
