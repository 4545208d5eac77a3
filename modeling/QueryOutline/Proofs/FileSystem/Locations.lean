import Mathlib.Data.List.DropRight
import Mathlib.Data.List.Infix
import QueryOutline.Proofs.FilePath.Parents
import QueryOutline.Proofs.FileSystem

/-!
# Where paths lead

Where a path leads, if it leads anywhere, can be told from its components: a name goes down, `..` goes up.

* **Resolution** (`FilePath.resolve`, `FileSystem.locate_eq_resolve`): a path that can be looked up leads there.
* **Ways** (`FilePath.Way`, `FilePath.resolve_eq_way`): how far up the components lead and then down to where.
* **Entries** (`FileSystem.locate_child`, `FileSystem.find_child_iff`): the entry of a directory that the path of the
  directory and a name denote. Without `..` nothing but that entry has to be there.
-/

namespace QueryOutline

namespace FilePath

variable {location : List String} {components more : List Component} {pieces : List String} {name : String}

/-! ## Resolution -/

/-- Goes on from a location by one component. -/
def Component.move (location : List String) : Component → List String
  | .root => []
  | .here => location
  | .up => location.dropLast
  | .name n => location ++ [n]

/-- The location to which the components lead. -/
def resolve (location : List String) (components : List Component) : List String :=
  components.foldl Component.move location

theorem resolve_append : resolve location (components ++ more) = resolve (resolve location components) more :=
  List.foldl_append

theorem resolve_concat (last : Component) :
    resolve location (components ++ [last]) = Component.move (resolve location components) last :=
  resolve_append

/-- The name that a component is. -/
def Component.name? : Component → Option String
  | .name n => some n
  | _ => none

/-- The names among the components. -/
def namesOf (components : List Component) : List String := components.filterMap Component.name?

/-- Without `..` and the root, components only lead down. -/
theorem resolve_of_down : ∀ {location : List String} {components : List Component}, .up ∉ components →
    .root ∉ components → resolve location components = location ++ namesOf components
  | location, [], _, _ => (List.append_nil _).symm
  | location, first :: components, hup, hroot => by
    have hfirst : .up ≠ first ∧ .root ≠ first :=
      ⟨fun h => hup (h ▸ List.mem_cons_self), fun h => hroot (h ▸ List.mem_cons_self)⟩
    have ih : ∀ location, resolve location components = location ++ namesOf components := fun _ =>
      resolve_of_down (fun h => hup (List.mem_cons_of_mem first h)) fun h => hroot (List.mem_cons_of_mem first h)
    cases first with
    | root => exact absurd rfl hfirst.2
    | up => exact absurd rfl hfirst.1
    | here => exact ih location
    | name n =>
      rw [resolve, List.foldl_cons, ← resolve, ih]
      exact List.append_assoc location [n] (namesOf components)

theorem resolve_named {piece : String} (hvoid : ¬isVoid piece = true) (hup : piece ≠ "..") :
    resolve location (named [piece]) = location ++ [piece] := by
  simp [named, hvoid, Component.ofPiece, hup, resolve, Component.move]

theorem EntryName.not_void (h : EntryName name) : isVoid name = false := by
  simp [isVoid, h.ne_empty, h.ne_here]

theorem root_notMem_named : .root ∉ named pieces := by
  intro h
  obtain ⟨piece, _, hpiece⟩ := List.mem_map.1 h
  unfold Component.ofPiece at hpiece
  split at hpiece <;> cases hpiece

theorem up_mem_named : .up ∈ named pieces ↔ ".." ∈ pieces := by
  unfold named
  simp only [List.mem_map, List.mem_filter]
  constructor
  · rintro ⟨piece, ⟨hmem, _⟩, hpiece⟩
    unfold Component.ofPiece at hpiece
    split at hpiece
    · rename_i heq
      exact heq ▸ hmem
    · cases hpiece
  · exact fun hmem => ⟨"..", ⟨hmem, by decide⟩, by decide⟩

/-! ## Ways -/

/-- A way from a directory: some levels up, and from there down along names. -/
structure Way where
  up : Nat
  down : List String
  deriving DecidableEq, Repr

/-- The way with one component more. Going up takes back the last name, if there is one. -/
def Way.move (way : Way) : Component → Way
  | .up => if way.down.isEmpty then ⟨way.up + 1, []⟩ else ⟨way.up, way.down.dropLast⟩
  | .name n => ⟨way.up, way.down ++ [n]⟩
  | _ => way

/-- The way that components describe. -/
def wayOf (components : List Component) : Way := components.foldl Way.move ⟨0, []⟩

theorem wayOf_concat (last : Component) : wayOf (components ++ [last]) = (wayOf components).move last :=
  List.foldl_append

/-- Components without the root lead along their way. -/
theorem resolve_eq_way (hroot : .root ∉ components) :
    resolve location components = location.rdrop (wayOf components).up ++ (wayOf components).down := by
  induction components using List.reverseRecOn with
  | nil => exact ((List.append_nil _).trans (List.rdrop_zero location)).symm
  | append_singleton before last ih =>
    rw [List.mem_append, List.mem_singleton, not_or] at hroot
    rw [resolve_concat, wayOf_concat, ih hroot.1]
    cases last with
    | root => exact absurd rfl hroot.2
    | here => rfl
    | name n => exact List.append_assoc _ _ _
    | up =>
      rw [Component.move, Way.move]
      split_ifs with hdown
      · rw [List.isEmpty_iff.1 hdown, List.append_nil, List.append_nil, ← List.rdrop_add]
        exact List.dropLast_eq_take
      · exact List.dropLast_append_of_ne_nil fun hnil => hdown (List.isEmpty_iff.2 hnil)

theorem wayOf_up_eq_zero (hup : .up ∉ components) : (wayOf components).up = 0 := by
  induction components using List.reverseRecOn with
  | nil => rfl
  | append_singleton before last ih =>
    rw [List.mem_append, List.mem_singleton, not_or] at hup
    rw [wayOf_concat]
    cases last with
    | up => exact absurd rfl hup.2
    | _ => exact ih hup.1

/-- A way ends at or below its start exactly when it comes down again by the names that it went up over. -/
theorem prefix_way_iff (way : Way) :
    location <+: location.rdrop way.up ++ way.down ↔ location.rtake way.up <+: way.down := by
  have hlocation : location.rdrop way.up ++ location.rtake way.up = location := List.take_append_drop _ _
  conv_lhs => lhs; rw [← hlocation]
  exact List.prefix_append_right_inj _

/-! ## Spellings of entries -/

/-- The path of an entry has the name of the entry as its last piece. -/
theorem exists_pieces_child (hname : EntryName name) (directory : FilePath) :
    ∃ before, (directory.child name).pieces = before ++ [name] := by
  obtain ⟨text⟩ := directory
  unfold child
  split
  · rename_i h
    rcases h with rfl | hslash
    · exact ⟨[], by simp [pieces, splitSlashes_of_notMem hname.noSlash]⟩
    · obtain ⟨before, hbefore⟩ := List.getLast?_eq_some_iff.1 hslash
      have htext : (text ++ name).toList = before ++ '/' :: name.toList := by simp [hbefore]
      exact ⟨_, pieces_of_slash hname htext⟩
  · have htext : (text ++ "/" ++ name).toList = text.toList ++ '/' :: name.toList := by simp
    exact ⟨_, pieces_of_slash hname htext⟩

theorem exists_spelling_child (hname : EntryName name) (directory : FilePath) :
    ∃ before, (directory.child name).spelling.pieces = before ++ [name] := by
  obtain ⟨before, hbefore⟩ := exists_pieces_child hname directory
  unfold spelling
  rw [← pieces, hbefore]
  split
  · rename_i piece rest heq
    cases before with
    | nil => cases heq
    | cons first before =>
      obtain ⟨-, hrest⟩ := List.cons.inj heq
      exact ⟨before, hrest.symm⟩
  · rename_i rest heq
    cases before with
    | nil => exact absurd (List.cons.inj heq).1 hname.ne_here
    | cons first before =>
      obtain ⟨-, hrest⟩ := List.cons.inj heq
      exact ⟨before, hrest.symm⟩
  · exact ⟨before, rfl⟩

theorem child_text_ne_empty (hname : EntryName name) (directory : FilePath) : (directory.child name).text ≠ "" := by
  intro hempty
  have hcomponents := components_child hname directory
  rw [components_of_empty hempty] at hcomponents
  simp at hcomponents

end FilePath

/-! ## Entries -/

namespace Entry

theorem at?_append : ∀ (names : List String) {more : List String} {entry : Entry},
    entry.at? (names ++ more) = (entry.at? names).bind fun inner => inner.at? more
  | [], more, entry => by rw [at?_nil, List.nil_append, Option.bind_some]
  | name :: names, more, .file bytes => rfl
  | name :: names, more, .directory entries => by
    rw [List.cons_append, Entry.at?, Entry.at?, Option.bind_assoc]
    congr 1
    funext entry
    exact at?_append names

/-- Where something is found below, there is a directory with that name in it. -/
theorem exists_directory_of_at? {location names : List String} {name : String} {entry found : Entry}
    (h : entry.at? (location ++ name :: names) = some found) :
    ∃ entries inner, entry.at? location = some (.directory entries) ∧ entries.lookup name = some inner := by
  rw [at?_append, Option.bind_eq_some_iff] at h
  obtain ⟨below, hbelow, h⟩ := h
  cases below with
  | file bytes => cases h
  | directory entries =>
    obtain ⟨inner, hinner, _⟩ := at?_cons.1 h
    exact ⟨entries, inner, hbelow, hinner⟩

end Entry

namespace FileSystem

open FilePath (resolve named namesOf EntryName)

variable {files : FileSystem} {path directory : FilePath} {location next pieces : List String} {piece name : String}
  {entry : Entry}

theorem step_resolve (h : files.step location piece = .ok next) : next = resolve location (named [piece]) := by
  obtain ⟨entries, _, hnext⟩ := step_eq_ok_iff.1 h
  split_ifs at hnext with hvoid hup
  · rw [FilePath.named_void hvoid, hnext]
    rfl
  · rw [hnext, hup]
    rfl
  · rw [FilePath.resolve_named hvoid hup, hnext.2]

theorem steps_resolve : ∀ {pieces location : List String}, pieces.foldlM files.step location = .ok next →
    next = resolve location (named pieces)
  | [], location, h => (Except.ok.inj h).symm
  | piece :: pieces, location, h => by
    rw [List.foldlM_cons, bind_eq_ok_iff] at h
    obtain ⟨middle, hmiddle, hrest⟩ := h
    rw [FilePath.named_cons, FilePath.resolve_append, ← step_resolve hmiddle]
    exact steps_resolve hrest

/-- The start of a path in the file system. -/
theorem resolve_start (start : FilePath.Start) :
    resolve files.workingDirectory start.components = if start = .root then [] else files.workingDirectory := by
  cases start <;> rfl

/-- A path that can be looked up leads where its components lead. -/
theorem locate_eq_resolve (h : files.locate path = .ok location) :
    location = resolve files.workingDirectory path.components := by
  unfold locate at h
  split at h
  · cases h
  · rw [FilePath.components_spelling, FilePath.resolve_append, resolve_start]
    exact steps_resolve h

/-- Apart from `..`, a piece leads on if something is there; what names nothing has to stand in a directory. -/
theorem step_of_at? (hup : piece ≠ "..") (hnext : FilePath.isVoid piece = true → next ≠ [])
    (h : files.root.at? (resolve location (named [piece]) ++ next) = some entry) :
    files.step location piece = .ok (resolve location (named [piece])) := by
  rw [step_eq_ok_iff]
  by_cases hvoid : FilePath.isVoid piece = true
  · obtain ⟨first, others, rfl⟩ := List.exists_cons_of_ne_nil (hnext hvoid)
    rw [FilePath.named_void hvoid] at h ⊢
    obtain ⟨entries, _, hdirectory, _⟩ := Entry.exists_directory_of_at? h
    exact ⟨entries, hdirectory, by rw [if_pos hvoid]; rfl⟩
  · rw [FilePath.resolve_named hvoid hup] at h ⊢
    rw [List.append_assoc] at h
    obtain ⟨entries, inner, hdirectory, hinner⟩ := Entry.exists_directory_of_at? h
    exact ⟨entries, hdirectory, by rw [if_neg hvoid, if_neg hup]; exact ⟨⟨inner, hinner⟩, rfl⟩⟩

/-- Without `..` on the way, the pieces lead to an entry that is there. -/
theorem steps_of_at? (hname : EntryName name) : ∀ {pieces location : List String}, ".." ∉ pieces →
    files.root.at? (resolve location (named pieces) ++ [name]) = some entry →
      (pieces ++ [name]).foldlM files.step location = .ok (resolve location (named pieces) ++ [name])
  | [], location, _, h => by
    have hresolve : resolve location (named [name]) = location ++ [name] :=
      FilePath.resolve_named (by simp [hname.not_void]) hname.ne_up
    have hat : files.root.at? (resolve location (named [name]) ++ []) = some entry := by
      rw [hresolve, List.append_nil]
      exact h
    have hstep : files.step location name = .ok (resolve location (named [name])) :=
      step_of_at? hname.ne_up (by simp [hname.not_void]) hat
    rw [List.nil_append, List.foldlM_cons, hstep, hresolve]
    rfl
  | piece :: pieces, location, hup, h => by
    rw [List.mem_cons, not_or] at hup
    have hdown : ∀ start, resolve start (named pieces) = start ++ namesOf (named pieces) := fun start =>
      FilePath.resolve_of_down (fun hmem => hup.2 (FilePath.up_mem_named.1 hmem)) FilePath.root_notMem_named
    rw [FilePath.named_cons, FilePath.resolve_append] at h ⊢
    have hstep : files.step location piece = .ok (resolve location (named [piece])) := by
      rw [hdown, List.append_assoc] at h
      exact step_of_at? (Ne.symm hup.1) (fun _ => by simp) h
    rw [List.cons_append, List.foldlM_cons, hstep]
    exact steps_of_at? hname hup.2 h

/-- The path of an entry leads to the entry of that name where the path of the directory leads. -/
theorem locate_child (hname : EntryName name) (h : files.find (directory.child name) = .ok entry) :
    files.locate (directory.child name) = .ok (resolve files.workingDirectory directory.components ++ [name]) ∧
      files.root.at? (resolve files.workingDirectory directory.components ++ [name]) = some entry := by
  obtain ⟨location, hlocate, hat⟩ := find_eq_ok_iff.1 h
  obtain rfl := locate_eq_resolve hlocate
  rw [FilePath.components_child hname, FilePath.resolve_concat] at hlocate hat
  exact ⟨hlocate, hat⟩

/-- Without `..` in the path of the directory, its entry is found whenever it is there. -/
theorem find_child_iff (hname : EntryName name) (hup : .up ∉ directory.components) :
    files.find (directory.child name) = .ok entry ↔
      files.root.at? (resolve files.workingDirectory directory.components ++ [name]) = some entry := by
  refine ⟨fun h => (locate_child hname h).2, fun h => find_eq_ok_iff.2 ⟨_, ?_, h⟩⟩
  obtain ⟨before, hbefore⟩ := FilePath.exists_spelling_child hname directory
  have hcomponents : directory.components = (directory.child name).spelling.start.components ++ named before := by
    have hchild := FilePath.components_child hname directory
    rw [FilePath.components_spelling, hbefore, FilePath.named_append, hname.named, ← List.append_assoc] at hchild
    exact (List.append_cancel_right hchild).symm
  rw [hcomponents] at hup
  rw [hcomponents, FilePath.resolve_append, resolve_start] at h ⊢
  have hpieces : ".." ∉ before := fun hmem => hup (List.mem_append_right _ (FilePath.up_mem_named.2 hmem))
  rw [locate, if_neg (FilePath.child_text_ne_empty hname directory)]
  dsimp only
  rw [hbefore]
  exact steps_of_at? hname hpieces h

theorem isFile_iff : files.isFile path = true ↔ ∃ bytes, files.find path = .ok (.file bytes) := by
  unfold isFile
  split
  · rename_i bytes hfind
    exact ⟨fun _ => ⟨bytes, hfind⟩, fun _ => rfl⟩
  · rename_i hfind
    exact ⟨nofun, fun ⟨bytes, h⟩ => absurd h (hfind bytes)⟩

end FileSystem

end QueryOutline
