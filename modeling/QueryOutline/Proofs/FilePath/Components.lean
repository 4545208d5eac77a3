import Mathlib.Data.List.Basic
import Mathlib.Data.List.TakeWhile
import QueryOutline.FilePath

/-!
# Components of paths

A path is cut at its slashes into pieces (`FilePath.pieces`); the first piece says where the path starts, and those that
name something are its components.

* **Pieces** (`splitSlashes_append`): cutting at a slash cuts both sides.
* **Components** (`FilePath.components_eq`): what the first piece stands for, then the names in the others.
* **Entries** (`FilePath.components_child`, `FilePath.components_join`): going down to an entry adds its name.
* **Extensions** (`extension?_eq_some_iff`): what follows the last dot of a name.
-/

namespace QueryOutline

/-! ## Pieces -/

theorem splitSlashes_ne_nil : ∀ chars : List Char, splitSlashes chars ≠ []
  | [] => by simp [splitSlashes]
  | c :: rest => by
    unfold splitSlashes
    split
    · exact List.cons_ne_nil _ _
    · split <;> exact List.cons_ne_nil _ _

/-- Cutting at a slash cuts both sides. -/
theorem splitSlashes_append (after : List Char) : ∀ before : List Char,
    splitSlashes (before ++ '/' :: after) = splitSlashes before ++ splitSlashes after
  | [] => by simp [splitSlashes]
  | c :: rest => by
    have ih := splitSlashes_append after rest
    by_cases hc : c = '/'
    · simp [splitSlashes, hc, ih]
    · obtain ⟨piece, pieces, hpieces⟩ := List.exists_cons_of_ne_nil (splitSlashes_ne_nil rest)
      simp [splitSlashes, hc, ih, hpieces]

/-- A text without slashes is one piece. -/
theorem splitSlashes_of_notMem : ∀ {chars : List Char}, '/' ∉ chars → splitSlashes chars = [chars]
  | [], _ => rfl
  | c :: rest, h => by
    rw [List.mem_cons, not_or] at h
    have ih := splitSlashes_of_notMem h.2
    simp [splitSlashes, Ne.symm h.1, ih]

/-- Only an empty text is one empty piece. -/
theorem eq_nil_of_splitSlashes {chars : List Char} (h : splitSlashes chars = [[]]) : chars = [] := by
  cases chars with
  | nil => rfl
  | cons c rest =>
    obtain ⟨piece, pieces, hpieces⟩ := List.exists_cons_of_ne_nil (splitSlashes_ne_nil rest)
    by_cases hc : c = '/' <;> simp [splitSlashes, hc, hpieces] at h

namespace FilePath

/-- The pieces of the path between slashes. -/
def pieces (path : FilePath) : List String := (splitSlashes path.text.toList).map String.ofList

/-! ## Components -/

/-- The components of the pieces that name something. -/
def named (pieces : List String) : List Component := (pieces.filter (!isVoid ·)).map Component.ofPiece

/-- What the first piece stands for: nothing in front of a slash is the root. -/
def lead (piece : String) : List Component :=
  if piece = "" then [.root] else if piece = "." then [.here] else [Component.ofPiece piece]

theorem named_append (pieces more : List String) : named (pieces ++ more) = named pieces ++ named more := by
  simp [named]

theorem named_void {piece : String} (h : isVoid piece = true) : named [piece] = [] := by
  simp [named, h]

/-- The components of a list of pieces, unless it is the one of an empty text. -/
theorem components_eq {path : FilePath} {piece : String} {rest : List String} (hpieces : path.pieces = piece :: rest)
    (h : piece ≠ "" ∨ rest ≠ []) : path.components = lead piece ++ named rest := by
  rw [components, spelling]
  simp only [pieces] at hpieces
  rw [hpieces]
  by_cases hroot : piece = ""
  · subst hroot
    obtain ⟨next, others, rfl⟩ := List.exists_cons_of_ne_nil (h.resolve_left (fun hne => hne rfl))
    simp [lead, named]
  · by_cases hhere : piece = "."
    · subst hhere
      simp [lead, named]
    · simp [lead, named, isVoid, hroot, hhere]

theorem components_of_empty {path : FilePath} (h : path.text = "") : path.components = [] := by
  obtain ⟨text⟩ := path
  subst h
  decide

/-! ## Entries -/

/-- A name that an entry of a directory can have. -/
structure EntryName (name : String) : Prop where
  ne_empty : name ≠ ""
  ne_here : name ≠ "."
  ne_up : name ≠ ".."
  noSlash : '/' ∉ name.toList

theorem EntryName.named {name : String} (h : EntryName name) : named [name] = [.name name] := by
  simp [FilePath.named, isVoid, Component.ofPiece, h.ne_empty, h.ne_here, h.ne_up]

theorem EntryName.lead {name : String} (h : EntryName name) : lead name = [.name name] := by
  simp [FilePath.lead, Component.ofPiece, h.ne_empty, h.ne_here, h.ne_up]

/-- The pieces of a text with a name behind its last slash. -/
theorem pieces_of_slash {name text : String} {before : List Char} (hname : EntryName name)
    (htext : text.toList = before ++ '/' :: name.toList) :
    (FilePath.mk text).pieces = (splitSlashes before).map String.ofList ++ [name] := by
  simp [pieces, htext, splitSlashes_append, splitSlashes_of_notMem hname.noSlash]

/-- A text that is not empty has a first piece, and more behind it if that one is empty. -/
theorem exists_pieces_cons {text : String} (h : text ≠ "") :
    ∃ piece rest, (FilePath.mk text).pieces = piece :: rest ∧ (piece ≠ "" ∨ rest ≠ []) := by
  obtain ⟨piece, rest, hpieces⟩ := List.exists_cons_of_ne_nil (splitSlashes_ne_nil text.toList)
  refine ⟨String.ofList piece, rest.map String.ofList, by simp [pieces, hpieces], ?_⟩
  by_contra hboth
  simp only [not_or, not_not, List.map_eq_nil_iff] at hboth
  obtain ⟨hpiece, rfl⟩ := hboth
  have hnil : piece = [] := by simpa using congrArg String.toList hpiece
  rw [hnil] at hpieces
  apply h
  rw [← @String.ofList_toList text, eq_nil_of_splitSlashes hpieces]

/-- Going down to an entry adds its name. -/
theorem components_child {name : String} (hname : EntryName name) (directory : FilePath) :
    (directory.child name).components = directory.components ++ [.name name] := by
  obtain ⟨text⟩ := directory
  by_cases hempty : text = ""
  · have hchild : (child ⟨text⟩ name).pieces = [name] := by
      simp [child, hempty, pieces, splitSlashes_of_notMem hname.noSlash]
    rw [components_of_empty hempty, components_eq hchild (.inl hname.ne_empty), hname.lead]
    rfl
  by_cases hslash : text.toList.getLast? = some '/'
  · -- the text ends in a slash, and the name takes the place of the empty piece behind it
    obtain ⟨before, hbefore⟩ := List.getLast?_eq_some_iff.1 hslash
    obtain ⟨piece, rest, hrest⟩ := List.exists_cons_of_ne_nil (splitSlashes_ne_nil before)
    have hdirectory : (FilePath.mk text).pieces = String.ofList piece :: (rest.map String.ofList ++ [""]) := by
      simp [pieces, hbefore, splitSlashes_append, hrest, splitSlashes]
    have hchild : (child ⟨text⟩ name).pieces = String.ofList piece :: (rest.map String.ofList ++ [name]) := by
      have htext : (text ++ name).toList = before ++ '/' :: name.toList := by simp [hbefore]
      rw [child, if_pos (.inr hslash), pieces_of_slash hname htext, hrest]
      rfl
    have hvoid : named [""] = [] := named_void (by decide)
    rw [components_eq hdirectory (.inr (by simp)), components_eq hchild (.inr (by simp)), named_append, named_append,
      hvoid, hname.named, List.append_nil, List.append_assoc]
  · -- a slash and the name come behind the last piece
    obtain ⟨piece, rest, hdirectory, hfirst⟩ := exists_pieces_cons hempty
    have hchild : (child ⟨text⟩ name).pieces = piece :: (rest ++ [name]) := by
      have htext : (text ++ "/" ++ name).toList = text.toList ++ '/' :: name.toList := by simp
      rw [child, if_neg (by simp [hempty, hslash]), pieces_of_slash hname htext]
      rw [pieces] at hdirectory
      rw [hdirectory]
      rfl
    rw [components_eq hdirectory hfirst, components_eq hchild (.inr (by simp)), named_append, hname.named,
      List.append_assoc]

/-- The path of what the names lead to from a directory. -/
def join (directory : FilePath) (names : List String) : FilePath := names.foldl child directory

/-- Going down several levels adds all names. -/
theorem components_join : ∀ {names : List String}, (∀ name ∈ names, EntryName name) → ∀ directory : FilePath,
    (directory.join names).components = directory.components ++ names.map Component.name
  | [], _, directory => (List.append_nil _).symm
  | name :: names, h, directory => by
    obtain ⟨hname, hnames⟩ := List.forall_mem_cons.1 h
    have ih := components_join hnames (directory.child name)
    rw [components_child hname directory, List.append_assoc] at ih
    exact ih

end FilePath

/-! ## Extensions -/

/-- The extension is what follows the last dot, with something in front of the dot. -/
theorem extension?_eq_some_iff {name extension : String} : extension? name = some extension ↔
    ∃ stem, stem ≠ "" ∧ '.' ∉ extension.toList ∧ name = stem ++ "." ++ extension := by
  constructor
  · intro h
    have hback : name.toList.reverse =
        name.toList.reverse.takeWhile (· ≠ '.') ++ name.toList.reverse.dropWhile (· ≠ '.') :=
      List.takeWhile_append_dropWhile.symm
    have hdot : '.' ∉ name.toList.reverse.takeWhile (· ≠ '.') := by
      intro hmem
      simpa using List.mem_takeWhile_imp hmem
    unfold extension? at h
    dsimp only at h
    split at h
    · rename_i last front hdrop
      rw [hdrop] at hback
      generalize name.toList.reverse.takeWhile (· ≠ '.') = behind at h hback hdot
      obtain rfl := Option.some.inj h
      refine ⟨String.ofList (last :: front).reverse, by simp, by simpa using hdot, ?_⟩
      apply String.toList_inj.1
      rw [← List.reverse_reverse name.toList, hback]
      simp
    · cases h
  · rintro ⟨stem, hstem, hdot, rfl⟩
    obtain ⟨last, front, hfront⟩ : ∃ last front, stem.toList.reverse = last :: front :=
      List.exists_cons_of_ne_nil (by simpa using hstem)
    have hback : (stem ++ "." ++ extension).toList.reverse = extension.toList.reverse ++ '.' :: last :: front := by
      simp [hfront]
    have hextension : ∀ c ∈ extension.toList.reverse, decide (c ≠ '.') = true := by
      intro c hc
      rw [List.mem_reverse] at hc
      exact decide_eq_true fun heq => hdot (heq ▸ hc)
    unfold extension?
    dsimp only
    rw [hback, List.takeWhile_append_of_pos hextension, List.dropWhile_append_of_pos hextension]
    simp

theorem extension?_eq_json_iff {name : String} :
    extension? name = some "json" ↔ ∃ stem, stem ≠ "" ∧ name = stem ++ ".json" := by
  have hjoin : ∀ stem : String, stem ++ "." ++ "json" = stem ++ ".json" := fun stem => String.append_assoc
  have hdot : '.' ∉ "json".toList := by decide
  simp only [extension?_eq_some_iff, hjoin, hdot, not_false_eq_true, true_and]

end QueryOutline
