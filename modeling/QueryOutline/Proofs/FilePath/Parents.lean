import Mathlib.Data.List.DropRight
import QueryOutline.Proofs.FilePath.Components

/-!
# Parents of paths

The parent of a path is found in its text: the last piece that names something is cut off, with all that names nothing
in front of it and behind it.

* **Components** (`FilePath.components_of_parent?`): the parent has all components of the path but the last one.
* **The way up** (`FilePath.induction_parents`, `FilePath.ancestors_eq`): it ends, and the ancestors of a path are the
  path itself and the ancestors of its parent.
-/

namespace QueryOutline

/-! ## Pieces -/

/-- No piece between slashes has a slash. -/
theorem notMem_of_mem_splitSlashes : ∀ {chars piece : List Char}, piece ∈ splitSlashes chars → '/' ∉ piece
  | [], piece, h => by
    obtain rfl := List.mem_singleton.1 h
    exact List.not_mem_nil
  | c :: rest, piece, h => by
    obtain ⟨first, others, hothers⟩ := List.exists_cons_of_ne_nil (splitSlashes_ne_nil rest)
    have ih : ∀ {piece}, piece ∈ first :: others → '/' ∉ piece := hothers ▸ notMem_of_mem_splitSlashes
    by_cases hc : c = '/'
    · rw [splitSlashes, if_pos hc, hothers] at h
      rcases List.mem_cons.1 h with rfl | h
      · exact List.not_mem_nil
      · exact ih h
    · rw [splitSlashes, if_neg hc, hothers] at h
      rcases List.mem_cons.1 h with rfl | h
      · exact fun hmem => (List.mem_cons.1 hmem).elim (Ne.symm hc) (ih List.mem_cons_self)
      · exact ih (List.mem_cons_of_mem _ h)

/-- Pieces that are joined by slashes are found again. -/
theorem splitSlashes_intercalate : ∀ {piece : String} {pieces : List String},
    (∀ p ∈ piece :: pieces, '/' ∉ p.toList) →
      (splitSlashes ("/".intercalate (piece :: pieces)).toList).map String.ofList = piece :: pieces
  | piece, [], h => by
    rw [String.intercalate_singleton, splitSlashes_of_notMem (h piece List.mem_cons_self)]
    simp
  | piece, next :: pieces, h => by
    obtain ⟨hpiece, hrest⟩ := List.forall_mem_cons.1 h
    have htext : ("/".intercalate (piece :: next :: pieces)).toList =
        piece.toList ++ '/' :: ("/".intercalate (next :: pieces)).toList := by
      rw [String.intercalate_cons_cons]
      simp
    rw [htext, splitSlashes_append, splitSlashes_of_notMem hpiece, List.map_append, splitSlashes_intercalate hrest]
    simp

namespace FilePath

variable {path parent : FilePath} {pieces : List String}

/-! ## Spellings -/

/-- The component that a start stands for. -/
def Start.components : Start → List Component
  | root => [.root]
  | here => [.here]
  | silent => []

theorem components_spelling (path : FilePath) :
    path.components = path.spelling.start.components ++ named path.spelling.pieces := by
  obtain ⟨text⟩ := path
  unfold components
  dsimp only
  cases (FilePath.mk text).spelling.start <;> rfl

/-- A spelling of a path: its pieces have no slash, and a silent start has no first piece that could be another start,
unless there is nothing at all. -/
structure Spelling.Sound (spelling : Spelling) : Prop where
  noSlash : ∀ piece ∈ spelling.pieces, '/' ∉ piece.toList
  silent : spelling.start = .silent → ∀ {piece rest}, spelling.pieces = piece :: rest →
    isVoid piece = true → piece = "" ∧ rest = []

theorem sound_spelling (path : FilePath) : path.spelling.Sound := by
  have hslash : ∀ piece ∈ path.pieces, '/' ∉ piece.toList := by
    intro piece hpiece
    obtain ⟨chars, hchars, rfl⟩ := List.mem_map.1 hpiece
    rw [String.toList_ofList]
    exact notMem_of_mem_splitSlashes hchars
  unfold spelling
  rw [← pieces]
  split
  · rename_i piece rest hpieces
    exact ⟨fun p hp => hslash p (hpieces ▸ List.mem_cons_of_mem _ hp), fun hstart => by cases hstart⟩
  · rename_i rest hpieces
    exact ⟨fun p hp => hslash p (hpieces ▸ List.mem_cons_of_mem _ hp), fun hstart => by cases hstart⟩
  · rename_i hroot hhere
    refine ⟨hslash, fun _ piece rest hpieces hvoid => ?_⟩
    rw [isVoid, Bool.or_eq_true, decide_eq_true_eq, decide_eq_true_eq] at hvoid
    rcases hvoid with rfl | rfl
    · cases rest with
      | nil => exact ⟨rfl, rfl⟩
      | cons next rest => exact absurd hpieces (hroot next rest)
    · exact absurd hpieces (hhere rest)

/-- The pieces of a joined text name the same. -/
theorem named_intercalate (h : ∀ piece ∈ pieces, '/' ∉ piece.toList) :
    named ((splitSlashes ("/".intercalate pieces).toList).map String.ofList) = named pieces := by
  cases pieces with
  | nil =>
    rw [String.intercalate_nil]
    decide
  | cons piece rest => rw [splitSlashes_intercalate h]

/-- A path with a given spelling has the components of the spelling. -/
theorem components_ofSpelling {start : Start} (hslash : ∀ piece ∈ pieces, '/' ∉ piece.toList)
    (hsilent : start = .silent → ∀ {piece rest}, pieces = piece :: rest → isVoid piece = false) :
    (ofSpelling ⟨start, pieces⟩).components = start.components ++ named pieces := by
  have hnamed : ∀ (lead : String), '/' ∉ lead.toList →
      (FilePath.mk (lead ++ "/" ++ "/".intercalate pieces)).pieces =
        lead :: (splitSlashes ("/".intercalate pieces).toList).map String.ofList := by
    intro lead hlead
    have htext : (lead ++ "/" ++ "/".intercalate pieces).toList =
        lead.toList ++ '/' :: ("/".intercalate pieces).toList := by simp
    rw [FilePath.pieces, htext, splitSlashes_append, splitSlashes_of_notMem hlead]
    simp
  cases start with
  | root =>
    have htext : ofSpelling ⟨.root, pieces⟩ = ⟨"" ++ "/" ++ "/".intercalate pieces⟩ := by
      simp [ofSpelling]
    have hne : (splitSlashes ("/".intercalate pieces).toList).map String.ofList ≠ [] := by
      simp [splitSlashes_ne_nil]
    rw [htext, components_eq (hnamed "" (by decide)) (.inr hne), named_intercalate hslash]
    rfl
  | here =>
    cases pieces with
    | nil => decide
    | cons piece rest =>
      have htext : ofSpelling ⟨.here, piece :: rest⟩ = ⟨"." ++ "/" ++ "/".intercalate (piece :: rest)⟩ := by
        simp [ofSpelling]
      rw [htext, components_eq (hnamed "." (by decide)) (.inl (by decide)), named_intercalate hslash]
      rfl
  | silent =>
    cases pieces with
    | nil => decide
    | cons piece rest =>
      have hpiece : isVoid piece = false := hsilent rfl rfl
      have hpieces : (ofSpelling ⟨.silent, piece :: rest⟩).pieces = piece :: rest := splitSlashes_intercalate hslash
      have hnames : piece ≠ "" ∧ piece ≠ "." := by simpa [isVoid] using hpiece
      rw [components_eq hpieces (.inl hnames.1), lead, if_neg hnames.1, if_neg hnames.2]
      simp [named, hpiece, Start.components]

/-! ## Parents -/

theorem trimPieces_eq (pieces : List String) : trimPieces pieces = pieces.rdropWhile isVoid := rfl

theorem trimPieces_isPrefix (pieces : List String) : trimPieces pieces <+: pieces :=
  List.rdropWhile_prefix isVoid pieces

theorem named_trimPieces (pieces : List String) : named (trimPieces pieces) = named pieces := by
  rw [trimPieces_eq]
  induction pieces using List.reverseRecOn with
  | nil => rfl
  | append_singleton pieces last ih =>
    by_cases hlast : isVoid last = true
    · rw [List.rdropWhile_concat_pos _ _ _ hlast, ih, named_append, named_void hlast, List.append_nil]
    · rw [List.rdropWhile_concat_neg _ _ _ hlast]

/-- Either no piece names anything, or the last piece that is left does. -/
theorem trimPieces_cases (pieces : List String) : trimPieces pieces = [] ∨
    ∃ before last, trimPieces pieces = before ++ [last] ∧ isVoid last = false ∧ before ++ [last] <+: pieces := by
  rcases List.eq_nil_or_concat (trimPieces pieces) with hnil | ⟨before, last, htrim⟩
  · exact .inl hnil
  · have hne : pieces.rdropWhile isVoid ≠ [] := by
      rw [← trimPieces_eq, htrim]
      simp
    have hlast := List.rdropWhile_last_not isVoid pieces hne
    simp only [← trimPieces_eq, htrim, List.concat_eq_append, List.getLast_append_singleton,
      Bool.not_eq_true] at hlast
    rw [List.concat_eq_append] at htrim
    exact .inr ⟨before, last, htrim, hlast, htrim ▸ trimPieces_isPrefix pieces⟩

theorem parent?_of_trimPieces_nil (h : trimPieces path.spelling.pieces = []) :
    path.parent? = if path.spelling.start = .here then some ⟨""⟩ else none := by
  unfold parent?
  dsimp only
  rw [h]
  cases path.spelling.start <;> rfl

theorem parent?_of_trimPieces {before : List String} {last : String}
    (h : trimPieces path.spelling.pieces = before ++ [last]) :
    path.parent? = some (ofSpelling ⟨path.spelling.start, trimPieces before⟩) := by
  unfold parent?
  dsimp only
  rw [h]
  split
  · rename_i heq
    simp at heq
  · rename_i heq _
    simp at heq
  · rw [List.dropLast_concat]

/-- A path without parent is empty or the root. -/
theorem components_of_parent?_none (h : path.parent? = none) : path.components = [] ∨ path.components = [.root] := by
  rcases trimPieces_cases path.spelling.pieces with hnil | ⟨before, last, htrim, _⟩
  · rw [parent?_of_trimPieces_nil hnil] at h
    rw [components_spelling, ← named_trimPieces, hnil]
    cases hstart : path.spelling.start with
    | root => exact .inr rfl
    | here => simp [hstart] at h
    | silent => exact .inl rfl
  · rw [parent?_of_trimPieces htrim] at h
    cases h

/-- The parent has all components of the path but the last one, which is never the root. -/
theorem components_of_parent? (h : path.parent? = some parent) :
    ∃ last, last ≠ .root ∧ path.components = parent.components ++ [last] := by
  obtain ⟨hslash, hsilent⟩ := sound_spelling path
  rcases trimPieces_cases path.spelling.pieces with hnil | ⟨before, last, htrim, hlast, hbefore⟩
  · rw [parent?_of_trimPieces_nil hnil] at h
    rw [components_spelling, ← named_trimPieces, hnil]
    split_ifs at h with hstart
    obtain rfl := Option.some.inj h
    exact ⟨.here, by decide, by rw [hstart]; rfl⟩
  · rw [parent?_of_trimPieces htrim] at h
    obtain rfl := Option.some.inj h
    have hkept : trimPieces before <+: path.spelling.pieces :=
      (trimPieces_isPrefix before).trans ((List.prefix_append _ _).trans hbefore)
    -- a first piece that names nothing would be the only piece, and there is also the last one
    have hfirst : path.spelling.start = .silent → ∀ {piece rest}, trimPieces before = piece :: rest →
        isVoid piece = false := by
      intro hstart piece rest hpieces
      obtain ⟨others, hothers⟩ := trimPieces_isPrefix before
      obtain ⟨more, hmore⟩ := hbefore
      rw [← hothers, hpieces] at hmore
      by_contra hvoid
      simpa using (hsilent hstart hmore.symm (Bool.not_eq_false _ ▸ hvoid)).2
    rw [components_ofSpelling (fun piece hpiece => hslash piece (hkept.subset hpiece)) hfirst, components_spelling,
      ← named_trimPieces path.spelling.pieces, htrim, named_trimPieces, named_append]
    refine ⟨Component.ofPiece last, ?_, by simp [named, hlast]⟩
    unfold Component.ofPiece
    split <;> exact fun h => by cases h

/-! ## The way up -/

theorem length_lead (piece : String) : (lead piece).length = 1 := by
  unfold lead
  split_ifs <;> rfl

theorem named_cons (piece : String) (pieces : List String) : named (piece :: pieces) = named [piece] ++ named pieces :=
  named_append [piece] pieces

theorem length_named_singleton_le (piece : String) : (named [piece]).length ≤ 1 := by
  rw [named, List.length_map]
  exact List.length_filter_le _ _

/-- A text has at least as many characters as pieces that name something. -/
theorem length_named_le : ∀ chars : List Char,
    (named ((splitSlashes chars).map String.ofList)).length ≤ chars.length
  | [] => by decide
  | c :: rest => by
    have ih := length_named_le rest
    obtain ⟨first, others, hothers⟩ := List.exists_cons_of_ne_nil (splitSlashes_ne_nil rest)
    by_cases hc : c = '/'
    · have hvoid : (named [String.ofList []]).length = 0 := by decide
      rw [splitSlashes, if_pos hc, List.map_cons, named_cons, List.length_append, List.length_cons]
      omega
    · have hone := length_named_singleton_le (String.ofList (c :: first))
      rw [hothers, List.map_cons, named_cons, List.length_append] at ih
      rw [splitSlashes, if_neg hc, hothers]
      simp only [List.map_cons]
      rw [named_cons, List.length_append, List.length_cons]
      omega

/-- A path has no more components than characters. -/
theorem length_components_le (path : FilePath) : path.components.length ≤ path.text.length := by
  obtain ⟨text⟩ := path
  by_cases hempty : text = ""
  · rw [components_of_empty hempty]
    exact Nat.zero_le _
  obtain ⟨piece, rest, hpieces, hfirst⟩ := exists_pieces_cons hempty
  rw [components_eq hpieces hfirst, List.length_append, length_lead, ← String.length_toList]
  -- the first character belongs to the first piece or is the slash behind it
  cases hchars : text.toList with
  | nil => exact absurd (String.toList_eq_nil_iff.1 hchars) hempty
  | cons c chars =>
    have hnamed := length_named_le chars
    obtain ⟨first, others, hothers⟩ := List.exists_cons_of_ne_nil (splitSlashes_ne_nil chars)
    rw [pieces, hchars, splitSlashes] at hpieces
    split at hpieces
    · obtain ⟨-, rfl⟩ := List.cons.inj hpieces
      rw [List.length_cons]
      omega
    · rw [hothers] at hpieces hnamed
      obtain ⟨-, rfl⟩ := List.cons.inj hpieces
      rw [List.map_cons, named_cons, List.length_append] at hnamed
      rw [List.length_cons]
      omega

theorem length_components_lt_of_parent? (h : path.parent? = some parent) :
    parent.components.length < path.components.length := by
  obtain ⟨last, _, hcomponents⟩ := components_of_parent? h
  rw [hcomponents, List.length_append, List.length_singleton]
  omega

/-- What holds of a path whenever it holds of its parent holds of all paths: going up ends. -/
theorem induction_parents {motive : FilePath → Prop}
    (h : ∀ path : FilePath, (∀ parent, path.parent? = some parent → motive parent) → motive path) (path : FilePath) :
    motive path :=
  h path fun parent hparent =>
    have := length_components_lt_of_parent? hparent
    induction_parents h parent
termination_by path.components.length

/-- A greater bound adds no ancestors. -/
theorem ancestorsUpTo_eq : ∀ {bound other : Nat} {path : FilePath}, path.components.length < bound →
    path.components.length < other → ancestorsUpTo bound path = ancestorsUpTo other path
  | 0, _, _, h, _ => absurd h (Nat.not_lt_zero _)
  | _, 0, _, _, h => absurd h (Nat.not_lt_zero _)
  | bound + 1, other + 1, path, hbound, hother => by
    rw [ancestorsUpTo, ancestorsUpTo]
    cases hparent : path.parent? with
    | none => rfl
    | some parent =>
      have hlt := length_components_lt_of_parent? hparent
      exact congrArg (path :: ·) (ancestorsUpTo_eq (by omega) (by omega))

/-- The ancestors of a path are the path and the ancestors of its parent, if it has one. -/
theorem ancestors_eq (path : FilePath) :
    path.ancestors = path :: (path.parent?.map ancestors).getD [] := by
  rw [ancestors, ancestorsUpTo]
  cases hparent : path.parent? with
  | none => rfl
  | some parent =>
    have hlt := length_components_lt_of_parent? hparent
    have hpath := length_components_le path
    have hbound := length_components_le parent
    exact congrArg (path :: ·) (ancestorsUpTo_eq (by omega) (by omega))

/-- What is cut off from a path on the way to an ancestor does not have the root in it. -/
theorem exists_cut_of_mem_ancestors {ancestor : FilePath} (h : ancestor ∈ path.ancestors) :
    ∃ cut, .root ∉ cut ∧ path.components = ancestor.components ++ cut := by
  induction path using induction_parents with
  | h path ih =>
    rw [ancestors_eq, List.mem_cons] at h
    rcases h with rfl | h
    · exact ⟨[], List.not_mem_nil, (List.append_nil _).symm⟩
    · cases hparent : path.parent? with
      | none => simp [hparent] at h
      | some parent =>
        rw [hparent] at h
        obtain ⟨cut, hcut, hancestor⟩ := ih parent hparent h
        obtain ⟨last, hlast, hcomponents⟩ := components_of_parent? hparent
        refine ⟨cut ++ [last], ?_, by rw [hcomponents, hancestor, List.append_assoc]⟩
        rw [List.mem_append, List.mem_singleton, not_or]
        exact ⟨hcut, Ne.symm hlast⟩

end FilePath

end QueryOutline
