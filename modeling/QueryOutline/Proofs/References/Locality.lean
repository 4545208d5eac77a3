import Mathlib.Data.List.Sort
import QueryOutline.Proofs.References

/-!
# References are local

The entry of a name in a reference map depends on the last declaration of that name and on which names are declared, and
on nothing else.

* **Two documents** (`ReferenceMap.get_congr`): the same names are declared (`Document.SameNames`) and the name is
  declared alike (`Document.SameLast`).
* **Edits** (`Edit`, `Edit.sameNames`, `Edit.sameLast`): other orders, elements that declare nothing, declarations that
  are superseded and values of other names leave both as they are.
* **Rearranged steps** (`Rearranged`, `ReferenceMap.ofDocument_rearranged`): when all declarations of one name keep
  their order, the whole map stays.
-/

namespace QueryOutline

/-! ## Lists with the same entries -/

namespace Names

/-- Two increasing lists of the same names are the same list. -/
theorem Increasing.eq_of_mem_iff {names more : List String} (hnames : Increasing names) (hmore : Increasing more)
    (h : ∀ name, name ∈ names ↔ name ∈ more) : names = more :=
  List.Pairwise.eq_of_mem_iff hnames hmore h

end Names

namespace Keyed

variable {α : Type}

/-- Entries are determined by their keys, each once, and by what is found under these. -/
theorem eq_of_lookup : ∀ {entries more : List (String × α)}, (entries.map Prod.fst).Nodup →
    entries.map Prod.fst = more.map Prod.fst → (∀ key, entries.lookup key = more.lookup key) → entries = more
  | [], [], _, _, _ => rfl
  | [], _ :: _, _, hkeys, _ => by simp at hkeys
  | _ :: _, [], _, hkeys, _ => by simp at hkeys
  | (key, value) :: entries, (key', value') :: more, hnodup, hkeys, h => by
    simp only [List.map_cons, List.cons.injEq] at hkeys
    obtain ⟨rfl, hkeys⟩ := hkeys
    simp only [List.map_cons, List.nodup_cons] at hnodup
    obtain ⟨hnotin, hnodup⟩ := hnodup
    have hvalue : value = value' := by
      have hfound := h key
      simp only [lookup_cons_eq, if_true, Option.some.injEq] at hfound
      exact hfound
    have hrest : ∀ other, entries.lookup other = more.lookup other := by
      intro other
      by_cases hother : other = key
      · -- the first key does not occur again, in neither of the lists
        have hentries : ¬(entries.lookup key).isSome = true := fun hsome => hnotin (isSome_lookup_iff.1 hsome)
        have hmore : ¬(more.lookup key).isSome = true := fun hsome =>
          hnotin (hkeys ▸ isSome_lookup_iff.1 hsome)
        rw [hother, Option.not_isSome_iff_eq_none.1 hentries, Option.not_isSome_iff_eq_none.1 hmore]
      · have hfound := h other
        simp only [lookup_cons_eq, if_neg hother] at hfound
        exact hfound
    rw [hvalue, eq_of_lookup hnodup hkeys hrest]

end Keyed

/-! ## Two documents -/

namespace Document

/-- Both documents declare the same names. -/
def SameNames (first second : Document) : Prop := ∀ name, name ∈ first.stepNames ↔ name ∈ second.stepNames

/-- The last declarations of the name have the same value or both none, or neither document declares the name. -/
def SameLast (first second : Document) (name : String) : Prop :=
  ∀ value?, first.LastDeclaration name value? ↔ second.LastDeclaration name value?

theorem SameNames.stepNames_eq {first second : Document} (h : SameNames first second) :
    first.stepNames = second.stepNames :=
  first.stepNames_increasing.eq_of_mem_iff second.stepNames_increasing h

theorem sameLast_iff {first second : Document} {name : String} :
    SameLast first second name ↔ first.namedSteps.reverse.lookup name = second.namedSteps.reverse.lookup name := by
  simp only [SameLast, lastDeclaration_iff]
  constructor
  · intro h
    exact Option.ext h
  · intro h value?
    rw [h]

end Document

namespace ReferenceMap

variable {first second : Document}

theorem lookup_congr {name : String} (hnames : first.SameNames second) (hlast : first.SameLast second name) :
    (ofDocument first).entries.lookup name = (ofDocument second).entries.lookup name := by
  rw [lookup_ofDocument, lookup_ofDocument, hnames.stepNames_eq, Document.sameLast_iff.1 hlast]

/-- **Two documents.** The entry of a name is the same in both. -/
theorem get_congr {name : String} (hnames : first.SameNames second) (hlast : first.SameLast second name) :
    (ofDocument first).get name = (ofDocument second).get name := by
  rw [get, get, lookup_congr hnames hlast]

/-- Documents that agree on all names have the same map. -/
theorem ofDocument_congr (hnames : first.SameNames second) (hlast : ∀ name, first.SameLast second name) :
    ofDocument first = ofDocument second := by
  have hkeys : (ofDocument first).entries.map Prod.fst = (ofDocument second).entries.map Prod.fst := by
    rw [keys_ofDocument, keys_ofDocument, hnames.stepNames_eq]
  have hnodup : ((ofDocument first).entries.map Prod.fst).Nodup := by
    rw [keys_ofDocument]
    exact first.stepNames_increasing.nodup
  have hentries := Keyed.eq_of_lookup hnodup hkeys fun name => lookup_congr hnames (hlast name)
  rw [← ReferenceMap.mk.injEq] at hentries
  exact hentries

end ReferenceMap

/-! ## Declarations in a list of steps -/

namespace Node

/-- Whether the node declares the name. -/
def declares (name : String) (node : Node) : Bool := node.asStep?.map Prod.fst = some name

theorem declares_iff {name : String} {node : Node} :
    node.declares name = true ↔ ∃ value?, node.asStep? = some (name, value?) := by
  simp [declares]

/-- What is found under a name comes from the elements that declare it. -/
theorem lookup_declarations (name : String) : ∀ nodes : List Node,
    (nodes.filterMap asStep?).lookup name = ((nodes.filter (declares name)).filterMap asStep?).lookup name
  | [] => rfl
  | node :: nodes => by
    have ih := lookup_declarations name nodes
    cases hnode : node.asStep? with
    | none =>
      have hdeclares : ¬node.declares name = true := by simp [declares, hnode]
      rw [List.filterMap_cons_none hnode, List.filter_cons_of_neg hdeclares, ih]
    | some declaration =>
      obtain ⟨other, value?⟩ := declaration
      by_cases hother : name = other
      · have hdeclares : node.declares name = true := by simp [declares, hnode, hother]
        rw [List.filterMap_cons_some hnode, List.filter_cons_of_pos hdeclares, List.filterMap_cons_some hnode,
          Keyed.lookup_cons_eq, Keyed.lookup_cons_eq, if_pos hother, if_pos hother]
      · have hdeclares : ¬node.declares name = true := by simp [declares, hnode, Ne.symm hother]
        rw [List.filterMap_cons_some hnode, List.filter_cons_of_neg hdeclares, Keyed.lookup_cons_eq, if_neg hother, ih]

end Node

namespace Document

variable {steps more : List Node} {name : String}

theorem namedSteps_ofSteps (steps : List Node) : (ofSteps steps).namedSteps = steps.filterMap Node.asStep? := rfl

theorem mem_stepNames_ofSteps : name ∈ (ofSteps steps).stepNames ↔ ∃ step ∈ steps, step.declares name = true := by
  simp only [mem_stepNames, namedSteps_ofSteps, List.mem_filterMap, Node.declares_iff]
  constructor
  · rintro ⟨value?, step, hmem, hstep⟩
    exact ⟨step, hmem, value?, hstep⟩
  · rintro ⟨step, hmem, value?, hstep⟩
    exact ⟨value?, step, hmem, hstep⟩

/-- A name whose declarations are the same, in the same order, is declared last alike. -/
theorem sameLast_of_filter (h : steps.filter (Node.declares name) = more.filter (Node.declares name)) :
    (ofSteps steps).SameLast (ofSteps more) name := by
  rw [sameLast_iff, namedSteps_ofSteps, namedSteps_ofSteps, ← List.filterMap_reverse, ← List.filterMap_reverse,
    Node.lookup_declarations name steps.reverse, Node.lookup_declarations name more.reverse, List.filter_reverse,
    List.filter_reverse, h]

/-- The last declaration is looked for in the later steps first. -/
theorem lookup_last_append (before after : List Node) :
    (ofSteps (before ++ after)).namedSteps.reverse.lookup name =
      ((ofSteps after).namedSteps.reverse.lookup name).or ((ofSteps before).namedSteps.reverse.lookup name) := by
  simp only [namedSteps_ofSteps, List.filterMap_append, List.reverse_append, List.lookup_append]

/-- A step of another name does not count. -/
theorem lookup_last_cons_of_ne {step : Node} (hstep : step.declares name = false) (after : List Node) :
    (ofSteps (step :: after)).namedSteps.reverse.lookup name = (ofSteps after).namedSteps.reverse.lookup name := by
  have hfilter : (step :: after).filter (Node.declares name) = after.filter (Node.declares name) := by
    rw [List.filter_cons_of_neg (by simp [hstep])]
  exact sameLast_iff.1 (sameLast_of_filter hfilter)

theorem isSome_lookup_last (steps : List Node) :
    ((ofSteps steps).namedSteps.reverse.lookup name).isSome = true ↔ ∃ step ∈ steps, step.declares name = true := by
  rw [Keyed.isSome_lookup_iff, List.map_reverse, List.mem_reverse, ← mem_stepNames_ofSteps, stepNames,
    Names.mem_ofList]

end Document

/-! ## Edits -/

/-- An edit of a list of steps that should not matter to the entry of a name. -/
inductive Edit (name : String) : List Node → List Node → Prop where
  /-- The elements stand in another order, in which the declarations of the name keep theirs. -/
  | reorder {steps moved : List Node} (hperm : steps.Perm moved)
    (horder : steps.filter (Node.declares name) = moved.filter (Node.declares name)) : Edit name steps moved
  /-- There is one more element, which declares nothing. -/
  | insertPlain {before after : List Node} {element : Node} (hplain : element.asStep? = none) :
    Edit name (before ++ after) (before ++ element :: after)
  /-- There is one more declaration, whose name is declared again below. -/
  | insertSuperseded {before after : List Node} {declaration : Node} {other : String} {value? : Option Node}
    (hdeclaration : declaration.asStep? = some (other, value?))
    (hlater : ∃ later ∈ after, later.declares other = true) :
    Edit name (before ++ after) (before ++ declaration :: after)
  /-- A declaration of another name has another value. -/
  | setOther {before after : List Node} {declaration edited : Node} {other : String} {value? edited? : Option Node}
    (hother : other ≠ name) (hdeclaration : declaration.asStep? = some (other, value?))
    (hedited : edited.asStep? = some (other, edited?)) :
    Edit name (before ++ declaration :: after) (before ++ edited :: after)

namespace Edit

variable {name : String} {steps edited : List Node}

/-- The declared names of a list with one more element in the middle. -/
theorem exists_declares_middle {before after : List Node} {element : Node} {name : String} :
    (∃ step ∈ before ++ element :: after, step.declares name = true) ↔
      element.declares name = true ∨ ∃ step ∈ before ++ after, step.declares name = true := by
  constructor
  · rintro ⟨step, hmem, hstep⟩
    simp only [List.mem_append, List.mem_cons] at hmem ⊢
    rcases hmem with hmem | rfl | hmem
    · exact .inr ⟨step, .inl hmem, hstep⟩
    · exact .inl hstep
    · exact .inr ⟨step, .inr hmem, hstep⟩
  · rintro (hstep | ⟨step, hmem, hstep⟩)
    · exact ⟨element, List.mem_append_right before List.mem_cons_self, hstep⟩
    · refine ⟨step, ?_, hstep⟩
      rcases List.mem_append.1 hmem with hmem | hmem
      · exact List.mem_append_left _ hmem
      · exact List.mem_append_right before (List.mem_cons_of_mem _ hmem)

/-- An edit leaves the set of declared names as it is. -/
theorem sameNames (h : Edit name steps edited) : (Document.ofSteps steps).SameNames (Document.ofSteps edited) := by
  intro declared
  simp only [Document.mem_stepNames_ofSteps]
  cases h with
  | reorder hperm _ =>
    constructor
    · rintro ⟨step, hmem, hstep⟩
      exact ⟨step, hperm.mem_iff.1 hmem, hstep⟩
    · rintro ⟨step, hmem, hstep⟩
      exact ⟨step, hperm.mem_iff.2 hmem, hstep⟩
  | insertPlain hplain =>
    rw [exists_declares_middle]
    simp [Node.declares, hplain]
  | @insertSuperseded before after declaration other value? hdeclaration hlater =>
    rw [exists_declares_middle]
    constructor
    · exact .inr
    · rintro (hdeclares | hdeclared)
      · obtain ⟨later, hmem, hlater⟩ := hlater
        have hother : other = declared := by simpa [Node.declares, hdeclaration] using hdeclares
        exact ⟨later, List.mem_append_right before hmem, hother ▸ hlater⟩
      · exact hdeclared
  | setOther _ hdeclaration hedited =>
    rw [exists_declares_middle, exists_declares_middle]
    simp [Node.declares, hdeclaration, hedited]

/-- An edit leaves the last declaration of the name as it is. -/
theorem sameLast (h : Edit name steps edited) :
    (Document.ofSteps steps).SameLast (Document.ofSteps edited) name := by
  cases h with
  | reorder _ horder => exact Document.sameLast_of_filter horder
  | @insertPlain before after element hplain =>
    have hdeclares : element.declares name = false := by simp [Node.declares, hplain]
    rw [Document.sameLast_iff, Document.lookup_last_append, Document.lookup_last_append,
      Document.lookup_last_cons_of_ne hdeclares]
  | @insertSuperseded before after declaration other value? hdeclaration hlater =>
    rw [Document.sameLast_iff, Document.lookup_last_append, Document.lookup_last_append]
    by_cases hother : other = name
    · -- the name is declared again below, and what stands above that does not count
      subst hother
      obtain ⟨last, hlast⟩ := Option.isSome_iff_exists.1 ((Document.isSome_lookup_last after).2 hlater)
      have hcons : (Document.ofSteps (declaration :: after)).namedSteps.reverse.lookup other = some last := by
        rw [← List.singleton_append, Document.lookup_last_append, hlast, Option.some_or]
      rw [hlast, hcons]
    · have hdeclares : declaration.declares name = false := by simp [Node.declares, hdeclaration, hother]
      rw [Document.lookup_last_cons_of_ne hdeclares]
  | @setOther before after declaration edited other value? edited? hother hdeclaration hedited =>
    have hdeclares : declaration.declares name = false := by simp [Node.declares, hdeclaration, hother]
    have hdeclares' : edited.declares name = false := by simp [Node.declares, hedited, hother]
    rw [Document.sameLast_iff, Document.lookup_last_append, Document.lookup_last_append,
      Document.lookup_last_cons_of_ne hdeclares, Document.lookup_last_cons_of_ne hdeclares']

/-- One edit does not change the entry of the name. -/
theorem get_eq (h : Edit name steps edited) :
    (ReferenceMap.ofDocument (.ofSteps steps)).get name = (ReferenceMap.ofDocument (.ofSteps edited)).get name :=
  ReferenceMap.get_congr h.sameNames h.sameLast

end Edit

/-! ## Rearranged steps -/

/-- The same elements in another order, in which declarations of one name keep their order among themselves. -/
structure Rearranged (steps moved : List Node) : Prop where
  perm : steps.Perm moved
  order : ∀ name, steps.filter (Node.declares name) = moved.filter (Node.declares name)

namespace ReferenceMap

theorem ofDocument_rearranged {steps moved : List Node} (h : Rearranged steps moved) :
    ofDocument (.ofSteps steps) = ofDocument (.ofSteps moved) := by
  apply ofDocument_congr
  · -- a rearrangement is an edit, whatever the name
    have hedit : Edit "" steps moved := .reorder h.perm (h.order "")
    exact hedit.sameNames
  · intro name
    exact Document.sameLast_of_filter (h.order name)

/-- Any number of edits, made or taken back, does not change the entry of the name. -/
theorem get_of_edits {name : String} {steps edited : List Node} (h : Relation.EqvGen (Edit name) steps edited) :
    (ofDocument (.ofSteps steps)).get name = (ofDocument (.ofSteps edited)).get name := by
  induction h with
  | rel steps edited hedit => exact hedit.get_eq
  | refl steps => rfl
  | symm steps edited _ ih => exact ih.symm
  | trans steps edited more _ _ ih ih' => exact ih.trans ih'

/-- **References are local.** Two documents that declare the same names, and that declare a name last alike, have the
same entry for it. So the entry of a name does not change when steps are reordered, when elements that declare nothing
or declarations that are superseded come or go, or when the values of other names change, as often as one likes. And the
whole map stays when steps are rearranged such that declarations of one name keep their order. -/
theorem ofDocument_local :
    (∀ (first second : Document) (name : String), first.SameNames second → first.SameLast second name →
      (ofDocument first).get name = (ofDocument second).get name) ∧
    (∀ (name : String) (steps edited : List Node), Relation.EqvGen (Edit name) steps edited →
      (ofDocument (.ofSteps steps)).get name = (ofDocument (.ofSteps edited)).get name) ∧
    ∀ steps moved : List Node, Rearranged steps moved → ofDocument (.ofSteps steps) = ofDocument (.ofSteps moved) := by
  refine ⟨?_, ?_, ?_⟩
  · intro first second name hnames hlast
    exact get_congr hnames hlast
  · intro name steps edited hedits
    exact get_of_edits hedits
  · intro steps moved hmoved
    exact ofDocument_rearranged hmoved

/-- Three steps, of which `b` refers to `a` and `c` to `b`. -/
def plainSteps : List Node :=
  [.step (some "a") none, .step (some "b") (some (.identifier (some "a"))),
    .step (some "c") (some (.identifier (some "b")))]

/-- The same steps backwards, with a comment in front, another declaration of `b` above the one that counts, and no
value for `c`. -/
def busySteps : List Node :=
  [.unhandled "Comment", .step (some "b") none, .step (some "c") none,
    .step (some "b") (some (.identifier (some "a"))), .step (some "a") none]

/-- The second list comes from the first by four edits, one of each kind. -/
theorem edits_busySteps : Relation.EqvGen (Edit "b") plainSteps busySteps := by
  have hreorder : Edit "b" plainSteps plainSteps.reverse := by
    refine .reorder (List.reverse_perm _).symm ?_
    simp [plainSteps, Node.declares, Node.asStep?, Node.unwrap]
  have hset : Edit "b" ([] ++ plainSteps.reverse) ([] ++ .step (some "c") none :: plainSteps.reverse.tail) :=
    .setOther (show "c" ≠ "b" by decide) rfl rfl
  have hinsert : Edit "b" ([] ++ .step (some "c") none :: plainSteps.reverse.tail) ([] ++ busySteps.tail) :=
    .insertSuperseded rfl ⟨.step (some "b") (some (.identifier (some "a"))), .tail _ (.head _), by decide⟩
  have hplain : Edit "b" ([] ++ busySteps.tail) ([] ++ busySteps) := .insertPlain rfl
  exact (((Relation.EqvGen.rel _ _ hreorder).trans _ _ _ (.rel _ _ hset)).trans _ _ _ (.rel _ _ hinsert)).trans _ _ _
    (.rel _ _ hplain)

/-- In the second list the upper declaration of `b` may go below the one of `c`. -/
theorem rearranged_busySteps : Rearranged busySteps
    [.unhandled "Comment", .step (some "c") none, .step (some "b") none,
      .step (some "b") (some (.identifier (some "a"))), .step (some "a") none] := by
  refine ⟨.cons _ (.swap _ _ _), fun name => ?_⟩
  by_cases hb : "b" = name
  · subst hb
    simp [busySteps, Node.declares, Node.asStep?, Node.unwrap]
  · have hdeclares : Node.declares name (.step (some "b") none) = false := by
      simp [Node.declares, Node.asStep?, Node.unwrap, hb]
    simp [busySteps, List.filter_cons, hdeclares]

theorem busySteps_local :
    (Document.ofSteps plainSteps).SameNames (.ofSteps busySteps) ∧
    (Document.ofSteps plainSteps).SameLast (.ofSteps busySteps) "b" ∧
    (ofDocument (.ofSteps plainSteps)).get "b" = ["a"] ∧ (ofDocument (.ofSteps busySteps)).get "b" = ["a"] ∧
    Relation.EqvGen (Edit "b") plainSteps busySteps ∧
    (ofDocument (.ofSteps plainSteps)).get "b" = (ofDocument (.ofSteps busySteps)).get "b" ∧
    ofDocument (.ofSteps busySteps) = ofDocument (.ofSteps
      [.unhandled "Comment", .step (some "c") none, .step (some "b") none,
        .step (some "b") (some (.identifier (some "a"))), .step (some "a") none]) := by
  have hplain : (ofDocument (.ofSteps plainSteps)).get "b" = ["a"] := by decide +kernel
  have hnames : (Document.ofSteps plainSteps).SameNames (.ofSteps busySteps) := by
    have heq : (Document.ofSteps plainSteps).stepNames = (Document.ofSteps busySteps).stepNames := by decide +kernel
    intro name
    rw [heq]
  have hlast : (Document.ofSteps plainSteps).SameLast (.ofSteps busySteps) "b" := by
    rw [Document.sameLast_iff]
    rfl
  obtain ⟨hdocuments, hedits, hmoved⟩ := ofDocument_local
  have hbusy := hdocuments _ _ "b" hnames hlast
  exact ⟨hnames, hlast, hplain, hbusy.symm.trans hplain, edits_busySteps, hedits "b" _ _ edits_busySteps,
    hmoved _ _ rearranged_busySteps⟩

end ReferenceMap

end QueryOutline
