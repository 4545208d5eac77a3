import QueryOutline.Proofs.References
import QueryOutline.Proofs.Render.Strokes

/-!
# Listed names that stand in the text

References pass from a node to children of it only, and rendering writes the text of every child into that of its node.
So what a step refers to can be seen in the text of its value.

* **Parts** (`Node.exists_shows_of_contains`): the text of a node shows that of every node that it contains.
* **One value** (`Node.Refers.shows`): the text of a value shows each name that it refers to.
* **Documents** (`Document.LastDeclaration.exists_step`, `Outline.listed_names_shown`): the last step that declares a
  name shows, between the name and the line below, every name on that line.
-/

namespace QueryOutline

/-- The part stands somewhere in the text. -/
def Shows (text part : String) : Prop := ∃ before after, text = before ++ part ++ after

namespace Node

/-! ## Parts -/

section Parts

variable (references : ReferenceMap) (width : Nat)

/-- The text of a node shows that of every node that it contains, at whichever depth that is rendered. -/
theorem exists_shows_of_contains {node target : Node} (h : node.Contains target) (depth : Nat) :
    ∃ inner, Shows (node.render references width depth) (target.render references width inner) := by
  -- a node that is contained is entered, and where it is entered its own text begins
  rw [← mem_visited_all, ← entered_strokes references node depth] at h
  obtain ⟨before, inner, after, hplace⟩ := mem_entered.1 h
  obtain ⟨rest, hrest⟩ := placed_strokes references width node depth before target inner after hplace
  refine ⟨inner, written width before, rest, ?_⟩
  rw [← written_strokes, hplace, written_append, written_enter, hrest, String.append_assoc]

/-! ## One value -/

/-- References pass to children only. -/
theorem Refers.contains {value : Node} {name : String} (h : value.Refers name) :
    value.Contains (.identifier (some name)) :=
  Relation.ReflTransGen.mono (fun _ _ hstep => (passes_iff.1 hstep).2) _ _ h

/-- **One value.** The text of a value shows each name that it refers to; the text of an identifier is its name,
whatever the depth. -/
theorem Refers.shows {value : Node} {name : String} (h : value.Refers name) (depth : Nat) :
    Shows (value.render references width depth) name := by
  obtain ⟨_, hshows⟩ := exists_shows_of_contains references width h.contains depth
  exact hshows

/-- The text of a node is the one of the node inside its wrappers. -/
theorem render_unwrap (depth : Nat) : ∀ node : Node,
    node.unwrap.render references width depth = node.render references width depth
  | wrapper (some inner) => render_unwrap depth inner
  | wrapper none => rfl
  | step .. => rfl
  | letBlock _ => rfl
  | list _ => rfl
  | function .. => rfl
  | arithmetic .. => rfl
  | chain .. => rfl
  | invoke _ => rfl
  | group _ => rfl
  | identifier _ => rfl
  | literal _ => rfl
  | unhandled _ => rfl
  | text _ => rfl

/-- The text of a node that declares a name. -/
theorem render_of_asStep? {node : Node} {name : String} {value? : Option Node} (h : node.asStep? = some (name, value?))
    (depth : Nat) :
    node.render references width depth =
      indentation width depth ++ name ++ " = " ++
        renderOption references width (depth + 1) "Unknown Value" value? ++ referenceLine (references.get name) := by
  have hunwrap : node.unwrap = step (some name) value? := by
    unfold asStep? at h
    split at h
    · rename_i hstep
      cases h
      exact hstep
    · cases h
  rw [← render_unwrap, hunwrap, render]
  rfl

end Parts

end Node

/-! ## Documents -/

/-- The last declaration of a name is made by an element of the list of steps after which none declares the name. -/
theorem Document.LastDeclaration.exists_step {document : Document} {name : String} {value? : Option Node}
    (h : document.LastDeclaration name value?) :
    ∃ before step after, document.steps = before ++ step :: after ∧ step.asStep? = some (name, value?) ∧
      ∀ later ∈ after, ∀ other, later.asStep? ≠ some (name, other) := by
  obtain ⟨_, _, hsplit, hlater⟩ := h
  obtain ⟨before, rest, hsteps, _, hrest⟩ := List.filterMap_eq_append_iff.1 hsplit
  obtain ⟨skipped, step, after, rfl, _, hstep, hafter⟩ := List.filterMap_eq_cons_iff.1 hrest
  refine ⟨before ++ skipped, step, after, by rw [hsteps, List.append_assoc], hstep, fun later hm other hother => ?_⟩
  exact hlater (name, other) (hafter ▸ List.mem_filterMap.2 ⟨later, hm, hother⟩) rfl

namespace Outline

/-- **Listed names are shown.** The text of a value shows every name that it refers to, among whatever names. So the
last step that declares a name shows, in the text of its value, every name on the line below it. -/
theorem listed_names_shown :
    (∀ (references : ReferenceMap) (width depth : Nat) (value : Node) (names : List String),
      ∀ listed ∈ stepReferences value names, Shows (value.render references width depth) listed) ∧
    ∀ (document : Document) (width : Nat),
      (∀ name ∈ document.stepNames, ∃ value?, document.LastDeclaration name value?) ∧
      ∀ name value?, document.LastDeclaration name value? →
        ∃ before step after shown, document.steps = before ++ step :: after ∧ step.asStep? = some (name, value?) ∧
          (∀ later ∈ after, ∀ other, later.asStep? ≠ some (name, other)) ∧
          renderNode { ofDocument document with width } step 0 =
            name ++ " = " ++ shown ++
              ("\n  - References: " ++ referenceList ((ReferenceMap.ofDocument document).get name) ++ "\n") ∧
          (∀ value ∈ value?, shown = renderNode { ofDocument document with width } value 1) ∧
          ∀ listed ∈ (ReferenceMap.ofDocument document).get name, Shows shown listed := by
  refine ⟨fun references width depth value names listed hlisted => ?_, fun document width =>
    ⟨fun name hname => document.exists_lastDeclaration hname, fun name value? hlast => ?_⟩⟩
  · exact (mem_stepReferences.1 hlisted).2.shows references width depth
  obtain ⟨before, step, after, hsteps, hstep, hlater⟩ := hlast.exists_step
  refine ⟨before, step, after,
    Node.renderOption (ReferenceMap.ofDocument document) width 1 "Unknown Value" value?, hsteps, hstep, hlater, ?_, ?_,
    fun listed hlisted => ?_⟩
  · exact Node.render_of_asStep? (ReferenceMap.ofDocument document) width hstep 0
  · rintro value rfl
    rfl
  · obtain ⟨value, hvalue, _, hrefers⟩ := (ReferenceMap.mem_get_iff document).1 hlisted
    obtain rfl : some value = value? := hvalue.unique hlast
    exact hrefers.shows (ReferenceMap.ofDocument document) width 1

/-- The value `Table.Join(Invoke(Source, List(Joined)))`. -/
def joinCall : Node :=
  .chain (some (.identifier (some "Table.Join")))
    [.invoke (some (.group [.wrapper (some (.identifier (some "Source"))), .list [.identifier (some "Joined")]]))]

/-- A document that joins its source with something; what stands in a list is no reference. -/
def joinedTables : Document :=
  .ofSteps [.step (some "Source") (some (.literal .null)), .wrapper (some (.step (some "Joined") (some joinCall)))]

theorem joinedTables_listed_names_shown :
    "Source" ∈ stepReferences joinCall ["Joined", "Source"] ∧ Shows (joinCall.render .empty 4 7) "Source" ∧
    "Joined" ∈ joinedTables.stepNames ∧ joinedTables.LastDeclaration "Joined" (some joinCall) ∧
    "Source" ∈ (ReferenceMap.ofDocument joinedTables).get "Joined" ∧
    ∃ shown, Shows shown "Source" ∧ ∃ step ∈ joinedTables.steps,
      renderNode { ofDocument joinedTables with width := 4 } step 0 =
        "Joined" ++ " = " ++ shown ++ ("\n  - References: " ++ referenceList ["Source"] ++ "\n") := by
  have hrefers : "Source" ∈ stepReferences joinCall ["Joined", "Source"] := by decide
  have hname : "Joined" ∈ joinedTables.stepNames := by decide +kernel
  have hget : (ReferenceMap.ofDocument joinedTables).get "Joined" = ["Source"] := by decide +kernel
  have hlisted : "Source" ∈ (ReferenceMap.ofDocument joinedTables).get "Joined" := hget ▸ List.mem_cons_self
  have hlast : joinedTables.LastDeclaration "Joined" (some joinCall) := ⟨[_], [], rfl, nofun⟩
  obtain ⟨hvalues, hdocuments⟩ := listed_names_shown
  obtain ⟨_, hsteps⟩ := hdocuments joinedTables 4
  obtain ⟨before, step, after, shown, hsplit, _, _, htext, _, hshows⟩ := hsteps "Joined" (some joinCall) hlast
  refine ⟨hrefers, hvalues .empty 4 7 joinCall _ "Source" hrefers, hname, hlast, hlisted, shown,
    hshows "Source" hlisted, step, ?_, hget ▸ htext⟩
  rw [hsplit]
  exact List.mem_append_right before List.mem_cons_self

end Outline

end QueryOutline
