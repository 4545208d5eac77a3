import QueryOutline.Proofs.Node.Wrappers
import QueryOutline.Proofs.References
import QueryOutline.Proofs.Render.Strokes
import QueryOutline.Proofs.Text.Quoted

/-!
# The line of references below a step

Rendering looks the name of a step up in the reference map and writes the names found there on a line below the step. A
step without a name is looked up under a placeholder, and a step inside a value under a name that may be declared at the
top level as well.

* **The line** (`Node.showsBelow_iff`): the names on the line are those of the map's entry, and no others.
* **Reports** (`Outline.stepReports_show_references`): the names in the report of a step are those on its line, unless
  the step has no name and the placeholder is declared with references (`Outline.namelessStep_hides_references`).
* **Steps at any depth** (`Outline.shown_references`): the names on the line of a step are identifiers of its own value
  when it stands at the top level or its name is not declared there; otherwise they are the names of the declared step,
  which need not be (`Outline.shadowedStep_shows_foreign_reference`).
-/

namespace QueryOutline

/-! ## The line -/

theorem referenceLine_injective : Function.Injective referenceLine := by
  intro names others h
  unfold referenceLine at h
  rw [String.append_left_inj, String.append_right_inj] at h
  exact referenceList_injective h

/-- A line with names closes with a bracket. -/
theorem exists_referenceLine_cons (name : String) (names : List String) :
    ∃ before, referenceLine (name :: names) = before ++ "]\n" := by
  refine ⟨"\n  - References: " ++ ("[" ++ ", ".intercalate ((name :: names).map quoteName)), ?_⟩
  unfold referenceLine referenceList
  simp only [String.append_assoc]
  rfl

/-- So it does not end like the line without names. -/
theorem eq_nil_of_append_referenceLine {head before : String} {names : List String}
    (h : head ++ referenceLine names = before ++ referenceLine []) : names = [] := by
  cases names with
  | nil => rfl
  | cons name names =>
    exfalso
    obtain ⟨front, hfront⟩ := exists_referenceLine_cons name names
    have hnone : referenceLine [] = "\n  - References: Non" ++ "e\n" := by decide
    have hchars : (head ++ (front ++ "]\n")).toList = (before ++ ("\n  - References: Non" ++ "e\n")).toList := by
      rw [← hfront, ← hnone, h]
    simp only [String.toList_append, ← List.append_assoc] at hchars
    have hlast : "]\n".toList = "e\n".toList := (List.append_inj' hchars rfl).2
    exact absurd hlast (by decide)

namespace Node

/-- The names stand on the line that closes the rendering of the step. -/
def ShowsBelow (references : ReferenceMap) (width depth : Nat) (key : Option String) (value : Option Node)
    (names : List String) : Prop :=
  (step key value).render references width depth =
    indentation width depth ++ key.getD unknownKey ++ " = " ++
      renderOption references width (depth + 1) "Unknown Value" value ++
      ("\n  - References: " ++ referenceList names ++ "\n")

/-- The names on the line are those that the map has for the step's name or, for a step without one, for the
placeholder. -/
theorem showsBelow_iff {references : ReferenceMap} {width depth : Nat} {key : Option String} {value : Option Node}
    {names : List String} :
    ShowsBelow references width depth key value names ↔ names = references.get (key.getD unknownKey) := by
  unfold ShowsBelow
  rw [render]
  constructor
  · intro h
    rw [String.append_right_inj] at h
    exact (referenceLine_injective h).symm
  · rintro rfl
    rfl

/-- The node inside so many wrappers. -/
def wrapped (node : Node) : Nat → Node
  | 0 => node
  | count + 1 => wrapper (some (wrapped node count))

theorem unwrap_wrapped (node : Node) : ∀ count, (wrapped node count).unwrap = node.unwrap
  | 0 => rfl
  | count + 1 => unwrap_wrapped node count

theorem render_wrapped (references : ReferenceMap) (width depth : Nat) (node : Node) : ∀ count,
    (wrapped node count).render references width depth = node.render references width depth
  | 0 => rfl
  | count + 1 => render_wrapped references width depth node count

theorem asStep?_wrapped (key : Option String) (value : Option Node) (count : Nat) :
    (wrapped (step key value) count).asStep? = key.map fun name => (name, value) := by
  rw [asStep?, unwrap_wrapped]
  cases key <;> rfl

end Node

/-! ## Reports -/

/-- The text of the report ends with the line of its references. -/
def StepReport.ShowsReferences (report : StepReport) : Prop :=
  ∃ before, report.rendered = before ++ ("\n  - References: " ++ referenceList report.references ++ "\n")

namespace Outline

/-- The text consists of the texts of the reports. -/
theorem text_eq_rendered (outline : Outline) :
    outline.text = "\n".intercalate (outline.stepReports.map StepReport.rendered) := by
  rw [text, stepReports, List.map_map]
  rfl

/-- A report lists what the map has for the name, and the text ends with what it has for the name or the placeholder. -/
theorem stepReport_wrapped (outline : Outline) (key : Option String) (value : Option Node) (count : Nat) :
    ∃ before, outline.stepReport (Node.wrapped (.step key value) count) =
      ⟨key, (key.map outline.references.get).getD [],
        before ++ referenceLine (outline.references.get (key.getD unknownKey))⟩ := by
  refine ⟨indentation outline.width 0 ++ key.getD unknownKey ++ " = " ++
    Node.renderOption outline.references outline.width (0 + 1) "Unknown Value" value, ?_⟩
  have hname : (Node.wrapped (.step key value) count).asStep?.map Prod.fst = key := by
    rw [Node.asStep?_wrapped, Option.map_map]
    exact Option.map_id'
  rw [stepReport, hname, renderNode, Node.render_wrapped, Node.render]

/-- The report of a step shows its references, unless it has no name and the placeholder has references. -/
theorem showsReferences_iff (outline : Outline) (key : Option String) (value : Option Node) (count : Nat) :
    (outline.stepReport (Node.wrapped (.step key value) count)).ShowsReferences ↔
      key ≠ none ∨ outline.references.get unknownKey = [] := by
  obtain ⟨before, hreport⟩ := outline.stepReport_wrapped key value count
  rw [hreport]
  cases key with
  | some name => exact iff_of_true ⟨before, rfl⟩ (.inl (Option.some_ne_none name))
  | none =>
    constructor
    · rintro ⟨other, h⟩
      exact .inr (eq_nil_of_append_referenceLine h)
    · rintro (h | h)
      · exact absurd rfl h
      · exact ⟨before, by simp only [Option.getD_none, h]; rfl⟩

/-- **Reports and text.** The text of an outline joins the texts of its reports. The report of an element that is a step
inside any number of wrappers ends with the line of the references that it lists, except for a step without a name in a
document that declares the placeholder as a name and gives it references. -/
theorem stepReports_show_references (document : Document) (width : Nat) (h₁ : 1 ≤ width) (h₂ : width ≤ 8) :
    ∃ outline, (ofDocument document).withWidth width = .ok outline ∧
      outline.text = "\n".intercalate (outline.stepReports.map StepReport.rendered) ∧
      ∀ (place count : Nat) (key : Option String) (value : Option Node),
        document.steps[place]? = some (Node.wrapped (.step key value) count) →
        ∃ report, outline.stepReports[place]? = some report ∧ report.name = key ∧
          (report.ShowsReferences ↔ key ≠ none ∨ (ReferenceMap.ofDocument document).get unknownKey = []) := by
  have hreport (key : Option String) (value : Option Node) (count : Nat) :=
    showsReferences_iff { ofDocument document with width } key value count
  refine ⟨{ ofDocument document with width }, withWidth_of_le h₁ h₂, text_eq_rendered _,
    fun place count key value hplace => ⟨_, ?_, ?_, hreport key value count⟩⟩
  · have hsteps : (ofDocument document).document.steps[place]? = some (Node.wrapped (.step key value) count) := hplace
    rw [stepReports, List.getElem?_map, hsteps, Option.map_some]
  · obtain ⟨before, hwhole⟩ := stepReport_wrapped { ofDocument document with width } key value count
    rw [hwhole]

/-- A step of the placeholder's name that refers to itself, and a step without a name. -/
def namelessStep : Document :=
  .ofSteps [.step (some unknownKey) (some (.identifier (some unknownKey))), .step none none]

theorem namelessStep_shows_declared_references :
    1 ≤ 2 ∧ 2 ≤ 8 ∧
    ∃ outline, (ofDocument namelessStep).withWidth 2 = .ok outline ∧
      outline.text = "\n".intercalate (outline.stepReports.map StepReport.rendered) ∧
      namelessStep.steps[0]? =
        some (Node.wrapped (.step (some unknownKey) (some (.identifier (some unknownKey)))) 0) ∧
      ∃ report, outline.stepReports[0]? = some report ∧ report.name = some unknownKey ∧ report.ShowsReferences := by
  obtain ⟨outline, houtline, htext, hreports⟩ :=
    stepReports_show_references namelessStep 2 (by decide) (by decide)
  have hplace : namelessStep.steps[0]? =
      some (Node.wrapped (.step (some unknownKey) (some (.identifier (some unknownKey)))) 0) := rfl
  obtain ⟨report, hreport, hname, hshows⟩ := hreports 0 0 _ _ hplace
  exact ⟨by decide, by decide, outline, houtline, htext, hplace, report, hreport, hname,
    hshows.2 (.inl (Option.some_ne_none unknownKey))⟩

/-- The report of the second step lists no references, and its text shows one. -/
theorem namelessStep_hides_references :
    ∃ outline, (ofDocument namelessStep).withWidth 2 = .ok outline ∧
      namelessStep.steps[1]? = some (Node.wrapped (.step none none) 0) ∧
      ∃ report, outline.stepReports[1]? = some report ∧ report.references = [] ∧
        report.rendered = "Unknown Key = Unknown Value\n  - References: ['Unknown Key']\n" ∧
        ¬report.ShowsReferences := by
  have hreferences : (ofDocument namelessStep).references.get unknownKey = [unknownKey] := by decide +kernel
  refine ⟨_, withWidth_of_le (by decide) (by decide), rfl, _, rfl, rfl, by decide +kernel, ?_⟩
  intro hshows
  rcases (showsReferences_iff { ofDocument namelessStep with width := 2 } none none 0).1 hshows with h | h
  · exact h rfl
  · rw [hreferences] at h
    cases h

end Outline

/-! ## Steps at any depth -/

namespace Node

/-- Every one of the names is an identifier of the value. -/
def RefersToAll (value : Option Node) (names : List String) : Prop :=
  ∀ name ∈ names, ∃ own ∈ value, name ∈ own.collectIdentifiers

end Node

section Distinct

variable {document : Document} (hnames : (document.namedSteps.map Prod.fst).Nodup)

theorem mem_namedSteps_of_wrapped {key : String} {value : Option Node} {count : Nat}
    (h : Node.wrapped (.step (some key) value) count ∈ document.steps) : (key, value) ∈ document.namedSteps :=
  List.mem_filterMap.2 ⟨_, h, Node.asStep?_wrapped (some key) value count⟩

include hnames

/-- A value has the names of an entry as identifiers exactly when it refers to what the declared value refers to. -/
theorem refersToAll_get_iff {key : String} {value : Option Node} :
    Node.RefersToAll value ((ReferenceMap.ofDocument document).get key) ↔
      ∀ declared, (key, some declared) ∈ document.namedSteps →
        ∀ name ∈ document.stepNames, declared.Refers name → ∃ own ∈ value, own.Refers name := by
  simp only [Node.RefersToAll, ReferenceMap.mem_get_iff, document.lastDeclaration_iff_mem hnames,
    Node.mem_collectIdentifiers]
  constructor
  · intro h declared hdeclared name hname hrefers
    exact h name ⟨declared, hdeclared, hname, hrefers⟩
  · rintro h name ⟨declared, hdeclared, hname, hrefers⟩
    exact h declared hdeclared name hname hrefers

/-- What is declared at the top level has the names of its entry as identifiers. -/
theorem refersToAll_get_of_mem {key : String} {value : Option Node} (h : (key, value) ∈ document.namedSteps) :
    Node.RefersToAll value ((ReferenceMap.ofDocument document).get key) := by
  refine (refersToAll_get_iff hnames).2 fun declared hdeclared name _ hrefers => ?_
  have hvalue : value = some declared :=
    ((document.lastDeclaration_iff_mem hnames).2 h).unique ((document.lastDeclaration_iff_mem hnames).2 hdeclared)
  exact ⟨declared, hvalue, hrefers⟩

/-- A name that is not declared at the top level has no names below it. -/
theorem refersToAll_get_of_notMem {key : String} {value : Option Node} (h : key ∉ document.stepNames) :
    Node.RefersToAll value ((ReferenceMap.ofDocument document).get key) := by
  refine (refersToAll_get_iff hnames).2 fun declared hdeclared => ?_
  exact absurd (document.mem_stepNames.2 ⟨_, hdeclared⟩) h

end Distinct

namespace Outline

/-- **References and the step above them.** In a document whose names are distinct, let a step with a name be rendered
at any place. The text there ends with a line of names, and these are identifiers of the step's own value exactly when
it refers to every declared name to which the step of that name at the top level refers, if there is one. So they are
when the step itself stands at the top level, inside any number of wrappers, and when its name is not declared there. -/
theorem shown_references (document : Document) (hnames : (document.namedSteps.map Prod.fst).Nodup) (width : Nat)
    (h₁ : 1 ≤ width) (h₂ : width ≤ 8) :
    ∃ outline, (ofDocument document).withWidth width = .ok outline ∧
      (∀ node, (∃ step ∈ document.steps, node ∈ step.visited fun _ => true) ↔
        ∃ before depth after, outline.strokes = before ++ .enter node depth :: after) ∧
      ∀ (before : List Stroke) (key : String) (value : Option Node) (depth : Nat) (after : List Stroke),
        outline.strokes = before ++ .enter (.step (some key) value) depth :: after →
        (∃ rest, outline.text = written width before ++
          (Node.step (some key) value).render outline.references width depth ++ rest) ∧
        ∃ names, Node.ShowsBelow outline.references width depth (some key) value names ∧
          (Node.RefersToAll value names ↔
            ∀ declared, (key, some declared) ∈ document.namedSteps →
              ∀ name ∈ document.stepNames, declared.Refers name → ∃ own ∈ value, own.Refers name) ∧
          ((∃ count, Node.wrapped (.step (some key) value) count ∈ document.steps) ∨ key ∉ document.stepNames →
            Node.RefersToAll value names) := by
  refine ⟨{ ofDocument document with width }, withWidth_of_le h₁ h₂, fun node => ?_,
    fun before key value depth after hplace => ⟨exists_text_of_enter _ hplace, _, Node.showsBelow_iff.2 rfl, ?_, ?_⟩⟩
  · rw [← mem_entered, entered_strokes, List.mem_flatMap]
    rfl
  · exact refersToAll_get_iff hnames
  · rintro (⟨count, htop⟩ | hfree)
    · exact refersToAll_get_of_mem hnames (mem_namedSteps_of_wrapped htop)
    · exact refersToAll_get_of_notMem hnames hfree

/-- A step `b` that refers to `a`, and another step `b` inside the value of `c` that refers to nothing. -/
def shadowedStep : Document :=
  .ofSteps
    [.step (some "a") (some (.literal .null)), .step (some "b") (some (.identifier (some "a"))),
      .step (some "c") (some (.letBlock [.step (some "b") (some (.literal .null))]))]

/-- The inner step is rendered. -/
theorem exists_enter_shadowed :
    ∃ before depth after,
      strokes { ofDocument shadowedStep with width := 2 } =
        before ++ .enter (.step (some "b") (some (.literal .null))) depth :: after := by
  rw [← mem_entered, entered_strokes]
  simp [shadowedStep, ofDocument, Document.ofSteps, Document.steps, Node.visited, Node.visitedOption, Node.visitedList]

theorem get_shadowed : (ReferenceMap.ofDocument shadowedStep).get "b" = ["a"] := by decide +kernel

theorem shadowedStep_shown_references :
    (shadowedStep.namedSteps.map Prod.fst).Nodup ∧ 1 ≤ 2 ∧ 2 ≤ 8 ∧
    ∃ outline, (ofDocument shadowedStep).withWidth 2 = .ok outline ∧
      ∃ before depth after,
        outline.strokes = before ++ .enter (.step (some "b") (some (.identifier (some "a")))) depth :: after ∧
        Node.ShowsBelow outline.references 2 depth (some "b") (some (.identifier (some "a"))) ["a"] ∧
        Node.RefersToAll (some (.identifier (some "a"))) ["a"] := by
  have hnames : (shadowedStep.namedSteps.map Prod.fst).Nodup := by decide
  obtain ⟨outline, houtline, hrendered, hshown⟩ := shown_references shadowedStep hnames 2 (by decide) (by decide)
  obtain rfl : { ofDocument shadowedStep with width := 2 } = outline :=
    Except.ok.inj ((withWidth_of_le (by decide) (by decide)).symm.trans houtline)
  have hstep : Node.step (some "b") (some (.identifier (some "a"))) ∈ shadowedStep.steps :=
    List.mem_cons_of_mem _ List.mem_cons_self
  obtain ⟨before, depth, after, hplace⟩ := (hrendered _).1 ⟨_, hstep, Node.self_mem_visited _ _⟩
  obtain ⟨_, names, hbelow, _, hown⟩ := hshown before "b" _ depth after hplace
  obtain rfl : names = ["a"] := (Node.showsBelow_iff.1 hbelow).trans get_shadowed
  exact ⟨hnames, by decide, by decide, _, houtline, before, depth, after, hplace, hbelow, hown (.inl ⟨0, hstep⟩)⟩

/-- The inner step shows the reference of the outer one. -/
theorem shadowedStep_shows_foreign_reference :
    (shadowedStep.namedSteps.map Prod.fst).Nodup ∧
    ∃ outline, (ofDocument shadowedStep).withWidth 2 = .ok outline ∧
      outline.text = "a = None\n  - References: None\n\nb = a\n  - References: ['a']\n\n" ++
        "c =   Let\n    b = None\n  - References: ['a']\n\n  In\n  - References: None\n" ∧
      ∃ before depth after,
        outline.strokes = before ++ .enter (.step (some "b") (some (.literal .null))) depth :: after ∧
        Node.ShowsBelow outline.references 2 depth (some "b") (some (.literal .null)) ["a"] ∧
        ¬Node.RefersToAll (some (.literal .null)) ["a"] := by
  obtain ⟨before, depth, after, hplace⟩ := exists_enter_shadowed
  refine ⟨by decide, _, withWidth_of_le (by decide) (by decide), by decide +kernel, before, depth, after, hplace,
    Node.showsBelow_iff.2 get_shadowed.symm, ?_⟩
  intro hall
  obtain ⟨own, hown, hname⟩ := hall "a" List.mem_cons_self
  obtain rfl := Option.mem_some_iff.1 hown
  exact absurd hname (by decide)

end Outline

end QueryOutline
