import Mathlib.Data.List.Induction
import QueryOutline.Proofs.Attempts
import QueryOutline.Proofs.Json.ReadBack
import QueryOutline.Proofs.Render.Width
import QueryOutline.Session

/-!
# Sessions remember little

Of all that was done in a session only the last replacement that succeeded counts, and the last change of the width
that succeeded after it.

* **One action** (`Session.effect`): it replaces every outline by the same one, or it sets the width of every outline
  to the same valid one, or it leaves every outline as it is.
* **Invariant** (`Session.final_consistent`): the reference map is that of the document, and the width is valid.
* **Last actions** (`Session.Last`): the last action of a kind that succeeds, with its place.
* **Runs** (`Session.final_eq_kept`): the outline after any actions is the one after the last changes alone, so all
  later answers are the same.
-/

namespace QueryOutline

/-- The reference map is that of the document, and the width is valid. -/
structure Outline.Consistent (outline : Outline) : Prop where
  references : outline.references = ReferenceMap.ofDocument outline.document
  positive : 1 ≤ outline.width
  bounded : outline.width ≤ 8

theorem Outline.ofDocument_consistent (document : Document) : (ofDocument document).Consistent :=
  ⟨rfl, by show 1 ≤ defaultWidth; decide, by show defaultWidth ≤ 8; decide⟩

namespace Session

/-- The action is meant to replace the outline. -/
def Action.replaces : Action → Bool
  | load _ => true
  | loadNodes _ => true
  | loadSteps _ => true
  | clear => true
  | _ => false

/-- The action is meant to set the width. -/
def Action.setsWidth : Action → Bool
  | setWidth _ => true
  | _ => false

/-- The action does not fail when the outline is the current one. -/
def Succeeds (outline : Outline) (action : Action) : Prop :=
  ∃ answer next, perform outline action = .ok (answer, next)

/-! ## One action -/

theorem after_of_ok {outline next : Outline} {action : Action} {answer : Answer}
    (h : perform outline action = .ok (answer, next)) : after outline action = next := by
  rw [after, h]

theorem after_of_not_succeeds {outline : Outline} {action : Action} (h : ¬Succeeds outline action) :
    after outline action = outline := by
  unfold after
  cases hp : perform outline action with
  | error error => rfl
  | ok result => exact absurd ⟨result.1, result.2, hp⟩ h

/-- What an action does, whatever the outline. -/
inductive Effect (action : Action) : Prop where
  /-- A replacement that succeeds. -/
  | replace (document : Document) (hkind : action.replaces = true) (hwidth : action.setsWidth = false)
    (hperform : ∀ outline, ∃ answer, perform outline action = .ok (answer, .ofDocument document))
  /-- A change of the width that succeeds. -/
  | width (width : Nat) (haction : action = .setWidth width) (h₁ : 1 ≤ width) (h₂ : width ≤ 8)
    (hperform : ∀ outline, ∃ answer, perform outline action = .ok (answer, { outline with width }))
  /-- A question. -/
  | ask (hreplaces : action.replaces = false) (hwidth : action.setsWidth = false)
    (hafter : ∀ outline, after outline action = outline)
  /-- An action that fails. -/
  | fail (hperform : ∀ outline, ∃ error, perform outline action = .error error)

/-- **One action.** What it does depends on the outline neither in kind nor in success. -/
theorem effect (action : Action) : Effect action := by
  cases action with
  | load source =>
    cases h : readDocument source with
    | ok document =>
      refine .replace document rfl rfl fun outline => ⟨.stepCount document.steps.length, ?_⟩
      rw [perform, Outline.ofSource, h]
      rfl
    | error error =>
      refine .fail fun outline => ⟨error, ?_⟩
      rw [perform, Outline.ofSource, h]
      rfl
  | loadNodes nodes => exact .replace (.ofSteps nodes) rfl rfl fun outline => ⟨_, rfl⟩
  | loadSteps sources =>
    cases h : sources.mapM readNode with
    | ok nodes =>
      refine .replace (.ofSteps nodes) rfl rfl fun outline => ⟨.stepCount nodes.length, ?_⟩
      rw [perform, h]
      rfl
    | error error =>
      refine .fail fun outline => ⟨error, ?_⟩
      rw [perform, h]
      rfl
  | clear => exact .replace .empty rfl rfl fun outline => ⟨_, rfl⟩
  | setWidth width =>
    cases h : checkWidth width with
    | ok checked =>
      obtain ⟨⟨h₁, h₂⟩, rfl⟩ := checkWidth_eq_ok_iff.1 h
      refine .width checked rfl h₁ h₂ fun outline => ⟨.width checked, ?_⟩
      rw [perform, Outline.withWidth, h]
      rfl
    | error error =>
      refine .fail fun outline => ⟨error, ?_⟩
      rw [perform, Outline.withWidth, h]
      rfl
  | renderNode source depth =>
    cases h : readNode source with
    | ok node =>
      refine .ask rfl rfl fun outline => ?_
      rw [after, perform, h]
      rfl
    | error error =>
      refine .fail fun outline => ⟨error, ?_⟩
      rw [perform, h]
      rfl
  | _ => exact .ask rfl rfl fun outline => rfl

/-! ## Runs -/

/-- The outline of a session after actions in order. -/
def final (actions : List Action) : Outline := actions.foldl after Outline.empty

theorem final_concat (actions : List Action) (action : Action) :
    final (actions ++ [action]) = after (final actions) action := by
  rw [final, List.foldl_append]
  rfl

/-- An action keeps an outline consistent. -/
theorem after_consistent {outline : Outline} (h : outline.Consistent) (action : Action) :
    (after outline action).Consistent := by
  cases effect action with
  | replace document _ _ hperform =>
    obtain ⟨answer, hanswer⟩ := hperform outline
    rw [after_of_ok hanswer]
    exact Outline.ofDocument_consistent document
  | width width _ h₁ h₂ hperform =>
    obtain ⟨answer, hanswer⟩ := hperform outline
    rw [after_of_ok hanswer]
    exact ⟨h.references, h₁, h₂⟩
  | ask _ _ hafter =>
    rw [hafter]
    exact h
  | fail hperform =>
    obtain ⟨error, herror⟩ := hperform outline
    rw [after, herror]
    exact h

/-- **Invariant.** The outline of a session is consistent. -/
theorem final_consistent (actions : List Action) : (final actions).Consistent := by
  induction actions using List.reverseRecOn with
  | nil => exact Outline.ofDocument_consistent .empty
  | append_singleton actions action ih =>
    rw [final_concat]
    exact after_consistent ih action

theorem length_run (outline : Outline) : ∀ actions, (run outline actions).length = actions.length
  | [] => rfl
  | action :: actions => by rw [run, List.length_cons, length_run, List.length_cons]

theorem run_append (outline : Outline) : ∀ actions later,
    run outline (actions ++ later) = run outline actions ++ run (actions.foldl after outline) later
  | [], later => rfl
  | action :: actions, later => by
    rw [List.cons_append, run, run, run_append _ actions later, List.cons_append, List.foldl_cons]

/-- The answers after some actions depend on the outline after them only. -/
theorem drop_run_append (actions later : List Action) :
    (run Outline.empty (actions ++ later)).drop actions.length = run (final actions) later := by
  rw [run_append, ← length_run Outline.empty actions, List.drop_left]
  rfl

/-! ## The last action of a kind -/

/-- The action stands at the place and succeeds there. -/
def SucceedsAt (actions : List Action) (place : Nat) (action : Action) : Prop :=
  actions[place]? = some action ∧ Succeeds (final (actions.take place)) action

/-- The last action of a kind that succeeds at the place `start` or later, with its place. -/
inductive Last (kind : Action → Bool) (actions : List Action) (start : Nat) : Option (Nat × Action) → Prop where
  | none (h : ∀ place action, start ≤ place → SucceedsAt actions place action → kind action = false) :
    Last kind actions start none
  | some {place : Nat} {action : Action} (hstart : start ≤ place) (h : SucceedsAt actions place action)
    (hkind : kind action = true)
    (hlast : ∀ later other, place < later → SucceedsAt actions later other → kind other = false) :
    Last kind actions start (some (place, action))

theorem SucceedsAt.lt {actions : List Action} {place : Nat} {action : Action} (h : SucceedsAt actions place action) :
    place < actions.length := (List.getElem?_eq_some_iff.1 h.1).1

/-- What succeeds when one action more is performed. -/
theorem succeedsAt_concat {actions : List Action} {action other : Action} {place : Nat} :
    SucceedsAt (actions ++ [action]) place other ↔
      SucceedsAt actions place other ∨ place = actions.length ∧ other = action ∧ Succeeds (final actions) action := by
  unfold SucceedsAt
  rcases Nat.lt_trichotomy place actions.length with hlt | rfl | hgt
  · rw [List.getElem?_append_left hlt, List.take_append_of_le_length (Nat.le_of_lt hlt)]
    exact ⟨.inl, fun h => h.resolve_right fun hlast => absurd hlast.1 (Nat.ne_of_lt hlt)⟩
  · rw [List.getElem?_concat_length, List.getElem?_eq_none (Nat.le_refl _), List.take_left]
    constructor
    · rintro ⟨⟨⟩, hsucceeds⟩
      exact .inr ⟨rfl, rfl, hsucceeds⟩
    · rintro (⟨⟨⟩, _⟩ | ⟨_, rfl, hsucceeds⟩)
      exact ⟨rfl, hsucceeds⟩
  · have hnone : (actions ++ [action])[place]? = none := List.getElem?_eq_none (by simp; omega)
    rw [hnone, List.getElem?_eq_none (Nat.le_of_lt hgt)]
    constructor
    · rintro ⟨⟨⟩, _⟩
    · rintro (⟨⟨⟩, _⟩ | ⟨rfl, _⟩)
      exact absurd hgt (Nat.lt_irrefl _)

section Last

variable {kind : Action → Bool} {actions : List Action} {start : Nat} {found : Option (Nat × Action)}

/-- No action stands behind the end. -/
theorem last_of_length_le (h : actions.length ≤ start) : Last kind actions start found ↔ found = none := by
  constructor
  · rintro (_ | ⟨hstart, hat, _, _⟩)
    · rfl
    · have := hat.lt
      omega
  · rintro rfl
    exact .none fun place action hstart hat => absurd hat.lt (by omega)

/-- An action of the kind that succeeds becomes the last one, -/
theorem last_concat_of_succeeds {action : Action} (hstart : start ≤ actions.length) (hkind : kind action = true)
    (hsucceeds : Succeeds (final actions) action) :
    Last kind (actions ++ [action]) start found ↔ found = some (actions.length, action) := by
  have hat : SucceedsAt (actions ++ [action]) actions.length action := succeedsAt_concat.2 (.inr ⟨rfl, rfl, hsucceeds⟩)
  constructor
  · rintro (h | ⟨_, hother, _, hlast⟩)
    · rw [h _ _ hstart hat] at hkind
      cases hkind
    · rcases succeedsAt_concat.1 hother with hother | ⟨rfl, rfl, _⟩
      · rw [hlast _ _ hother.lt hat] at hkind
        cases hkind
      · rfl
  · rintro rfl
    refine .some hstart hat hkind fun later other hlater hother => ?_
    have := hother.lt
    rw [List.length_append, List.length_singleton] at this
    omega

/-- and no other action changes which one is the last. -/
theorem last_concat_of_not {action : Action} (h : kind action = true → ¬Succeeds (final actions) action) :
    Last kind (actions ++ [action]) start found ↔ Last kind actions start found := by
  -- what is of the kind and succeeds does so already without the new action
  have hold : ∀ {place other}, SucceedsAt (actions ++ [action]) place other → kind other = true →
      SucceedsAt actions place other := by
    intro place other hat hkind
    rcases succeedsAt_concat.1 hat with hat | ⟨_, rfl, hsucceeds⟩
    · exact hat
    · exact absurd hsucceeds (h hkind)
  have hnone : ∀ {first : Nat},
      (∀ place other, first ≤ place → SucceedsAt (actions ++ [action]) place other → kind other = false) ↔
        ∀ place other, first ≤ place → SucceedsAt actions place other → kind other = false := by
    intro first
    refine ⟨fun h place other hplace hat => h place other hplace (succeedsAt_concat.2 (.inl hat)), ?_⟩
    intro h place other hplace hat
    by_contra hkind
    exact hkind (h place other hplace (hold hat (by simpa using hkind)))
  constructor
  · rintro (h | ⟨hstart, hat, hkind, hlast⟩)
    · exact .none (hnone.1 h)
    · exact .some hstart (hold hat hkind) hkind (hnone.1 hlast)
  · rintro (h | ⟨hstart, hat, hkind, hlast⟩)
    · exact .none (hnone.2 h)
    · exact .some hstart (succeedsAt_concat.2 (.inl hat)) hkind (hnone.2 hlast)

theorem exists_last (kind : Action → Bool) (actions : List Action) (start : Nat) :
    ∃ found, Last kind actions start found := by
  induction actions using List.reverseRecOn with
  | nil => exact ⟨none, (last_of_length_le (Nat.zero_le start)).2 rfl⟩
  | append_singleton actions action ih =>
    by_cases h : kind action = true ∧ Succeeds (final actions) action
    · by_cases hstart : start ≤ actions.length
      · exact ⟨_, (last_concat_of_succeeds hstart h.1 h.2).2 rfl⟩
      · exact ⟨none, (last_of_length_le (by simp; omega)).2 rfl⟩
    · obtain ⟨found, hfound⟩ := ih
      exact ⟨found, (last_concat_of_not fun hkind hsucceeds => h ⟨hkind, hsucceeds⟩).2 hfound⟩

end Last

/-! ## Runs are compact -/

/-- The place after an action; the beginning when there is no such action. -/
def placeAfter : Option (Nat × Action) → Nat
  | none => 0
  | some (place, _) => place + 1

/-- The last replacement that succeeds, and the last change of the width after it that succeeds. -/
structure LastChanges (actions : List Action) (replacement width : Option (Nat × Action)) : Prop where
  replaced : Last Action.replaces actions 0 replacement
  resized : Last Action.setsWidth actions (placeAfter replacement) width

/-- The changes alone, one after the other. -/
def kept (replacement width : Option (Nat × Action)) : List Action :=
  (replacement.toList ++ width.toList).map Prod.snd

theorem exists_lastChanges (actions : List Action) : ∃ replacement width, LastChanges actions replacement width := by
  obtain ⟨replacement, hreplacement⟩ := exists_last Action.replaces actions 0
  obtain ⟨width, hwidth⟩ := exists_last Action.setsWidth actions (placeAfter replacement)
  exact ⟨replacement, width, hreplacement, hwidth⟩

section Changes

variable {actions : List Action} {replacement width : Option (Nat × Action)}

/-- The change of the width is looked for within the actions. -/
theorem placeAfter_le (h : Last Action.replaces actions 0 replacement) : placeAfter replacement ≤ actions.length := by
  rcases h with _ | ⟨_, hat, _, _⟩
  · exact Nat.zero_le _
  · exact hat.lt

theorem succeeds_of_perform {action : Action} {outline : Outline} {change : Outline → Outline}
    (h : ∀ outline, ∃ answer, perform outline action = .ok (answer, change outline)) : Succeeds outline action := by
  obtain ⟨answer, hanswer⟩ := h outline
  exact ⟨answer, _, hanswer⟩

/-- Whatever an action that sets the width does, it keeps the document and its references. -/
theorem after_setsWidth {action : Action} (h : action.setsWidth = true) (outline : Outline) :
    (after outline action).document = outline.document ∧ (after outline action).references = outline.references := by
  cases effect action with
  | replace document _ hwidth _ => rw [h] at hwidth; cases hwidth
  | width width _ _ _ hperform =>
    obtain ⟨answer, hanswer⟩ := hperform outline
    rw [after_of_ok hanswer]
    exact ⟨rfl, rfl⟩
  | ask _ hwidth _ => rw [h] at hwidth; cases hwidth
  | fail hperform =>
    obtain ⟨error, herror⟩ := hperform outline
    rw [after, herror]
    exact ⟨rfl, rfl⟩

theorem kept_some (place : Nat) (action : Action) :
    kept replacement (some (place, action)) = replacement.toList.map Prod.snd ++ [action] := by
  simp [kept]

/-- So does the change that is kept. -/
theorem final_kept (h : LastChanges actions replacement width) :
    (final (kept replacement width)).document = (final (replacement.toList.map Prod.snd)).document ∧
      (final (kept replacement width)).references = (final (replacement.toList.map Prod.snd)).references := by
  rcases h.resized with _ | ⟨_, _, hkind, _⟩
  · simp [kept]
  · rw [kept_some, final_concat]
    exact after_setsWidth hkind _

/-- **Compaction.** The outline after any actions is the one after the last changes alone. -/
theorem final_eq_kept (h : LastChanges actions replacement width) : final actions = final (kept replacement width) := by
  induction actions using List.reverseRecOn generalizing replacement width with
  | nil =>
    obtain rfl := (last_of_length_le (Nat.zero_le 0)).1 h.replaced
    obtain rfl := (last_of_length_le (Nat.zero_le 0)).1 h.resized
    rfl
  | append_singleton actions action ih =>
    rw [final_concat]
    cases effect action with
    | replace document hkind hwidth hperform =>
      -- it is the last replacement, and nothing comes after it
      obtain rfl := (last_concat_of_succeeds (Nat.zero_le _) hkind (succeeds_of_perform hperform)).1 h.replaced
      obtain rfl := (last_of_length_le (by simp [placeAfter])).1 h.resized
      obtain ⟨answer, hanswer⟩ := hperform (final actions)
      obtain ⟨first, hfirst⟩ := hperform Outline.empty
      have hkept : kept (some (actions.length, action)) none = [action] := rfl
      rw [after_of_ok hanswer, hkept]
      exact (after_of_ok hfirst).symm
    | width new haction _ _ hperform =>
      -- it is the last change of the width, after the same replacement
      have hreplaces : action.replaces = false := by rw [haction]; rfl
      have hsetsWidth : action.setsWidth = true := by rw [haction]; rfl
      have hreplacement := (last_concat_of_not fun hkind => by rw [hreplaces] at hkind; cases hkind).1 h.replaced
      obtain rfl :=
        (last_concat_of_succeeds (placeAfter_le hreplacement) hsetsWidth (succeeds_of_perform hperform)).1 h.resized
      obtain ⟨before, hbefore⟩ := exists_last Action.setsWidth actions (placeAfter replacement)
      have hold : LastChanges actions replacement before := ⟨hreplacement, hbefore⟩
      obtain ⟨answer, hanswer⟩ := hperform (final actions)
      obtain ⟨other, hother⟩ := hperform (final (replacement.toList.map Prod.snd))
      obtain ⟨hdocument, hreferences⟩ := final_kept hold
      rw [after_of_ok hanswer, kept_some, final_concat, after_of_ok hother, ih hold, hdocument, hreferences]
    | ask hreplaces hwidth hafter =>
      have hold : LastChanges actions replacement width :=
        ⟨(last_concat_of_not fun hkind => by rw [hreplaces] at hkind; cases hkind).1 h.replaced,
          (last_concat_of_not fun hkind => by rw [hwidth] at hkind; cases hkind).1 h.resized⟩
      rw [hafter, ih hold]
    | fail hperform =>
      have hfails : ¬Succeeds (final actions) action := by
        rintro ⟨answer, next, hok⟩
        obtain ⟨error, herror⟩ := hperform (final actions)
        rw [herror] at hok
        cases hok
      have hold : LastChanges actions replacement width :=
        ⟨(last_concat_of_not fun _ => hfails).1 h.replaced, (last_concat_of_not fun _ => hfails).1 h.resized⟩
      rw [after_of_not_succeeds hfails, ih hold]

/-- Without a change of the width after the last replacement, the width is the default. -/
theorem width_of_none (h : LastChanges actions replacement none) : (final actions).width = defaultWidth := by
  rw [final_eq_kept h]
  cases h.replaced with
  | none _ => rfl
  | @some place action _ _ hkind _ =>
    show (after Outline.empty action).width = defaultWidth
    cases effect action with
    | replace document _ _ hperform =>
      obtain ⟨answer, hanswer⟩ := hperform Outline.empty
      rw [after_of_ok hanswer]
      rfl
    | width new haction _ _ _ => rw [haction] at hkind; cases hkind
    | ask hreplaces _ _ => rw [hkind] at hreplaces; cases hreplaces
    | fail hperform =>
      obtain ⟨error, herror⟩ := hperform Outline.empty
      rw [after, herror]
      rfl

/-- With one, it is the width asked for last. -/
theorem width_of_some {place new : Nat} (h : LastChanges actions replacement (some (place, .setWidth new))) :
    (final actions).width = new := by
  rw [final_eq_kept h, kept_some, final_concat]
  cases h.resized with
  | some _ hat _ _ =>
    obtain ⟨answer, next, hok⟩ := hat.2
    cases effect (.setWidth new) with
    | replace _ _ hwidth _ => cases hwidth
    | width new' haction _ _ hperform =>
      obtain rfl := Action.setWidth.inj haction
      obtain ⟨other, hother⟩ := hperform (final (replacement.toList.map Prod.snd))
      rw [after_of_ok hother]
    | ask _ hwidth _ => cases hwidth
    | fail hperform =>
      obtain ⟨error, herror⟩ := hperform (final (actions.take place))
      rw [herror] at hok
      cases hok

end Changes

/-- **Sessions.** After any actions the outline is consistent, and it is the outline after the last replacement that
succeeded and the last change of the width that succeeded after it, if there were any; the width is the one asked for by
that change, or else the default. So whatever is done later has the same answers as after these two alone. -/
theorem session_compact (actions : List Action) :
    (final actions).Consistent ∧
    (∃ replacement width, LastChanges actions replacement width) ∧
    ∀ replacement width, LastChanges actions replacement width →
      final actions = final (kept replacement width) ∧
      (width = none → (final actions).width = defaultWidth) ∧
      (∀ place new, width = some (place, .setWidth new) → (final actions).width = new) ∧
      ∀ later, (run Outline.empty (actions ++ later)).drop actions.length =
        (run Outline.empty (kept replacement width ++ later)).drop (kept replacement width).length := by
  refine ⟨final_consistent actions, exists_lastChanges actions, fun replacement width h => ⟨?_, ?_, ?_, ?_⟩⟩
  · exact final_eq_kept h
  · rintro rfl
    exact width_of_none h
  · rintro place new rfl
    exact width_of_some h
  · intro later
    rw [drop_run_append, drop_run_append, final_eq_kept h]

/-- A width that does not survive a replacement, a text that is no document, a question, a width out of range and a
valid one. -/
def mixedActions : List Action :=
  [.setWidth 7, .loadNodes [.unhandled "Each"], .load (Json.compact .null), .render, .setWidth 9, .setWidth 4,
    .setWidth 0, .get "Each"]

/-- The replacement at place 1 and the width at place 5 are all that is kept. -/
theorem lastChanges_mixedActions :
    LastChanges mixedActions (some (1, .loadNodes [.unhandled "Each"])) (some (5, .setWidth 4)) := by
  refine ⟨.some (Nat.zero_le 1) ⟨rfl, _, _, rfl⟩ rfl ?_, .some (by decide) ⟨rfl, _, _, rfl⟩ rfl ?_⟩
  · intro later other hlater hat
    have hlt : later < 8 := hat.lt
    obtain ⟨hother, answer, next, hok⟩ := hat
    obtain rfl | rfl | rfl | rfl | rfl | rfl :
        later = 2 ∨ later = 3 ∨ later = 4 ∨ later = 5 ∨ later = 6 ∨ later = 7 := by omega
    all_goals cases hother
    · -- a scalar is no document
      have hread : readJson (Json.compact .null) = .ok .null := readJson_compact trivial (by decide)
      rw [perform, Outline.ofSource, readDocument, hread] at hok
      cases hok
    all_goals rfl
  · intro later other hlater hat
    have hlt : later < 8 := hat.lt
    obtain ⟨hother, answer, next, hok⟩ := hat
    obtain rfl | rfl : later = 6 ∨ later = 7 := by omega
    all_goals cases hother
    · cases hok
    · rfl

theorem mixedActions_compact :
    LastChanges mixedActions (some (1, .loadNodes [.unhandled "Each"])) (some (5, .setWidth 4)) ∧
    final mixedActions = final [.loadNodes [.unhandled "Each"], .setWidth 4] ∧ (final mixedActions).width = 4 := by
  obtain ⟨_, _, hkept⟩ := session_compact mixedActions
  obtain ⟨hfinal, _, hwidth, _⟩ := hkept _ _ lastChanges_mixedActions
  exact ⟨lastChanges_mixedActions, hfinal, hwidth 5 4 rfl⟩

end Session

end QueryOutline
