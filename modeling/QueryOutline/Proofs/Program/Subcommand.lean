import QueryOutline.Proofs.CommandLine
import QueryOutline.Proofs.Program.Outcome

/-!
# Naming the outline command

The outline command is meant when no subcommand is named. Its arguments are the same either way, except that the flag
for the version is known only without a subcommand, and that flag never leaves any arguments.

* **Words** (`CommandLine.addWord_ok_iff`, `CommandLine.parseOutline_ok_iff`): what can be read without the subcommand
  can be read behind it, and gives the same.
* **Command lines** (`run_named`): the two forms ask for the same outline, and their runs end alike.
-/

namespace QueryOutline

namespace CommandLine

variable {state next : State} {args : OutlineArgs} {rest : List String}

/-! ## Words -/

/-- Whatever has been read, the flag for the version ends the reading. -/
theorem addFlag_version_ne_ok : state.addFlag "version" ≠ .ok next := by
  intro h
  obtain ⟨args, _, hflag⟩ := bind_eq_ok_iff.1 h
  cases hflag

/-- Apart from the version, the same flags are known. -/
theorem isFlag_of_ne_version {name : String} (h : name ≠ "version") : isFlag true name = isFlag false name := by
  simp [isFlag, h]

theorem addWord_ok_iff (word : Word) :
    state.addWord true word = .ok next ↔ state.addWord false word = .ok next := by
  cases word with
  | separator => exact Iff.rfl
  | plain text => exact Iff.rfl
  | short flag =>
    by_cases hhelp : flag = 'h'
    · subst hhelp
      exact Iff.rfl
    · by_cases hversion : flag = 'V'
      · subst hversion
        exact iff_of_false addFlag_version_ne_ok fun h => by cases h
      · simp [State.addWord, hhelp, hversion]
  | long name value =>
    by_cases hversion : name = "version"
    · subst hversion
      refine iff_of_false (fun h => ?_) fun h => by cases h
      cases value with
      | some value => cases h
      | none => exact addFlag_version_ne_ok h
    · simp only [State.addWord, isFlag_of_ne_version hversion]

/-! ## Command lines -/

theorem parseOutline_ok_iff : ∀ {rest : List String} {state : State},
    parseOutline true state rest = .ok args ↔ parseOutline false state rest = .ok args
  | [], state => Iff.rfl
  | text :: rest, state => by
    by_cases hword : Word.ofText text = .separator
    · rw [parseOutline_of_separator hword, parseOutline_of_separator hword]
    · rw [parseOutline_of_word hword, parseOutline_of_word hword, bind_eq_ok_iff, bind_eq_ok_iff]
      exact exists_congr fun next => and_congr (addWord_ok_iff _) parseOutline_ok_iff

theorem parse_named_iff : parse ("outline" :: rest) = .ok (.outline true args) ↔
    parseOutline false .start rest = .ok args := by
  rw [parse, map_eq_ok_iff]
  simp

theorem parseKinds_ne_outline {named : Bool} : parseKinds rest ≠ .ok (.outline named args) := by
  intro h
  unfold parseKinds at h
  split at h
  · cases h
  · split at h
    · split at h <;> cases h
    · cases h
    · cases h
    · split at h <;> cases h

/-- Without a subcommand, the first word is not the name of one. -/
theorem parse_unnamed_iff : parse rest = .ok (.outline false args) ↔
    parseOutline true .start rest = .ok args ∧ ∀ name ∈ subcommands, rest.head? ≠ some name := by
  constructor
  · intro h
    have hhead : ∀ name ∈ subcommands, rest.head? ≠ some name := by
      intro name hname hfirst
      obtain ⟨others, rfl⟩ := List.head?_eq_some_iff.1 hfirst
      simp only [subcommands, List.mem_cons, List.not_mem_nil, or_false] at hname
      rcases hname with rfl | rfl | rfl
      · obtain ⟨_, _, hnamed⟩ := map_eq_ok_iff.1 h
        cases hnamed
      · exact parseKinds_ne_outline h
      · cases h
    rw [parse_of_head hhead, map_eq_ok_iff] at h
    simpa using And.intro h hhead
  · rintro ⟨h, hhead⟩
    rw [parse_of_head hhead, map_eq_ok_iff]
    exact ⟨args, h, rfl⟩

end CommandLine

open CommandLine

/-- **The two forms of the outline command.** Words that do not begin with the name of a subcommand ask for an outline
exactly when they do so behind the name of the outline command, and then for the same one. The two runs have the same
outcome. -/
theorem run_named :
    (∀ rest args, parse rest = .ok (.outline false args) ↔
      parse ("outline" :: rest) = .ok (.outline true args) ∧ ∀ name ∈ subcommands, rest.head? ≠ some name) ∧
    ∀ environment rest args, parse rest = .ok (.outline false args) →
      run environment ("outline" :: rest) = run environment rest := by
  have hforms : ∀ rest args, parse rest = .ok (.outline false args) ↔
      parse ("outline" :: rest) = .ok (.outline true args) ∧ ∀ name ∈ subcommands, rest.head? ≠ some name := by
    intro rest args
    rw [parse_unnamed_iff, parse_named_iff, parseOutline_ok_iff]
  refine ⟨hforms, fun environment rest args h => ?_⟩
  rw [run_of_parse h, run_of_parse ((hforms rest args).1 h).1]

/-- The word `kinds` is a path behind an option, and an option is one only in front of the separator. -/
theorem kindsPath_run_named :
    parse ["--indent", "4", "kinds", "--", "--format"] =
      .ok (.outline false { OutlineArgs.none with paths := ["kinds", "--format"], indent := some 4 }) ∧
    parse ["outline", "--indent", "4", "kinds", "--", "--format"] =
      .ok (.outline true { OutlineArgs.none with paths := ["kinds", "--format"], indent := some 4 }) ∧
    run recordsInput ["outline", "--indent", "4", "kinds", "--", "--format"] =
      run recordsInput ["--indent", "4", "kinds", "--", "--format"] := by
  have hparse : parse ["--indent", "4", "kinds", "--", "--format"] =
      .ok (.outline false { OutlineArgs.none with paths := ["kinds", "--format"], indent := some 4 }) := by decide
  obtain ⟨hforms, hruns⟩ := run_named
  exact ⟨hparse, ((hforms _ _).1 hparse).1, hruns recordsInput _ _ hparse⟩

end QueryOutline
