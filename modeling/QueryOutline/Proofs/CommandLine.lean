import QueryOutline.CommandLine
import QueryOutline.Proofs.Attempts

/-!
# Command lines that differ in the format

No word of a command line is read differently because of a format that was given before. So the words behind the format
keep what is read of two command lines alike.

* **States** (`CommandLine.Twin`): what is read of the two command lines up to the same place behind the format.
* **Words** (`CommandLine.addWord_twin`): every further word keeps them so, or is refused with the same error.
* **Command lines** (`CommandLine.parse_twin`): so both are refused alike or ask for the same outline.
-/

namespace QueryOutline

/-- The arguments with a format given. -/
def OutlineArgs.withFormat (args : OutlineArgs) (format : OutputFormat) : OutlineArgs :=
  { args with format := some format }

/-- The same arguments, but for the format, which is text in the one and JSON in the other. -/
inductive OutlineArgs.Twin : OutlineArgs → OutlineArgs → Prop where
  | of (args : OutlineArgs) : Twin (args.withFormat .text) (args.withFormat .json)

namespace CommandLine

/-- The option for the format, as one word or with its value in a word of its own. -/
def formatWords (joined : Bool) (format : OutputFormat) : List String :=
  if joined then ["--format=" ++ format.name] else ["--format", format.name]

/-- Two command lines of the outline command, which may be left unnamed, with the option for the format in the same
place, in front of any separator. The one asks for text and the other for JSON. -/
inductive DifferInFormat : List String → List String → Prop where
  | of (before after : List String) (joined : Bool) (hbefore : "--" ∉ before)
    (houtline : ∀ name ∈ subcommands, name ≠ "outline" → before.head? ≠ some name) :
    DifferInFormat (before ++ (formatWords joined .text ++ after)) (before ++ (formatWords joined .json ++ after))

/-- The same has been read but for the format, which is text in the one state and JSON in the other, or which is not
judged yet. -/
inductive Twin : State → State → Prop where
  | given (args : OutlineArgs) (pending : Pending) :
    Twin ⟨args.withFormat .text, pending⟩ ⟨args.withFormat .json, pending⟩
  | pending (args : OutlineArgs) : Twin ⟨args, .value .format "text"⟩ ⟨args, .value .format "json"⟩

/-- The commands to outline the same, as text and as JSON. -/
inductive Command.Twin : Command → Command → Prop where
  | of (named : Bool) (args : OutlineArgs) :
    Twin (.outline named (args.withFormat .text)) (.outline named (args.withFormat .json))

/-! ## Judging what is pending -/

/-- The two values of the format are judged alike. -/
theorem setFormat_twin (args : OutlineArgs) :
    Alike OutlineArgs.Twin (setValue args .format "text") (setValue args .format "json") :=
  .ite (fun _ => .error _) fun _ => .ok (.of args)

theorem setValue_twin (args : OutlineArgs) (option : ValueOption) (value : String) :
    Alike OutlineArgs.Twin (setValue (args.withFormat .text) option value)
      (setValue (args.withFormat .json) option value) := by
  cases option with
  | format => exact .error _
  | indent =>
    refine .ite (fun _ => .error _) fun _ => ?_
    cases readNumber value with
    | error fault => exact .error _
    | ok n => exact .ok (.of { args with indent := some n })
  | config =>
    refine .ite (fun _ => .error _) fun _ => ?_
    exact .ite (fun _ => .error _) fun _ => .ok (.of { args with config := some value })

variable {state twin : State}

theorem settle_twin (h : Twin state twin) : Alike OutlineArgs.Twin state.settle twin.settle := by
  cases h with
  | given args pending =>
    cases pending with
    | nothing => exact .ok (.of args)
    | awaiting option => exact .error _
    | value option value => exact setValue_twin args option value
    | paths paths =>
      exact .ite (fun _ => .error _) fun _ => .ok (.of { args with paths := args.paths ++ paths })
  | pending args => exact setFormat_twin args

/-! ## Words -/

theorem addPath_twin (h : Twin state twin) (path : String) : Alike Twin (state.addPath path) (twin.addPath path) := by
  -- a path goes with the paths in front of it; anything else that is pending is judged first
  have hsettle : Alike Twin (state.settle >>= fun args => .ok ⟨args, .paths [path]⟩)
      (twin.settle >>= fun args => .ok ⟨args, .paths [path]⟩) :=
    (settle_twin h).bind fun _ _ ⟨args⟩ => .ok (.given args _)
  cases h with
  | given args pending =>
    cases pending with
    | paths paths => exact .ok (.given args _)
    | _ => exact hsettle
  | pending => exact hsettle

theorem addPlain_twin (h : Twin state twin) (text : String) :
    Alike Twin (state.addPlain text) (twin.addPlain text) := by
  have hpath : Alike Twin (state.addPath text) (twin.addPath text) := addPath_twin h text
  cases h with
  | given args pending =>
    cases pending with
    | awaiting option => exact .ok (.given args _)
    | _ => exact hpath
  | pending => exact hpath

theorem addFlag_twin (h : Twin state twin) (name : String) : Alike Twin (state.addFlag name) (twin.addFlag name) := by
  refine (settle_twin h).bind fun _ _ ⟨args⟩ => ?_
  refine .ite (fun _ => .error _) fun _ => ?_
  refine .ite (fun _ => .error _) fun _ => ?_
  exact .ite (fun _ => .error _) fun _ => .ok (.given { args with denyUnhandled := true } _)

/-- **Words.** A further word is added to both states, or it is refused in both with the same error. -/
theorem addWord_twin (h : Twin state twin) (versioned : Bool) (word : Word) :
    Alike Twin (state.addWord versioned word) (twin.addWord versioned word) := by
  cases word with
  | separator => exact .ok h
  | plain text => exact addPlain_twin h text
  | short flag =>
    refine .ite (fun _ => addFlag_twin h _) fun _ => ?_
    exact .ite (fun _ => addFlag_twin h _) fun _ => .error _
  | long name value =>
    simp only [State.addWord]
    cases ValueOption.ofName? name with
    | some option =>
      refine (settle_twin h).bind fun _ _ ⟨args⟩ => ?_
      cases value with
      | none => exact .ok (.given args _)
      | some value => exact (setValue_twin args option value).bind fun _ _ ⟨set⟩ => .ok (.given set _)
    | none =>
      refine .ite (fun _ => ?_) fun _ => .error _
      cases value with
      | none => exact addFlag_twin h name
      | some value => exact .error _

/-! ## Command lines -/

theorem addPaths_twin : ∀ {state twin : State} (paths : List String), Twin state twin →
    Alike Twin (paths.foldlM State.addPath state) (paths.foldlM State.addPath twin)
  | _, _, [], h => .ok h
  | _, _, path :: paths, h => (addPath_twin h path).bind fun _ _ => addPaths_twin paths

theorem parseOutline_of_separator {versioned : Bool} {state : State} {text : String} {rest : List String}
    (h : Word.ofText text = .separator) :
    parseOutline versioned state (text :: rest) = rest.foldlM State.addPath state >>= State.settle := by
  rw [parseOutline, h]

theorem parseOutline_of_word {versioned : Bool} {state : State} {text : String} {rest : List String}
    (h : Word.ofText text ≠ .separator) :
    parseOutline versioned state (text :: rest) =
      state.addWord versioned (Word.ofText text) >>= fun state => parseOutline versioned state rest := by
  rw [parseOutline]
  split
  · contradiction
  · rfl

/-- The rest of a command line is read alike from twin states. -/
theorem parseOutline_twin (versioned : Bool) : ∀ {state twin : State} (rest : List String), Twin state twin →
    Alike OutlineArgs.Twin (parseOutline versioned state rest) (parseOutline versioned twin rest)
  | _, _, [], h => settle_twin h
  | state, twin, text :: rest, h => by
    by_cases hword : Word.ofText text = .separator
    · rw [parseOutline_of_separator hword, parseOutline_of_separator hword]
      exact (addPaths_twin rest h).bind fun _ _ => settle_twin
    · rw [parseOutline_of_word hword, parseOutline_of_word hword]
      exact (addWord_twin h versioned _).bind fun _ _ => parseOutline_twin versioned rest

theorem ofName?_name (option : ValueOption) : ValueOption.ofName? option.name = some option := by
  cases option <;> rfl

/-- With its value in the same word, an option is judged at once. -/
theorem parseOutline_joined (versioned : Bool) (state : State) {option : ValueOption} {text value : String}
    (after : List String) (h : Word.ofText text = .long option.name (some value)) :
    parseOutline versioned state (text :: after) = state.settle >>= fun args => setValue args option value >>=
      fun args => parseOutline versioned ⟨args, .nothing⟩ after := by
  have hadd : state.addWord versioned (.long option.name (some value)) =
      state.settle >>= fun args => setValue args option value >>= fun args => .ok ⟨args, .nothing⟩ := by
    simp only [State.addWord, ofName?_name]
    rfl
  rw [parseOutline_of_word (by rw [h]; nofun), h, hadd]
  simp only [bind_assoc]
  rfl

/-- With its value in the next word, the option is judged later. -/
theorem parseOutline_separate (versioned : Bool) (state : State) {value : String} (after : List String)
    (h : Word.ofText value = .plain value) :
    parseOutline versioned state ("--format" :: value :: after) =
      state.settle >>= fun args => parseOutline versioned ⟨args, .value .format value⟩ after := by
  have hoption : Word.ofText "--format" = .long "format" none := by decide
  have hadd : state.addWord versioned (.long "format" none) =
      state.settle >>= fun args => .ok ⟨args, .awaiting .format⟩ := rfl
  rw [parseOutline_of_word (by decide), hoption, hadd, bind_assoc]
  congr 1
  funext args
  exact (parseOutline_of_word (by rw [h]; nofun)).trans (by rw [h]; rfl)

/-- From the word for the format on the two command lines are read alike. -/
theorem parseOutline_formatWords (versioned joined : Bool) (state : State) (after : List String) :
    Alike OutlineArgs.Twin (parseOutline versioned state (formatWords joined .text ++ after))
      (parseOutline versioned state (formatWords joined .json ++ after)) := by
  cases joined with
  | true =>
    have htext : Word.ofText ("--format=" ++ OutputFormat.text.name) = .long ValueOption.format.name (some "text") := by
      decide
    have hjson : Word.ofText ("--format=" ++ OutputFormat.json.name) = .long ValueOption.format.name (some "json") := by
      decide
    show Alike _ (parseOutline versioned state (("--format=" ++ OutputFormat.text.name) :: after))
      (parseOutline versioned state (("--format=" ++ OutputFormat.json.name) :: after))
    rw [parseOutline_joined versioned state after htext, parseOutline_joined versioned state after hjson]
    exact .bind_self _ fun args => (setFormat_twin args).bind fun _ _ ⟨set⟩ =>
      parseOutline_twin versioned after (.given set _)
  | false =>
    show Alike _ (parseOutline versioned state ("--format" :: "text" :: after))
      (parseOutline versioned state ("--format" :: "json" :: after))
    rw [parseOutline_separate versioned state after (by decide),
      parseOutline_separate versioned state after (by decide)]
    exact .bind_self _ fun args => parseOutline_twin versioned after (.pending args)

theorem ofText_eq_separator {text : String} (h : Word.ofText text = .separator) : text = "--" := by
  unfold Word.ofText at h
  split at h
  · rename_i htext
    exact String.toList_inj.1 htext
  · split at h <;> cases h
  · cases h
  · cases h

/-- In front of the format the two command lines are the same. -/
theorem parseOutline_before (versioned joined : Bool) (after : List String) : ∀ {before : List String} (state : State),
    "--" ∉ before →
      Alike OutlineArgs.Twin (parseOutline versioned state (before ++ (formatWords joined .text ++ after)))
        (parseOutline versioned state (before ++ (formatWords joined .json ++ after)))
  | [], state, _ => parseOutline_formatWords versioned joined state after
  | word :: before, state, hbefore => by
    have hword : Word.ofText word ≠ .separator := fun heq =>
      hbefore (ofText_eq_separator heq ▸ List.mem_cons_self)
    rw [List.cons_append, List.cons_append, parseOutline_of_word hword, parseOutline_of_word hword]
    exact .bind_self _ fun next =>
      parseOutline_before versioned joined after next fun hmem => hbefore (List.mem_cons_of_mem _ hmem)

theorem parse_of_head {arguments : List String} (h : ∀ name ∈ subcommands, arguments.head? ≠ some name) :
    parse arguments = (parseOutline true .start arguments).map (.outline false) := by
  unfold parse
  split
  · exact absurd rfl (h "outline" (by decide))
  · exact absurd rfl (h "kinds" (by decide))
  · exact absurd rfl (h "help" (by decide))
  · rfl

/-- **Command lines.** Command lines of the outline command that differ in the format are read alike: they are refused
with the same error, or they ask for the same outline. -/
theorem parse_twin {textWords jsonWords : List String} (h : DifferInFormat textWords jsonWords) :
    Alike Command.Twin (parse textWords) (parse jsonWords) := by
  obtain ⟨before, after, joined, hbefore, houtline⟩ := h
  have hnamed : ∀ (named : Bool) (a b : OutlineArgs), a.Twin b → Command.Twin (.outline named a) (.outline named b) :=
    fun named _ _ ⟨args⟩ => .of named args
  -- when no subcommand is named, all words are arguments of the outline command
  have hplain : (∀ format, ∀ name ∈ subcommands, (before ++ (formatWords joined format ++ after)).head? ≠ some name) →
      Alike Command.Twin (parse (before ++ (formatWords joined .text ++ after)))
        (parse (before ++ (formatWords joined .json ++ after))) := by
    intro hhead
    rw [parse_of_head (hhead .text), parse_of_head (hhead .json)]
    exact (parseOutline_before true joined after .start hbefore).map (hnamed false)
  cases before with
  | nil =>
    refine hplain fun format name hname => ?_
    have hwords : ∀ name ∈ subcommands, (formatWords joined format).head? ≠ some name := by
      cases joined <;> cases format <;> decide
    cases joined <;> exact hwords name hname
  | cons word before =>
    by_cases hword : word = "outline"
    · subst hword
      exact (parseOutline_before false joined after .start fun hmem => hbefore (List.mem_cons_of_mem _ hmem)).map
        (hnamed true)
    · refine hplain fun format name hname hhead => ?_
      obtain rfl : word = name := Option.some.inj hhead
      exact houtline word hname hword rfl

end CommandLine

end QueryOutline
