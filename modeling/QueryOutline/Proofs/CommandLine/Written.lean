import Mathlib.Data.List.Perm.Basic
import QueryOutline.Proofs.CommandLine

/-!
# Written arguments

The arguments of the outline command can be written as words: an option with its value in one word for everything that
is given, in any order, then the separator and the paths. Reading the words gives the arguments again, whatever the
values and the paths look like.

* **Numbers** (`readNumber_digits`): the decimal digits of a number of 64 bits are read back.
* **Option words** (`OptionWord`, `parseOutline_optionWords`): each one adds what it gives to what has been read.
* **Command lines** (`parse_written`): with the paths behind the separator, all arguments are read back.
-/

namespace QueryOutline.CommandLine

open Nat (ofDigitChars toDigits)

/-! ## Numbers -/

theorem le_ofDigitChars : ∀ (digits : List Char) (n : Nat), n ≤ ofDigitChars 10 digits n
  | [], n => Nat.le_of_eq Nat.ofDigitChars_nil.symm
  | c :: digits, n => by
    have ih := le_ofDigitChars digits (10 * n + (c.toNat - '0'.toNat))
    rw [Nat.ofDigitChars_cons]
    omega

/-- Digits are read as the number that they denote, if it fits. -/
theorem readDigits_eq_ok : ∀ {digits : List Char} {n : Nat}, (∀ c ∈ digits, c.isDigit = true) →
    ofDigitChars 10 digits n < Nat.pow 2 64 → readDigits n digits = .ok (ofDigitChars 10 digits n)
  | [], n, _, _ => by rw [readDigits, Nat.ofDigitChars_nil]
  | c :: digits, n, hdigits, hfits => by
    obtain ⟨hc, hrest⟩ := List.forall_mem_cons.1 hdigits
    rw [Nat.ofDigitChars_cons, Nat.mul_comm] at hfits ⊢
    have hnext : ¬Nat.pow 2 64 ≤ n * 10 + (c.toNat - '0'.toNat) :=
      Nat.not_le.2 (Nat.lt_of_le_of_lt (le_ofDigitChars digits _) hfits)
    rw [readDigits, hc]
    simp only [Bool.not_true, Bool.false_eq_true, if_false, hnext]
    exact readDigits_eq_ok hrest hfits

/-- The decimal digits of a number of 64 bits are read back. -/
theorem readNumber_digits {n : Nat} (h : n < Nat.pow 2 64) : readNumber (String.ofList (toDigits 10 n)) = .ok n := by
  have hdigits : ∀ c ∈ toDigits 10 n, c.isDigit = true := fun c hc =>
    Nat.isDigit_of_mem_toDigits (by decide) (by decide) hc
  have hread : readDigits 0 (toDigits 10 n) = .ok n := by
    rw [readDigits_eq_ok hdigits (by rwa [Nat.ofDigitChars_ten_toDigits]), Nat.ofDigitChars_ten_toDigits]
  rw [readNumber, String.toList_ofList]
  split
  · rename_i hnil
    exact absurd hnil Nat.toDigits_ne_nil
  · rename_i c rest hplus
    have hsign := hdigits '+' (hplus ▸ List.mem_cons_self)
    exact absurd hsign (by decide)
  · exact hread

end QueryOutline.CommandLine

namespace QueryOutline

/-! ## Option words -/

/-- A word that gives one of the arguments. -/
inductive OptionWord where
  | format (format : OutputFormat)
  | indent (width : Nat)
  | config (file : String)
  | denyUnhandled
  deriving DecidableEq, Repr

def OptionWord.text : OptionWord → String
  | format f => "--format=" ++ f.name
  | indent width => "--indent=" ++ String.ofList (Nat.toDigits 10 width)
  | config file => "--config=" ++ file
  | denyUnhandled => "--deny-unhandled"

namespace OutlineArgs

/-- The words for all that is given besides the paths. -/
def optionWords (args : OutlineArgs) : List OptionWord :=
  (args.format.map .format).toList ++ (args.indent.map .indent).toList ++ (args.config.map .config).toList ++
    if args.denyUnhandled then [.denyUnhandled] else []

/-- The arguments as far as the words give them. -/
def only (args : OutlineArgs) (given : List OptionWord) : OutlineArgs where
  paths := []
  format := args.format.filter fun f => .format f ∈ given
  indent := args.indent.filter fun width => .indent width ∈ given
  config := args.config.filter fun file => .config file ∈ given
  denyUnhandled := args.denyUnhandled && decide (.denyUnhandled ∈ given)

variable {args : OutlineArgs} {word : OptionWord} {given : List OptionWord}

/-- The word gives what is given. -/
def Gives (args : OutlineArgs) : OptionWord → Prop
  | .format f => args.format = some f
  | .indent width => args.indent = some width
  | .config file => args.config = some file
  | .denyUnhandled => args.denyUnhandled = true

theorem mem_optionWords : word ∈ args.optionWords ↔ args.Gives word := by
  cases word <;> simp [optionWords, Gives]

theorem nodup_optionWords (args : OutlineArgs) : args.optionWords.Nodup := by
  obtain ⟨paths, format, indent, config, denyUnhandled⟩ := args
  cases format <;> cases indent <;> cases config <;> cases denyUnhandled <;> simp [optionWords]

theorem only_nil (args : OutlineArgs) : args.only [] = .none := by
  simp [only, OutlineArgs.none]

/-- What is given by words among those that count is given. -/
theorem filter_of_given {α : Type} {value : Option α} {toWord : α → OptionWord}
    (h : ∀ a, value = some a → toWord a ∈ given) : (value.filter fun a => toWord a ∈ given) = value := by
  cases value with
  | none => rfl
  | some a => simp [h a rfl]

/-- What is given by a word that does not count is not given. -/
theorem filter_of_new {α : Type} {value : Option α} {toWord : α → OptionWord} {a : α} (h : value = some a)
    (hnew : toWord a ∉ given) : (value.filter fun a => toWord a ∈ given) = Option.none := by
  simp [h, hnew]

/-- With all words everything is given. -/
theorem only_of_subset (h : args.optionWords ⊆ given) : args.only given = { args with paths := [] } := by
  have hgiven : ∀ word, args.Gives word → word ∈ given := fun word hword => h (mem_optionWords.2 hword)
  have hdeny : (args.denyUnhandled && decide (.denyUnhandled ∈ given)) = args.denyUnhandled := by
    cases hcase : args.denyUnhandled with
    | false => rfl
    | true => simp [hgiven .denyUnhandled hcase]
  rw [only, filter_of_given fun f => hgiven (.format f), filter_of_given fun width => hgiven (.indent width),
    filter_of_given fun file => hgiven (.config file), hdeny]

/-- One more word gives one thing more. -/
theorem only_cons (hword : args.Gives word) : args.only (word :: given) = match word with
    | .format f => { args.only given with format := some f }
    | .indent width => { args.only given with indent := some width }
    | .config file => { args.only given with config := some file }
    | .denyUnhandled => { args.only given with denyUnhandled := true } := by
  cases word <;> simp only [Gives] at hword <;> simp [only, hword]

/-- The arguments can be written: no path and no config file is empty, and the width is a number of 64 bits. -/
structure Writable (args : OutlineArgs) : Prop where
  paths : "" ∉ args.paths
  config : args.config ≠ some ""
  indent : ∀ width, args.indent = some width → width < Nat.pow 2 64

end OutlineArgs

namespace CommandLine

variable {args : OutlineArgs} {word : OptionWord} {given : List OptionWord}

/-- A word with two hyphens and an equality sign is an option with its value, which begins behind the first such
sign. -/
theorem ofText_joined {name : String} (hname : '=' ∉ name.toList) (value : String) :
    Word.ofText ("--" ++ name ++ "=" ++ value) = .long name (some value) := by
  have htext : ("--" ++ name ++ "=" ++ value).toList = '-' :: '-' :: (name.toList ++ '=' :: value.toList) := by
    simp
  have hpass : ∀ c ∈ name.toList, decide (c ≠ '=') = true := fun c hc => decide_eq_true fun heq => hname (heq ▸ hc)
  have htake : (name.toList ++ '=' :: value.toList).takeWhile (· ≠ '=') = name.toList := by
    rw [List.takeWhile_append_of_pos hpass]
    simp
  have hdrop : (name.toList ++ '=' :: value.toList).dropWhile (· ≠ '=') = '=' :: value.toList := by
    rw [List.dropWhile_append_of_pos hpass]
    simp
  obtain ⟨first, others, hrest⟩ := List.exists_cons_of_ne_nil
    (List.append_ne_nil_of_right_ne_nil name.toList (List.cons_ne_nil '=' value.toList))
  rw [hrest] at htext htake hdrop
  unfold Word.ofText
  simp only [htext, htake, hdrop, String.ofList_toList]

theorem ofText_option (option : ValueOption) (value : String) :
    Word.ofText ("--" ++ option.name ++ "=" ++ value) = .long option.name (some value) :=
  ofText_joined (by cases option <;> decide) value

/-- An option word is not a separator, and what it gives is added to what the words before it gave. -/
theorem parseOutline_optionWord (versioned : Bool) (hargs : args.Writable) (hword : args.Gives word)
    (hnew : word ∉ given) (after : List String) :
    parseOutline versioned ⟨args.only given, .nothing⟩ (word.text :: after) =
      parseOutline versioned ⟨args.only (word :: given), .nothing⟩ after := by
  -- an option is judged at once, and its value is accepted
  have hvalue : ∀ (option : ValueOption) (value : String), word.text = "--" ++ option.name ++ "=" ++ value →
      setValue (args.only given) option value = .ok (args.only (word :: given)) →
        parseOutline versioned ⟨args.only given, .nothing⟩ (word.text :: after) =
          parseOutline versioned ⟨args.only (word :: given), .nothing⟩ after := by
    intro option value htext hset
    rw [htext, parseOutline_joined versioned _ after (ofText_option option value)]
    show setValue (args.only given) option value >>= _ = _
    rw [hset]
    rfl
  cases word with
  | format f =>
    have hfree : (args.only given).format = none := OutlineArgs.filter_of_new hword hnew
    have hname : OutputFormat.ofName? f.name = some f := by cases f <;> rfl
    have hvalid : f.name ≠ "" := by cases f <;> decide
    refine hvalue .format f.name rfl ?_
    simp [setValue, hfree, hvalid, hname, OutlineArgs.only_cons hword]
  | indent width =>
    have hfree : (args.only given).indent = none := OutlineArgs.filter_of_new hword hnew
    refine hvalue .indent _ rfl ?_
    simp [setValue, hfree, readNumber_digits (hargs.indent width hword), OutlineArgs.only_cons hword]
  | config file =>
    have hfree : (args.only given).config = none := OutlineArgs.filter_of_new hword hnew
    have hvalid : file ≠ "" := fun hempty => hargs.config (hempty ▸ hword)
    refine hvalue .config file rfl ?_
    simp [setValue, hfree, hvalid, OutlineArgs.only_cons hword]
  | denyUnhandled =>
    have hfree : (args.only given).denyUnhandled = false := by simp [OutlineArgs.only, hnew]
    have htext : Word.ofText OptionWord.denyUnhandled.text = .long "deny-unhandled" none := by decide
    have hadd : State.addWord versioned ⟨args.only given, .nothing⟩ (.long "deny-unhandled" none) =
        .ok ⟨args.only (.denyUnhandled :: given), .nothing⟩ := by
      have hflag : State.addFlag ⟨args.only given, .nothing⟩ "deny-unhandled" =
          if (args.only given).denyUnhandled = true then .error (.repeated "--deny-unhandled")
          else .ok ⟨{ args.only given with denyUnhandled := true }, .nothing⟩ := rfl
      rw [OutlineArgs.only_cons hword]
      exact hflag.trans (if_neg (by simp [hfree]))
    rw [parseOutline_of_word (by rw [htext]; nofun), htext, hadd]
    rfl

/-- **Option words.** In any order, they add all that they give. -/
theorem parseOutline_optionWords (versioned : Bool) (hargs : args.Writable) (after : List String) :
    ∀ {order given : List OptionWord}, (∀ word ∈ order, args.Gives word) → (order ++ given).Nodup →
      parseOutline versioned ⟨args.only given, .nothing⟩ (order.map OptionWord.text ++ after) =
        parseOutline versioned ⟨args.only (order.reverse ++ given), .nothing⟩ after
  | [], given, _, _ => rfl
  | word :: order, given, hgives, hnodup => by
    obtain ⟨hword, horder⟩ := List.forall_mem_cons.1 hgives
    have hnew : word ∉ given := fun hmem => (List.nodup_cons.1 hnodup).1 (List.mem_append_right order hmem)
    rw [List.map_cons, List.cons_append, parseOutline_optionWord versioned hargs hword hnew,
      parseOutline_optionWords versioned hargs after horder (List.perm_middle.nodup_iff.2 hnodup), List.reverse_cons,
      List.append_assoc, List.singleton_append]

/-! ## Command lines -/

theorem addPaths_append : ∀ (paths before : List String),
    paths.foldlM State.addPath ⟨args, .paths before⟩ = .ok ⟨args, .paths (before ++ paths)⟩
  | [], before => by rw [List.append_nil]; rfl
  | path :: paths, before => by
    have hadd : State.addPath ⟨args, .paths before⟩ path = .ok ⟨args, .paths (before ++ [path])⟩ := rfl
    rw [List.foldlM_cons, hadd, List.append_cons before path paths]
    exact addPaths_append paths (before ++ [path])

/-- Behind the separator every word is a path. -/
theorem parseOutline_paths (versioned : Bool) {paths : List String} (h : "" ∉ paths) :
    parseOutline versioned ⟨args, .nothing⟩ ("--" :: paths) = .ok { args with paths := args.paths ++ paths } := by
  rw [parseOutline_of_separator (by decide)]
  cases paths with
  | nil => rw [List.append_nil]; rfl
  | cons path paths =>
    have hadd : State.addPath ⟨args, .nothing⟩ path = .ok ⟨args, .paths [path]⟩ := rfl
    rw [List.foldlM_cons, hadd]
    show paths.foldlM State.addPath ⟨args, .paths [path]⟩ >>= State.settle = _
    rw [addPaths_append]
    exact if_neg h

theorem text_ne_subcommand (word : OptionWord) : ∀ name ∈ subcommands, word.text ≠ name := by
  have hhyphen : word.text.toList.head? = some '-' := by
    cases word with
    | denyUnhandled => decide
    | _ => simp [OptionWord.text]
  have hnames : ∀ name ∈ subcommands, name.toList.head? ≠ some '-' := by decide
  exact fun name hname heq => hnames name hname (heq ▸ hhyphen)

end CommandLine

open CommandLine

/-- **Written arguments are read back.** The option words of the arguments in any order, the separator and the paths are
read as these arguments, with and without the name of the outline command in front. -/
theorem parse_written {args : OutlineArgs} (hargs : args.Writable) {words : List String}
    (hwords : words.Perm (args.optionWords.map OptionWord.text)) :
    parse (words ++ "--" :: args.paths) = .ok (.outline false args) ∧
      parse ("outline" :: (words ++ "--" :: args.paths)) = .ok (.outline true args) := by
  obtain ⟨order, rfl, horder⟩ : ∃ order : List OptionWord,
      words = order.map OptionWord.text ∧ order.Perm args.optionWords :=
    (congrFun₂ (List.eq_map_comp_perm OptionWord.text) words args.optionWords).mpr hwords
  have hgives : ∀ word ∈ order, args.Gives word := fun word hword =>
    OutlineArgs.mem_optionWords.1 (horder.mem_iff.1 hword)
  have hnodup : (order ++ []).Nodup := by
    rw [List.append_nil]
    exact horder.nodup_iff.2 args.nodup_optionWords
  have hall : args.only (order.reverse ++ []) = { args with paths := [] } :=
    OutlineArgs.only_of_subset fun word hword => by simpa using horder.mem_iff.2 hword
  have hparse : ∀ versioned, parseOutline versioned .start (order.map OptionWord.text ++ "--" :: args.paths) =
      .ok args := by
    intro versioned
    rw [State.start, ← args.only_nil, parseOutline_optionWords versioned hargs _ hgives hnodup, hall]
    exact parseOutline_paths versioned hargs.paths
  have hhead : ∀ name ∈ subcommands, (order.map OptionWord.text ++ "--" :: args.paths).head? ≠ some name := by
    intro name hname hfirst
    cases order with
    | nil =>
      obtain rfl := Option.some.inj hfirst
      exact absurd hname (by decide)
    | cons word order => exact text_ne_subcommand word name hname (Option.some.inj hfirst)
  rw [parse_of_head hhead, parse, hparse, hparse]
  exact ⟨rfl, rfl⟩

/-- Arguments with values and paths that look like options, a separator and a subcommand. -/
def trickyArgs : OutlineArgs where
  paths := ["--", "-x", "kinds", "--indent=9"]
  format := some .json
  indent := some 18446744073709551615
  config := some "--config=a b"
  denyUnhandled := true

theorem trickyArgs_written :
    trickyArgs.Writable ∧
    parse ["--deny-unhandled", "--config=--config=a b", "--indent=18446744073709551615", "--format=json", "--", "--",
      "-x", "kinds", "--indent=9"] = .ok (.outline false trickyArgs) ∧
    parse ["outline", "--deny-unhandled", "--config=--config=a b", "--indent=18446744073709551615", "--format=json",
      "--", "--", "-x", "kinds", "--indent=9"] = .ok (.outline true trickyArgs) := by
  have hwritable : trickyArgs.Writable := by
    refine ⟨by decide, by decide, fun width hwidth => ?_⟩
    obtain rfl := Option.some.inj hwidth
    decide
  have hwords : ["--deny-unhandled", "--config=--config=a b", "--indent=18446744073709551615", "--format=json"].Perm
      (trickyArgs.optionWords.map OptionWord.text) := by decide
  exact ⟨hwritable, parse_written hwritable hwords⟩

end QueryOutline
