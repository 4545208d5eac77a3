import Mathlib.Logic.Function.Defs
import QueryOutline.Json.Reader.Text
import QueryOutline.Text.Quoted

/-!
# Quoted names and reference lists read back

A reader of quoted names stands beside the writer: it takes the opening quote, undoes escapes and stops at the first
occurrence of that quote that is not escaped.

* **Names** (`readQuoted?_quoteChars`): a quoted name ends where the reader stops, whatever text follows.
* **Lists** (`readReferenceList?_referenceList`): so a list of names is read back, and different lists are written
  differently (`referenceList_injective`).
* **One line** (`controlFree_referenceList`): no control character is written.
* **Together** (`quotedNames_read_back`): the three for all texts.
-/

namespace QueryOutline

/-! ## The reader -/

/-- The character that a backslash and a letter stand for between the given quotes. -/
def unescape? (quote letter : Char) : Option Char :=
  if letter = '\\' then some '\\'
  else if letter = 'n' then some '\n'
  else if letter = 'r' then some '\r'
  else if letter = 't' then some '\t'
  else if letter = quote then some quote
  else none

/-- Reads up to the first occurrence of the quote that is not escaped; gives what stood before it and what follows. -/
def readWithin? (quote : Char) : List Char → Option (List Char × List Char)
  | [] => none
  | '\\' :: 'x' :: high :: low :: rest =>
    (Json.hexNumber? [high, low]).bind fun n => (readWithin? quote rest).map (Prod.map (Char.ofNat n :: ·) id)
  | '\\' :: letter :: rest =>
    (unescape? quote letter).bind fun c => (readWithin? quote rest).map (Prod.map (c :: ·) id)
  | c :: rest => if c = quote then some ([], rest) else (readWithin? quote rest).map (Prod.map (c :: ·) id)

/-- Reads a quoted name; gives the name and what follows. -/
def readQuoted? : List Char → Option (List Char × List Char)
  | '\'' :: rest => readWithin? '\'' rest
  | '"' :: rest => readWithin? '"' rest
  | _ => none

/-- What was read in front of which a character was put. -/
theorem exists_of_map_cons {reading : Option (List Char × List Char)} {c : Char} {name rest : List Char}
    (h : reading.map (Prod.map (c :: ·) id) = some (name, rest)) : ∃ tail, reading = some (tail, rest) := by
  obtain ⟨⟨tail, rest⟩, hread, h⟩ := Option.map_eq_some_iff.1 h
  cases h
  exact ⟨tail, hread⟩

theorem readWithin?_length {quote : Char} {text : List Char} : ∀ {name rest : List Char},
    readWithin? quote text = some (name, rest) → rest.length < text.length := by
  fun_induction readWithin? quote text with
  | case1 => simp
  | case2 high low text ih =>
    intro name rest h
    obtain ⟨n, -, h⟩ := Option.bind_eq_some_iff.1 h
    obtain ⟨tail, hread⟩ := exists_of_map_cons h
    have := ih hread
    simp only [List.length_cons]
    omega
  | case3 letter text _ ih =>
    intro name rest h
    obtain ⟨c, -, h⟩ := Option.bind_eq_some_iff.1 h
    obtain ⟨tail, hread⟩ := exists_of_map_cons h
    have := ih hread
    simp only [List.length_cons]
    omega
  | case4 text =>
    intro name rest h
    cases h
    simp
  | case5 c text _ _ _ ih =>
    intro name rest h
    obtain ⟨tail, hread⟩ := exists_of_map_cons h
    have := ih hread
    simp only [List.length_cons]
    omega

theorem readQuoted?_length {text name rest : List Char} (h : readQuoted? text = some (name, rest)) :
    rest.length < text.length := by
  unfold readQuoted? at h
  split at h
  · have := readWithin?_length h
    simp only [List.length_cons]
    omega
  · have := readWithin?_length h
    simp only [List.length_cons]
    omega
  · cases h

/-- Reads a quoted name at the front of a text; gives the name and the text that follows. -/
def readName? (text : String) : Option (String × String) :=
  (readQuoted? text.toList).map (Prod.map String.ofList String.ofList)

/-- Reads quoted names with commas between them, up to a closing bracket at the end of the text. -/
def readNames? (text : List Char) : Option (List String) :=
  match _h : readQuoted? text with
  | some (name, [']']) => some [String.ofList name]
  | some (name, ',' :: ' ' :: rest) => (readNames? rest).map (String.ofList name :: ·)
  | _ => none
termination_by text.length
decreasing_by
  have := readQuoted?_length _h
  simp only [List.length_cons] at this
  omega

/-- Reads a reference list; the word `None` stands for no names. -/
def readReferenceList? (text : String) : Option (List String) :=
  match text.toList with
  | '[' :: rest => readNames? rest
  | word => if word = "None".toList then some [] else none

/-! ## Names -/

theorem quoteFor_eq (name : List Char) : quoteFor name = '\'' ∨ quoteFor name = '"' := by
  unfold quoteFor
  split
  · exact .inr rfl
  · exact .inl rfl

theorem hexNumber?_digits : ∀ n < 128,
    Json.hexNumber? [Nat.digitChar (n / 16), Nat.digitChar (n % 16)] = some n := by decide

section Quote

variable {quote : Char} (hquote : quote = '\'' ∨ quote = '"')
include hquote

/-- What is written for one character is read as that character, in each of the forms of writing. -/
theorem readWithin?_escapeWithin (c : Char) (text : List Char) :
    readWithin? quote (escapeWithin quote c ++ text) = (readWithin? quote text).map (Prod.map (c :: ·) id) := by
  unfold escapeWithin
  split
  · subst c; simp [readWithin?, unescape?]
  split
  · subst c; simp [readWithin?, unescape?]
  split
  · subst c; simp [readWithin?, unescape?]
  split
  · subst c; simp [readWithin?, unescape?]
  split
  · subst c; rcases hquote with rfl | rfl <;> simp [readWithin?, unescape?]
  split
  · rename_i hcontrol
    have hlt : c.toNat < 128 := by simp [isControl] at hcontrol; omega
    simp [readWithin?, hexNumber?_digits _ hlt]
  · simp_all [readWithin?]

theorem readWithin?_escaped (rest : List Char) : ∀ name : List Char,
    readWithin? quote (name.flatMap (escapeWithin quote) ++ quote :: rest) = some (name, rest)
  | [] => by rcases hquote with rfl | rfl <;> rfl
  | c :: name => by
    rw [List.flatMap_cons, List.append_assoc, readWithin?_escapeWithin hquote, readWithin?_escaped rest name]
    rfl

end Quote

/-- A quoted name ends where the reader stops, whatever text follows. -/
theorem readQuoted?_quoteChars (name rest : List Char) : readQuoted? (quoteChars name ++ rest) = some (name, rest) := by
  have hread := readWithin?_escaped (quoteFor_eq name) rest name
  have hchars : quoteChars name ++ rest =
      quoteFor name :: (name.flatMap (escapeWithin (quoteFor name)) ++ quoteFor name :: rest) := by
    simp [quoteChars]
  rw [hchars]
  rcases quoteFor_eq name with h | h <;> rw [h] at hread ⊢ <;> exact hread

example : readQuoted? "'it\\'s \"a\"\\x1f', 'b'".toList = some ("it's \"a\"\x1f".toList, ", 'b'".toList) := by decide

theorem readQuoted?_quoteName (name : String) (rest : List Char) :
    readQuoted? ((quoteName name).toList ++ rest) = some (name.toList, rest) := by
  rw [quoteName, String.toList_ofList, readQuoted?_quoteChars]

theorem readName?_quoteName (name text : String) : readName? (quoteName name ++ text) = some (name, text) := by
  rw [readName?, String.toList_append, readQuoted?_quoteName, Option.map_some, Prod.map_apply, String.ofList_toList,
    String.ofList_toList]

/-! ## Lists -/

theorem readNames?_of_last {text name : List Char} (h : readQuoted? text = some (name, [']'])) :
    readNames? text = some [String.ofList name] := by
  rw [readNames?]
  split <;> simp_all

theorem readNames?_of_comma {text name rest : List Char} (h : readQuoted? text = some (name, ',' :: ' ' :: rest)) :
    readNames? text = (readNames? rest).map (String.ofList name :: ·) := by
  rw [readNames?]
  split <;> simp_all

theorem readNames?_joined : ∀ (name : String) (names : List String),
    readNames? ((", ".intercalate ((name :: names).map quoteName)).toList ++ [']']) = some (name :: names)
  | name, [] => by
    have hread := readQuoted?_quoteName name [']']
    simpa using readNames?_of_last hread
  | name, next :: names => by
    have hchars : (", ".intercalate ((name :: next :: names).map quoteName)).toList ++ [']'] =
        (quoteName name).toList ++
          ',' :: ' ' :: ((", ".intercalate ((next :: names).map quoteName)).toList ++ [']']) := by
      simp [String.intercalate_cons_cons]
    have hread := readQuoted?_quoteName name
      (',' :: ' ' :: ((", ".intercalate ((next :: names).map quoteName)).toList ++ [']']))
    rw [hchars, readNames?_of_comma hread, readNames?_joined next names, Option.map_some, String.ofList_toList]

/-- A reference list is read back. -/
theorem readReferenceList?_referenceList : ∀ names : List String, readReferenceList? (referenceList names) = some names
  | [] => by rfl
  | name :: names => by
    have hchars : (referenceList (name :: names)).toList =
        '[' :: ((", ".intercalate ((name :: names).map quoteName)).toList ++ [']']) := by
      simp [referenceList]
    rw [readReferenceList?, hchars]
    exact readNames?_joined name names

theorem referenceList_injective : Function.Injective referenceList := fun names others h =>
  Option.some.inj (by rw [← readReferenceList?_referenceList names, h, readReferenceList?_referenceList others])

/-! ## One line -/

/-- No ASCII control character stands in the text, so it stays on one line. -/
def ControlFree (text : List Char) : Prop := ∀ c ∈ text, ¬(c.toNat < 32 ∨ c.toNat = 127)

instance (text : List Char) : Decidable (ControlFree text) :=
  decidable_of_iff (text.all fun c => !(c.toNat < 32 || c.toNat = 127)) (by simp [ControlFree])

theorem ControlFree.append {text more : List Char} (h : ControlFree text) (hmore : ControlFree more) :
    ControlFree (text ++ more) := by
  intro c hc
  rcases List.mem_append.1 hc with hc | hc
  · exact h c hc
  · exact hmore c hc

theorem controlFree_flatMap {text : List Char} {write : Char → List Char} (h : ∀ c, ControlFree (write c)) :
    ControlFree (text.flatMap write) := by
  intro c hc
  obtain ⟨d, _, hc⟩ := List.mem_flatMap.1 hc
  exact h d c hc

/-- The digits of an escape are characters of their own. -/
theorem controlFree_digits : ∀ n < 128, ControlFree ['\\', 'x', Nat.digitChar (n / 16), Nat.digitChar (n % 16)] := by
  decide

theorem controlFree_escapeWithin {quote : Char} (hquote : ControlFree [quote]) (c : Char) :
    ControlFree (escapeWithin quote c) := by
  unfold escapeWithin
  split
  · decide
  split
  · decide
  split
  · decide
  split
  · decide
  split
  · rename_i hc
    subst hc
    have hslash : ControlFree ['\\'] := by decide
    exact hslash.append hquote
  split
  · rename_i hcontrol
    exact controlFree_digits _ (by simp [isControl] at hcontrol; omega)
  · rename_i hcontrol
    intro d hd
    rw [List.mem_singleton.1 hd]
    simpa [isControl] using hcontrol

theorem controlFree_quoteChars (name : List Char) : ControlFree (quoteChars name) := by
  have hquote : ControlFree [quoteFor name] := by
    rcases quoteFor_eq name with h | h <;> rw [h] <;> decide
  have hbody : ControlFree (name.flatMap (escapeWithin (quoteFor name))) :=
    controlFree_flatMap (controlFree_escapeWithin hquote)
  simpa [quoteChars] using hquote.append (hbody.append hquote)

theorem controlFree_intercalate {separator : String} (h : ControlFree separator.toList) : ∀ {texts : List String},
    (∀ text ∈ texts, ControlFree text.toList) → ControlFree (separator.intercalate texts).toList
  | [], _ => by simp [ControlFree]
  | [text], ht => by simpa using ht
  | text :: next :: texts, ht => by
    have hrest := controlFree_intercalate h fun other hm => ht other (List.mem_cons_of_mem _ hm)
    rw [String.intercalate_cons_cons, String.toList_append, String.toList_append]
    exact ((ht text List.mem_cons_self).append h).append hrest

/-- No control character is written in a reference list. -/
theorem controlFree_referenceList (names : List String) : ControlFree (referenceList names).toList := by
  cases names with
  | nil => decide
  | cons name names =>
    have hnames : ControlFree (", ".intercalate ((name :: names).map quoteName)).toList := by
      refine controlFree_intercalate (by decide) fun text hm => ?_
      obtain ⟨other, _, rfl⟩ := List.mem_map.1 hm
      rw [quoteName, String.toList_ofList]
      exact controlFree_quoteChars other.toList
    have hopen : ControlFree ['['] := by decide
    have hclose : ControlFree [']'] := by decide
    simpa [referenceList] using hopen.append (hnames.append hclose)

/-- **Reading back.** Every reference list is read back as the names it was written for, so it is written for one list
only; reading a quoted name gives the name and leaves exactly the text behind it; and no control character breaks the
line of the list. -/
theorem quotedNames_read_back :
    (∀ names : List String, readReferenceList? (referenceList names) = some names) ∧
    Function.Injective referenceList ∧
    (∀ name text : String, readName? (quoteName name ++ text) = some (name, text)) ∧
    ∀ names : List String, ControlFree (referenceList names).toList :=
  ⟨readReferenceList?_referenceList, referenceList_injective, readName?_quoteName, controlFree_referenceList⟩

end QueryOutline
