import QueryOutline.Document
import QueryOutline.Json.Printer
import QueryOutline.Proofs.Json.Nesting
import QueryOutline.Proofs.Keyed

/-!
# JSON texts that are read back

What the writer writes for a value is read as that value, in both layouts. Both are the one layout `spacedText`, with
other margins in front of items and fields and with other spaces after colons.

* **Strings** (`readString_quoted`): a quoted string is read back, whatever text follows.
* **Plain values** (`Value.Plain`): values without numbers, with the fields of objects in key order.
* **Values** (`readValue_spaced`): by induction on the budget, items and fields are read back one after the other.
* **Texts** (`read_compact`, `read_pretty`, `read_pretty_line`): a plain value that is not too deep is read back from
  both of its texts, also with a line break at the end.
-/

namespace QueryOutline.Json

/-! ## Strings -/

/-- The digits that are written for a control character are read as that character. -/
theorem readEscape_hex (c : Char) (hc : c < ' ') (text : List Char) :
    readEscape ('u' :: '0' :: '0' :: hexDigit (c.toNat / 16) :: hexDigit (c.toNat % 16) :: text) = .ok (c, text) := by
  have hcode : c.toNat < 32 := hc
  have hbytes : ∀ n < 32, byteCount ['0', '0', hexDigit (n / 16), hexDigit (n % 16)] = 4 := by decide
  have hnumber : ∀ n < 32, hexNumber? ['0', '0', hexDigit (n / 16), hexDigit (n % 16)] = some n := by decide
  have hhex : readHex ('0' :: '0' :: hexDigit (c.toNat / 16) :: hexDigit (c.toNat % 16) :: text) =
      .ok (c.toNat, text) := by
    simp only [readHex, List.take, List.drop, hbytes _ hcode, hnumber _ hcode, Nat.lt_irrefl, if_false]
  have hlow : isLowSurrogate c.toNat = false := by simp [isLowSurrogate]; omega
  have hhigh : isHighSurrogate c.toNat = false := by simp [isHighSurrogate]; omega
  simp [readEscape, hhex, Reading.andThen, hlow, hhigh]

/-- What is written for one character is read as that character, in each of the forms of writing. -/
theorem readChars_escaped (bound : Nat) (c : Char) (text : List Char) :
    readChars (bound + 1) (escaped c ++ text) =
      (readChars bound text).andThen fun cs rest => .ok (c :: cs, rest) := by
  unfold escaped
  split
  · subst c; rfl
  split
  · subst c; rfl
  split
  · subst c; rfl
  split
  · subst c; rfl
  split
  · subst c; rfl
  split
  · subst c; rfl
  split
  · subst c; rfl
  split
  · rename_i hcontrol
    simp only [List.cons_append, List.nil_append, readChars, readEscape_hex c hcontrol]
    rfl
  · rename_i hquote hbackslash _ _ _ _ _ hcontrol
    rw [List.singleton_append, readChars]
    · simp only [hcontrol, if_false]
    · exact hquote
    · exact fun h => hbackslash h

theorem readChars_flatMap_escaped (text : List Char) : ∀ {bound : Nat} {cs : List Char}, cs.length < bound →
    readChars bound (cs.flatMap escaped ++ '"' :: text) = .ok (cs, text)
  | bound + 1, [], _ => rfl
  | bound + 1, c :: cs, h => by
    rw [List.flatMap_cons, List.append_assoc, readChars_escaped,
      readChars_flatMap_escaped text (Nat.lt_of_succ_lt_succ h)]
    rfl

theorem length_escaped_pos (c : Char) : 0 < (escaped c).length := by
  unfold escaped
  repeat' split
  all_goals simp

theorem length_le_escaped (cs : List Char) : cs.length ≤ (cs.flatMap escaped).length := by
  induction cs with
  | nil => exact Nat.le_refl 0
  | cons c cs ih =>
    have := length_escaped_pos c
    rw [List.flatMap_cons, List.length_append, List.length_cons]
    omega

/-- **Strings.** A quoted string is read back, whatever text follows. -/
theorem readString_quoted (s : String) (text : List Char) :
    readString (s.toList.flatMap escaped ++ '"' :: text) = .ok (s, text) := by
  have hbound : s.toList.length < (s.toList.flatMap escaped ++ '"' :: text).length := by
    have := length_le_escaped s.toList
    rw [List.length_append, List.length_cons]
    omega
  rw [readString, readChars_flatMap_escaped text hbound, Reading.andThen, String.ofList_toList]

/-! ## Values that are read back -/

namespace Value

mutual

/-- There are no numbers, and the fields of every object stand in increasing order of their keys. -/
def Plain : Value → Prop
  | .number _ => False
  | .array items => PlainItems items
  | .object fields => Names.Increasing (fields.map Prod.fst) ∧ PlainFields fields
  | _ => True
termination_by structural v => v

def PlainItems : List Value → Prop
  | [] => True
  | v :: vs => Plain v ∧ PlainItems vs
termination_by structural vs => vs

def PlainFields : List (String × Value) → Prop
  | [] => True
  | (_, v) :: fs => Plain v ∧ PlainFields fs
termination_by structural fs => fs

end

mutual

def decidePlain : ∀ v : Value, Decidable v.Plain
  | .null => .isTrue trivial
  | .bool _ => .isTrue trivial
  | .number _ => .isFalse id
  | .string _ => .isTrue trivial
  | .array items => decidePlainItems items
  | .object fields =>
    have : Decidable (PlainFields fields) := decidePlainFields fields
    inferInstanceAs (Decidable (List.Pairwise (· < ·) (fields.map Prod.fst) ∧ PlainFields fields))
termination_by structural v => v

def decidePlainItems : ∀ items : List Value, Decidable (PlainItems items)
  | [] => .isTrue trivial
  | v :: vs =>
    have : Decidable v.Plain := decidePlain v
    have : Decidable (PlainItems vs) := decidePlainItems vs
    inferInstanceAs (Decidable (v.Plain ∧ PlainItems vs))
termination_by structural items => items

def decidePlainFields : ∀ fields : List (String × Value), Decidable (PlainFields fields)
  | [] => .isTrue trivial
  | (_, v) :: fs =>
    have : Decidable v.Plain := decidePlain v
    have : Decidable (PlainFields fs) := decidePlainFields fs
    inferInstanceAs (Decidable (v.Plain ∧ PlainFields fs))
termination_by structural fields => fields

end

instance : DecidablePred Plain := decidePlain

theorem plainItems_iff : ∀ {items : List Value}, PlainItems items ↔ ∀ item ∈ items, item.Plain
  | [] => by simp [PlainItems]
  | item :: items => by rw [PlainItems, plainItems_iff, List.forall_mem_cons]

theorem plainFields_iff : ∀ {fields : List (String × Value)}, PlainFields fields ↔ ∀ field ∈ fields, field.2.Plain
  | [] => by simp [PlainFields]
  | (name, value) :: fields => by rw [PlainFields, plainFields_iff, List.forall_mem_cons]

end Value

/-! ## Layouts -/

section Layout

variable (margin : Nat → List Char) (space : List Char)

mutual

/-- The text of a value inside brackets of the given level, with a margin in front of each item, field and closing
bracket, and with some space after each colon. -/
def spacedText (level : Nat) : Value → List Char
  | .array [] => ['[', ']']
  | .array (v :: vs) =>
    '[' :: (margin (level + 1) ++ spacedText (level + 1) v ++ spacedItems (level + 1) vs ++ margin level ++ [']'])
  | .object [] => ['{', '}']
  | .object ((k, v) :: fs) =>
    '{' :: (margin (level + 1) ++ quoted k ++ ':' :: space ++ spacedText (level + 1) v ++ spacedFields (level + 1) fs ++
      margin level ++ ['}'])
  | .null => ['n', 'u', 'l', 'l']
  | .bool true => ['t', 'r', 'u', 'e']
  | .bool false => ['f', 'a', 'l', 's', 'e']
  | .number n => n.text
  | .string s => quoted s
termination_by structural v => v

/-- The items after the first one. -/
def spacedItems (level : Nat) : List Value → List Char
  | [] => []
  | v :: vs => ',' :: (margin level ++ spacedText level v ++ spacedItems level vs)
termination_by structural vs => vs

/-- The fields after the first one. -/
def spacedFields (level : Nat) : List (String × Value) → List Char
  | [] => []
  | (k, v) :: fs => ',' :: (margin level ++ quoted k ++ ':' :: space ++ spacedText level v ++ spacedFields level fs)
termination_by structural fs => fs

end

end Layout

mutual

theorem compactText_eq (level : Nat) : ∀ v : Value, compactText v = spacedText (fun _ => []) [] level v
  | .array [] => rfl
  | .array (v :: vs) => by
    rw [compactText, compactItems_cons (level + 1) vs, compactText_eq (level + 1) v, spacedText]
    simp only [List.nil_append, List.append_assoc]
  | .object [] => rfl
  | .object ((k, v) :: fs) => by
    rw [compactText, compactFields_cons (level + 1) fs, compactText_eq (level + 1) v, spacedText]
    simp only [List.nil_append, List.append_assoc, List.cons_append]
  | .null => rfl
  | .bool true => rfl
  | .bool false => rfl
  | .number _ => rfl
  | .string _ => rfl
termination_by structural v => v

theorem compactItems_cons (level : Nat) : ∀ (vs : List Value) {v : Value},
    compactItems (v :: vs) = compactText v ++ spacedItems (fun _ => []) [] level vs
  | [], v => (List.append_nil _).symm
  | w :: vs, v => by
    show compactText v ++ ',' :: compactItems (w :: vs) = _
    rw [compactItems_cons level vs, compactText_eq level w, spacedItems, List.nil_append]
termination_by structural vs => vs

theorem compactFields_cons (level : Nat) : ∀ (fs : List (String × Value)) {k : String} {v : Value},
    compactFields ((k, v) :: fs) = quoted k ++ ':' :: (compactText v ++ spacedFields (fun _ => []) [] level fs)
  | [], k, v => by rw [compactFields, spacedFields, List.append_nil]
  | (l, w) :: fs, k, v => by
    show quoted k ++ ':' :: compactText v ++ ',' :: compactFields ((l, w) :: fs) = _
    rw [compactFields_cons level fs, compactText_eq level w, spacedFields]
    simp only [List.nil_append, List.append_assoc, List.cons_append]
termination_by structural fs => fs

end

mutual

theorem prettyText_eq (level : Nat) : ∀ v : Value, prettyText level v = spacedText newLine [' '] level v
  | .array [] => rfl
  | .array (v :: vs) => by
    show '[' :: (prettyItems (level + 1) (v :: vs) ++ newLine level ++ [']']) = _
    rw [prettyItems_cons (level + 1) vs, prettyText_eq (level + 1) v, spacedText]
  | .object [] => rfl
  | .object ((k, v) :: fs) => by
    show '{' :: (prettyFields (level + 1) ((k, v) :: fs) ++ newLine level ++ ['}']) = _
    rw [prettyFields_cons (level + 1) fs, prettyText_eq (level + 1) v, spacedText]
    simp only [List.append_assoc, List.cons_append, List.nil_append]
  | .null => rfl
  | .bool true => rfl
  | .bool false => rfl
  | .number _ => rfl
  | .string _ => rfl
termination_by structural v => v

theorem prettyItems_cons (level : Nat) : ∀ (vs : List Value) {v : Value},
    prettyItems level (v :: vs) = newLine level ++ prettyText level v ++ spacedItems newLine [' '] level vs
  | [], v => (List.append_nil _).symm
  | w :: vs, v => by
    show newLine level ++ prettyText level v ++ ',' :: prettyItems level (w :: vs) = _
    rw [prettyItems_cons level vs, prettyText_eq level w, spacedItems]
termination_by structural vs => vs

theorem prettyFields_cons (level : Nat) : ∀ (fs : List (String × Value)) {k : String} {v : Value},
    prettyFields level ((k, v) :: fs) =
      newLine level ++ quoted k ++ ':' :: ' ' :: (prettyText level v ++ spacedFields newLine [' '] level fs)
  | [], k, v => by rw [prettyFields, spacedFields, List.append_nil]
  | (l, w) :: fs, k, v => by
    show newLine level ++ quoted k ++ ':' :: ' ' :: prettyText level v ++ ',' :: prettyFields level ((l, w) :: fs) = _
    rw [prettyFields_cons level fs, prettyText_eq level w, spacedFields]
    simp only [List.nil_append, List.append_assoc, List.cons_append]
termination_by structural fs => fs

end

/-! ## Blanks -/

/-- Only blanks. -/
def Blank (text : List Char) : Prop := ∀ c ∈ text, isBlank c = true

theorem blank_nil : Blank [] := nofun

theorem blank_newLine (level : Nat) : Blank (newLine level) := by
  intro c hc
  rcases List.mem_cons.1 hc with rfl | hc
  · rfl
  · rw [List.eq_of_mem_replicate hc]
    rfl

theorem skipBlank_append {blanks : List Char} (h : Blank blanks) (text : List Char) :
    skipBlank (blanks ++ text) = skipBlank text :=
  List.dropWhile_append_of_pos h

theorem skipBlank_cons {c : Char} (h : isBlank c = false) (text : List Char) : skipBlank (c :: text) = c :: text :=
  List.dropWhile_cons_of_neg (by simp [h])

theorem skipBlank_append_cons {blanks : List Char} (h : Blank blanks) {c : Char} (hc : isBlank c = false)
    (text : List Char) : skipBlank (blanks ++ c :: text) = c :: text := by
  rw [skipBlank_append h, skipBlank_cons hc]

/-! ## Reading back -/

section Steps

variable {read : List Char → Reading Value} {bound : Nat} {text rest more : List Char} {c : Char}

theorem readItems_last {item : Value} (hitem : read text = .ok (item, rest)) (hend : skipBlank rest = ']' :: more) :
    readItems read (bound + 1) text = .ok ([item], more) := by
  simp only [readItems, hitem, Reading.andThen, hend]

theorem readItems_next {item : Value} {others : List Char} (hitem : read text = .ok (item, rest))
    (hcomma : skipBlank rest = ',' :: others) (hothers : skipBlank others = c :: more) (hc : c ≠ ']') :
    readItems read (bound + 1) text =
      (readItems read bound (c :: more)).andThen fun items rest => .ok (item :: items, rest) := by
  simp [readItems, hitem, Reading.andThen, hcomma, hothers, hc]

theorem readFields_last {field : String × Value} (hfield : readField read text = .ok (field, rest))
    (hend : skipBlank rest = '}' :: more) : readFields read (bound + 1) text = .ok ([field], more) := by
  simp only [readFields, hfield, Reading.andThen, hend]

theorem readFields_next {field : String × Value} {others : List Char} (hfield : readField read text = .ok (field, rest))
    (hcomma : skipBlank rest = ',' :: others) (hothers : skipBlank others = c :: more) (hc : c ≠ '}') :
    readFields read (bound + 1) text =
      (readFields read bound (c :: more)).andThen fun fields rest => .ok (field :: fields, rest) := by
  simp [readFields, hfield, Reading.andThen, hcomma, hothers, hc]

theorem readArray_items (htext : skipBlank text = c :: more) (hc : c ≠ ']') :
    readArray read text =
      (readItems read (c :: more).length (c :: more)).andThen fun items rest => .ok (.array items, rest) := by
  simp [readArray, htext, hc]

theorem readObject_fields (htext : skipBlank text = c :: more) (hc : c ≠ '}') :
    readObject read text =
      (readFields read (c :: more).length (c :: more)).andThen fun fields rest =>
        .ok (.object (Keyed.ofList fields), rest) := by
  simp [readObject, htext, hc]

end Steps

section ReadBack

variable {margin : Nat → List Char} {space : List Char} (hmargin : ∀ level, Blank (margin level)) (hspace : Blank space)

variable (margin space) in
/-- The text of a plain value begins neither with a blank nor with a closing bracket. -/
theorem exists_spacedText_eq_cons {v : Value} (h : v.Plain) (level : Nat) :
    ∃ c text, spacedText margin space level v = c :: text ∧ isBlank c = false ∧ c ≠ ']' := by
  cases v with
  | null => exact ⟨_, _, rfl, rfl, by decide⟩
  | bool b => cases b <;> exact ⟨_, _, rfl, rfl, by decide⟩
  | number n => cases h
  | string s => exact ⟨_, _, rfl, rfl, by decide⟩
  | array items => cases items <;> exact ⟨_, _, rfl, rfl, by decide⟩
  | object fields => rcases fields with _ | ⟨⟨k, v⟩, fs⟩ <;> exact ⟨_, _, rfl, rfl, by decide⟩

variable (margin space) in
theorem length_le_spacedItems (level : Nat) : ∀ vs : List Value, vs.length ≤ (spacedItems margin space level vs).length
  | [] => Nat.le_refl 0
  | v :: vs => by
    have := length_le_spacedItems level vs
    simp only [spacedItems, List.length_cons, List.length_append]
    omega

variable (margin space) in
theorem length_le_spacedFields (level : Nat) : ∀ fs : List (String × Value),
    fs.length ≤ (spacedFields margin space level fs).length
  | [] => Nat.le_refl 0
  | (k, v) :: fs => by
    have := length_le_spacedFields level fs
    simp only [spacedFields, List.length_cons, List.length_append]
    omega

variable (margin space) in
/-- The text of a value is read as that value, with any blanks in front and whatever follows. -/
def ReadsBack (read : List Char → Reading Value) (level : Nat) (v : Value) : Prop :=
  ∀ blanks rest, Blank blanks → read (blanks ++ (spacedText margin space level v ++ rest)) = .ok (v, rest)

variable {read : List Char → Reading Value} {level : Nat} {closing : List Char} (hclosing : Blank closing)
  (rest : List Char)

include hmargin hclosing in
/-- Items are read up to the closing bracket. -/
theorem readItems_spaced : ∀ (vs : List Value) {v : Value} {bound : Nat}, vs.length < bound →
    (∀ item ∈ v :: vs, item.Plain ∧ ReadsBack margin space read level item) →
    readItems read bound
        (spacedText margin space level v ++ (spacedItems margin space level vs ++ (closing ++ ']' :: rest))) =
      .ok (v :: vs, rest)
  | [], v, bound + 1, _, h => by
    refine readItems_last ((h v List.mem_cons_self).2 [] _ nofun) ?_
    exact skipBlank_append_cons hclosing rfl rest
  | w :: vs, v, bound + 1, hbound, h => by
    obtain ⟨hv, hvs⟩ := List.forall_mem_cons.1 h
    obtain ⟨c, text, htext, hblank, hc⟩ := exists_spacedText_eq_cons margin space (hvs w List.mem_cons_self).1 level
    have hnext := readItems_spaced vs (Nat.lt_of_succ_lt_succ hbound) hvs
    rw [htext, List.cons_append] at hnext
    have hcomma : skipBlank (spacedItems margin space level (w :: vs) ++ (closing ++ ']' :: rest)) =
        ',' :: (margin level ++ (c :: (text ++ (spacedItems margin space level vs ++ (closing ++ ']' :: rest))))) := by
      simp only [spacedItems, htext, List.cons_append, List.append_assoc]
      exact skipBlank_cons rfl _
    refine (readItems_next (hv.2 [] _ nofun) hcomma (skipBlank_append_cons (hmargin level) hblank _) hc).trans ?_
    exact congrArg (Reading.andThen · _) hnext

include hspace in
theorem readField_spaced {k : String} {v : Value} (h : ReadsBack margin space read level v) :
    readField read (quoted k ++ ':' :: (space ++ (spacedText margin space level v ++ rest))) = .ok ((k, v), rest) := by
  have hkey := readString_quoted k (':' :: (space ++ (spacedText margin space level v ++ rest)))
  simp only [quoted, List.cons_append, List.append_assoc, List.nil_append, readField, hkey, Reading.andThen,
    skipBlank_cons (show isBlank ':' = false from rfl), h space rest hspace]

include hmargin hspace hclosing in
/-- Fields are read up to the closing brace. -/
theorem readFields_spaced : ∀ (fs : List (String × Value)) {k : String} {v : Value} {bound : Nat}, fs.length < bound →
    (∀ field ∈ (k, v) :: fs, ReadsBack margin space read level field.2) →
    readFields read bound (quoted k ++ ':' :: (space ++ (spacedText margin space level v ++
        (spacedFields margin space level fs ++ (closing ++ '}' :: rest))))) =
      .ok ((k, v) :: fs, rest)
  | [], k, v, bound + 1, _, h => by
    refine readFields_last (readField_spaced hspace _ (h _ List.mem_cons_self)) ?_
    exact skipBlank_append_cons hclosing rfl rest
  | (l, w) :: fs, k, v, bound + 1, hbound, h => by
    obtain ⟨hv, hfs⟩ := List.forall_mem_cons.1 h
    have hnext := readFields_spaced fs (Nat.lt_of_succ_lt_succ hbound) hfs
    have hcomma : skipBlank (spacedFields margin space level ((l, w) :: fs) ++ (closing ++ '}' :: rest)) =
        ',' :: (margin level ++ (quoted l ++ ':' :: (space ++ (spacedText margin space level w ++
          (spacedFields margin space level fs ++ (closing ++ '}' :: rest)))))) := by
      simp only [spacedFields, List.cons_append, List.append_assoc]
      exact skipBlank_cons rfl _
    refine (readFields_next (readField_spaced hspace _ hv) hcomma (skipBlank_append_cons (hmargin level) rfl _)
      (by decide)).trans ?_
    exact congrArg (Reading.andThen · _) hnext

include hmargin in
theorem readValueWith_array {items : List Value}
    (h : ∀ item ∈ items, item.Plain ∧ ReadsBack margin space read (level + 1) item) :
    readValueWith (some read) (spacedText margin space level (.array items) ++ rest) = .ok (.array items, rest) := by
  cases items with
  | nil => rfl
  | cons v vs =>
    obtain ⟨c, text, htext, hblank, hc⟩ := exists_spacedText_eq_cons margin space (h v List.mem_cons_self).1 (level + 1)
    have hitems := fun (bound : Nat) (hbound : vs.length < bound) =>
      readItems_spaced hmargin (hmargin level) rest vs hbound h
    have hbound := length_le_spacedItems margin space (level + 1) vs
    simp only [spacedText, htext, List.cons_append, List.append_assoc, List.nil_append] at hitems ⊢
    show readArray read (margin (level + 1) ++ _) = _
    rw [readArray_items (skipBlank_append_cons (hmargin (level + 1)) hblank _) hc, hitems]
    · rfl
    · simp only [List.length_cons, List.length_append]
      omega

include hmargin hspace in
theorem readValueWith_object {fields : List (String × Value)} (hkeys : Names.Increasing (fields.map Prod.fst))
    (h : ∀ field ∈ fields, ReadsBack margin space read (level + 1) field.2) :
    readValueWith (some read) (spacedText margin space level (.object fields) ++ rest) =
      .ok (.object fields, rest) := by
  rcases fields with _ | ⟨⟨k, v⟩, fs⟩
  · rfl
  · have hfields := fun (bound : Nat) (hbound : fs.length < bound) =>
      readFields_spaced hmargin hspace (hmargin level) rest fs hbound h
    have hbound := length_le_spacedFields margin space (level + 1) fs
    simp only [spacedText, quoted, List.cons_append, List.append_assoc, List.nil_append] at hfields ⊢
    show readObject read (margin (level + 1) ++ _) = _
    rw [readObject_fields (skipBlank_append_cons (hmargin (level + 1)) rfl _) (by decide), hfields]
    · simp only [Reading.andThen, Keyed.ofList_of_increasing hkeys]
    · simp only [List.length_cons, List.length_append]
      omega

theorem readValueWith_scalar {nested : Option (List Char → Reading Value)} {v : Value} (hplain : v.Plain)
    (hdepth : v.depth = 0) :
    readValueWith nested (spacedText margin space level v ++ rest) = .ok (v, rest) := by
  cases v with
  | null => rfl
  | bool b => cases b <;> rfl
  | number n => cases hplain
  | string s =>
    simp only [spacedText, quoted, List.cons_append, List.append_assoc, List.nil_append]
    show (readString _).andThen _ = _
    rw [readString_quoted]
    rfl
  | array items => cases hdepth
  | object fields => cases hdepth

theorem readValueWith_append {nested : Option (List Char → Reading Value)} {blanks text : List Char}
    (h : Blank blanks) : readValueWith nested (blanks ++ text) = readValueWith nested text := by
  unfold readValueWith
  rw [skipBlank_append h]

include hmargin hspace in
/-- **Values.** A plain value within the budget is read back from its text. -/
theorem readValue_spaced : ∀ {budget level : Nat} {v : Value}, v.Plain → v.depth ≤ budget →
    ReadsBack margin space (readValue budget) level v
  | 0, level, v, hplain, hdepth, blanks, rest, hblanks => by
    rw [readValue, readValueWith_append hblanks, readValueWith_scalar rest hplain (Nat.le_zero.1 hdepth)]
  | budget + 1, level, v, hplain, hdepth, blanks, rest, hblanks => by
    rw [readValue, readValueWith_append hblanks]
    cases v with
    | array items =>
      have hplain := Value.plainItems_iff.1 hplain
      have hdepth := Value.depthOfItems_le_iff.1 (Nat.le_of_succ_le_succ hdepth)
      exact readValueWith_array hmargin rest fun item hitem =>
        ⟨hplain item hitem, readValue_spaced (hplain item hitem) (hdepth item hitem)⟩
    | object fields =>
      have hplain' := Value.plainFields_iff.1 hplain.2
      have hdepth := Value.depthOfFields_le_iff.1 (Nat.le_of_succ_le_succ hdepth)
      exact readValueWith_object hmargin hspace rest hplain.1 fun field hfield =>
        readValue_spaced (hplain' field hfield) (hdepth field hfield)
    | _ => exact readValueWith_scalar rest hplain rfl

include hmargin hspace in
/-- **Texts.** A plain value that is not too deep is read back from its text, also with blanks behind it. -/
theorem read_spaced {v : Value} (hplain : v.Plain) (hdepth : v.depth ≤ 127) {blanks : List Char}
    (hblanks : Blank blanks) :
    Json.read (String.ofList (spacedText margin space 0 v ++ blanks)) = .ok v := by
  have hvalue : readValue nestingLimit (spacedText margin space 0 v ++ blanks) = .ok (v, blanks) :=
    readValue_spaced hmargin hspace hplain hdepth [] blanks nofun
  have hend : skipBlank blanks = [] := by rw [← List.append_nil blanks, skipBlank_append hblanks]; rfl
  rw [Json.read, String.toList_ofList, readText, hvalue]
  simp only [Reading.andThen, hend]

end ReadBack

/-- **Layouts.** A plain value that is not too deep is read back from both of its texts. -/
theorem read_compact {v : Value} (hplain : v.Plain) (hdepth : v.depth ≤ 127) : read (compact v) = .ok v := by
  have hread : read (String.ofList (spacedText (fun _ => []) [] 0 v ++ [])) = .ok v :=
    read_spaced (fun _ => blank_nil) blank_nil hplain hdepth blank_nil
  rwa [← compactText_eq, List.append_nil] at hread

theorem read_pretty {v : Value} (hplain : v.Plain) (hdepth : v.depth ≤ 127) : read (pretty v) = .ok v := by
  have hread : read (String.ofList (spacedText newLine [' '] 0 v ++ [])) = .ok v :=
    read_spaced blank_newLine (by simp [Blank, isBlank]) hplain hdepth blank_nil
  rwa [← prettyText_eq, List.append_nil] at hread

theorem read_pretty_line {v : Value} (hplain : v.Plain) (hdepth : v.depth ≤ 127) :
    read (pretty v ++ "\n") = .ok v := by
  have hread : read (String.ofList (spacedText newLine [' '] 0 v ++ ['\n'])) = .ok v :=
    read_spaced blank_newLine (by simp [Blank, isBlank]) hplain hdepth (by simp [Blank, isBlank])
  rwa [← prettyText_eq, String.ofList_append] at hread

end QueryOutline.Json

namespace QueryOutline

theorem readJson_compact {value : Json.Value} (hplain : value.Plain) (hdepth : value.depth ≤ 127) :
    readJson (Json.compact value) = .ok value := by
  rw [readJson, Json.read_compact hplain hdepth]
  rfl

end QueryOutline
