import Mathlib.Data.List.Basic
import QueryOutline.Proofs.Text.Quoted

/-!
# Quoted names and Python's `repr`

`reprText` writes a string the way Python's `repr` does. Which characters above ASCII it shows as they are depends on a
table of printable characters.

* **Characters** (`escapeWithin_eq_reprChar`, `escapeWithin_of_not_printable`): both ways of writing agree on a
  character unless it is no ASCII character and not printable.
* **Names** (`quoteName_eq_reprText_iff`): so a quoted name is the `repr` of the name exactly when it has no such
  character.
* **Below U+0100** (`quoteName_repr`): these are the characters from U+0080 to U+00A0 and U+00AD.
-/

namespace QueryOutline

/-! ## The `repr` of a string -/

/-- Double quotes when the string has single and no double ones, or else single quotes. -/
def reprQuote (name : List Char) : Char := if 0 < name.count '\'' ∧ name.count '"' = 0 then '"' else '\''

/-- The last digits of a number, in base 16 and lower case. -/
def reprDigits : Nat → Nat → List Char
  | 0, _ => []
  | width + 1, n => reprDigits width (n / 16) ++ ["0123456789abcdef".toList.getD (n % 16) '0']

/-- A character by its number, in the shortest of three forms. -/
def reprEscape (c : Char) : List Char :=
  if c.toNat < 0x100 then '\\' :: 'x' :: reprDigits 2 c.toNat
  else if c.toNat < 0x10000 then '\\' :: 'u' :: reprDigits 4 c.toNat
  else '\\' :: 'U' :: reprDigits 8 c.toNat

/-- A character between the given quotes; the table decides about those that are not ASCII. -/
def reprChar (printable : Char → Bool) (quote c : Char) : List Char :=
  if c = quote ∨ c = '\\' then ['\\', c]
  else if c = '\t' then ['\\', 't']
  else if c = '\n' then ['\\', 'n']
  else if c = '\r' then ['\\', 'r']
  else if c.toNat < 0x20 ∨ c.toNat = 0x7f then reprEscape c
  else if c.toNat < 0x7f then [c]
  else if printable c then [c]
  else reprEscape c

/-- A string as Python's `repr` writes it, with the given table of printable characters. -/
def reprText (printable : Char → Bool) (name : String) : String :=
  String.ofList (reprQuote name.toList ::
    (name.toList.flatMap (reprChar printable (reprQuote name.toList)) ++ [reprQuote name.toList]))

/-- The characters that are not printable between ASCII and U+0100: control characters, the no-break space and the soft
hyphen. -/
def IsUnprintable (c : Char) : Prop := 0x80 ≤ c.toNat ∧ c.toNat ≤ 0xa0 ∨ c.toNat = 0xad

instance (c : Char) : Decidable (IsUnprintable c) := inferInstanceAs (Decidable (_ ∨ _))

/-! ## Characters -/

theorem quoteFor_eq_reprQuote (name : List Char) : quoteFor name = reprQuote name := by
  simp only [quoteFor, reprQuote, List.count_pos_iff, List.count_eq_zero]

theorem digit_eq_digitChar : ∀ n < 16, "0123456789abcdef".toList.getD n '0' = Nat.digitChar n := by decide

theorem reprEscape_of_lt {c : Char} (h : c.toNat < 128) :
    reprEscape c = ['\\', 'x', Nat.digitChar (c.toNat / 16), Nat.digitChar (c.toNat % 16)] := by
  have hhigh : c.toNat / 16 % 16 = c.toNat / 16 := Nat.mod_eq_of_lt (by omega)
  rw [reprEscape, if_pos (by omega), reprDigits, reprDigits, reprDigits, hhigh, digit_eq_digitChar _ (by omega),
    digit_eq_digitChar _ (by omega)]
  rfl

theorem exists_reprEscape_eq_cons (c : Char) : ∃ text, reprEscape c = '\\' :: text := by
  unfold reprEscape
  split
  · exact ⟨_, rfl⟩
  split <;> exact ⟨_, rfl⟩

section Table

variable {printable : Char → Bool} {quote c : Char}

/-- ASCII characters and printable ones are written alike. -/
theorem escapeWithin_eq_reprChar (hquote : quote = '\'' ∨ quote = '"') (h : 0x80 ≤ c.toNat → printable c = true) :
    escapeWithin quote c = reprChar printable quote c := by
  by_cases hslash : c = '\\'
  · subst hslash
    simp [escapeWithin, reprChar]
  by_cases hc : c = quote
  · subst hc
    rcases hquote with rfl | rfl <;> simp [escapeWithin, reprChar]
  by_cases htab : c = '\t'
  · subst htab
    simp [escapeWithin, reprChar, hc]
  by_cases hline : c = '\n'
  · subst hline
    simp [escapeWithin, reprChar, hc]
  by_cases hreturn : c = '\r'
  · subst hreturn
    simp [escapeWithin, reprChar, hc]
  simp only [escapeWithin, reprChar, hslash, hc, htab, hline, hreturn, or_self, if_false]
  by_cases hcontrol : c.toNat < 0x20 ∨ c.toNat = 0x7f
  · have hlt : c.toNat < 128 := by omega
    rw [if_pos (by simpa [isControl] using hcontrol), if_pos hcontrol, reprEscape_of_lt hlt]
  · rw [if_neg (by simpa [isControl] using hcontrol), if_neg hcontrol]
    split
    · rfl
    · rw [if_pos (h (by omega))]

/-- Other characters stand as they are in a quoted name, and not in the `repr`. -/
theorem escapeWithin_of_not_printable (hquote : quote = '\'' ∨ quote = '"') (habove : 0x80 ≤ c.toNat)
    (hprintable : ¬printable c = true) :
    escapeWithin quote c = [c] ∧ reprChar printable quote c = reprEscape c := by
  have hne : ∀ other : Char, other.toNat < 0x80 → c ≠ other := by
    rintro other hother rfl
    omega
  have hslash := hne '\\' (by decide)
  have hc : c ≠ quote := hne quote (by rcases hquote with rfl | rfl <;> decide)
  have htab := hne '\t' (by decide)
  have hline := hne '\n' (by decide)
  have hreturn := hne '\r' (by decide)
  have hcontrol : ¬(c.toNat < 0x20 ∨ c.toNat = 0x7f) := by omega
  simp only [escapeWithin, reprChar, hslash, hc, htab, hline, hreturn, or_self, if_false]
  constructor
  · rw [if_neg (by simpa [isControl] using hcontrol)]
  · rw [if_neg hcontrol, if_neg (by omega), if_neg hprintable]

/-! ## Names -/

/-- The texts of two names go apart at the first character that is no ASCII character and not printable. -/
theorem flatMap_escapeWithin_eq_iff (hquote : quote = '\'' ∨ quote = '"') (rest : List Char) : ∀ {name : List Char},
    name.flatMap (escapeWithin quote) ++ rest = name.flatMap (reprChar printable quote) ++ rest ↔
      ∀ c ∈ name, 0x80 ≤ c.toNat → printable c = true
  | [] => by simp
  | c :: name => by
    rw [List.flatMap_cons, List.flatMap_cons, List.append_assoc, List.append_assoc, List.forall_mem_cons]
    by_cases hc : 0x80 ≤ c.toNat → printable c = true
    · rw [escapeWithin_eq_reprChar hquote hc, List.append_cancel_left_eq, flatMap_escapeWithin_eq_iff hquote rest,
        and_iff_right hc]
    · refine iff_of_false (fun heq => ?_) fun h => hc h.1
      obtain ⟨habove, hprintable⟩ := Classical.not_imp.1 hc
      obtain ⟨hplain, hescape⟩ := escapeWithin_of_not_printable hquote habove hprintable
      obtain ⟨text, htext⟩ := exists_reprEscape_eq_cons c
      rw [hplain, hescape, htext] at heq
      -- the one begins with the character itself, the other with a backslash
      have hslash : c = '\\' := (List.cons.inj heq).1
      rw [hslash] at habove
      exact absurd habove (by decide)

end Table

/-- **Names.** A quoted name is the `repr` of the name exactly when all characters in it that are not ASCII are
printable. -/
theorem quoteName_eq_reprText_iff (printable : Char → Bool) (name : String) :
    quoteName name = reprText printable name ↔ ∀ c ∈ name.toList, 0x80 ≤ c.toNat → printable c = true := by
  rw [quoteName, reprText, String.ofList_inj, quoteChars, ← quoteFor_eq_reprQuote, List.cons.injEq,
    and_iff_right rfl]
  exact flatMap_escapeWithin_eq_iff (quoteFor_eq name.toList) _

/-- **Below U+0100.** The quoted form of a name whose characters lie below U+0100 is the `repr` of the name exactly when
none of them is unprintable. In any case it is written as if all characters that are not ASCII were printable. -/
theorem quoteName_repr {printable : Char → Bool}
    (htable : ∀ c, 0x80 ≤ c.toNat → c.toNat < 0x100 → (printable c = true ↔ ¬IsUnprintable c)) {name : String}
    (hlatin : ∀ c ∈ name.toList, c.toNat < 0x100) :
    (quoteName name = reprText printable name ↔ ∀ c ∈ name.toList, ¬IsUnprintable c) ∧
      quoteName name = reprText (fun _ => true) name := by
  constructor
  · rw [quoteName_eq_reprText_iff]
    refine forall₂_congr fun c hc => ⟨fun h hunprintable => ?_, fun h habove => (htable c habove (hlatin c hc)).2 h⟩
    have habove : 0x80 ≤ c.toNat := by
      unfold IsUnprintable at hunprintable
      omega
    exact (htable c habove (hlatin c hc)).1 (h habove) hunprintable
  · exact (quoteName_eq_reprText_iff _ name).2 fun _ _ _ => rfl

/-- The table of printable characters below U+0100. -/
def latinPrintable (c : Char) : Bool := !decide (IsUnprintable c)

/-- A name with an apostrophe, a letter that is no ASCII letter, a line break and two control characters. -/
theorem accentedName_repr :
    (∀ c, 0x80 ≤ c.toNat → c.toNat < 0x100 → (latinPrintable c = true ↔ ¬IsUnprintable c)) ∧
    (∀ c ∈ "it's caf\u00e9\n\x01\x7f".toList, c.toNat < 0x100 ∧ ¬IsUnprintable c) ∧
    quoteName "it's caf\u00e9\n\x01\x7f" = "\"it's caf\u00e9\\n\\x01\\x7f\"" ∧
    quoteName "it's caf\u00e9\n\x01\x7f" = reprText latinPrintable "it's caf\u00e9\n\x01\x7f" := by
  have htable : ∀ c, 0x80 ≤ c.toNat → c.toNat < 0x100 → (latinPrintable c = true ↔ ¬IsUnprintable c) := by
    intro c _ _
    simp [latinPrintable]
  have hall : ("it's caf\u00e9\n\x01\x7f".toList.all fun c => c.toNat < 0x100 ∧ ¬IsUnprintable c) = true := by decide
  have hname : ∀ c ∈ "it's caf\u00e9\n\x01\x7f".toList, c.toNat < 0x100 ∧ ¬IsUnprintable c := by
    simpa only [List.all_eq_true, decide_eq_true_eq] using hall
  exact ⟨htable, hname, by decide,
    (quoteName_repr htable fun c hc => (hname c hc).1).1.2 fun c hc => (hname c hc).2⟩

/-- A control character above ASCII stands as it is in a quoted name, and by its number in the `repr`. -/
theorem nextLine_ne_repr :
    (∀ c ∈ "\u0085".toList, c.toNat < 0x100) ∧ quoteName "\u0085" = "'\u0085'" ∧
    reprText latinPrintable "\u0085" = "'\\x85'" ∧ quoteName "\u0085" ≠ reprText latinPrintable "\u0085" := by
  have hall : ("\u0085".toList.all fun c => c.toNat < 0x100) = true := by decide
  exact ⟨by simpa only [List.all_eq_true, decide_eq_true_eq] using hall, by decide, by decide, by decide⟩

end QueryOutline
