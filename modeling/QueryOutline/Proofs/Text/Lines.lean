import Mathlib.Data.List.Basic

/-!
# Texts of lines

A text is read as lines, each ended by a line break. Texts that are ended by line breaks are lines themselves only if
they have no other line break.

* **Lines** (`ConsistsOf.unique`): a text consists of lines in one way only.
* **Line breaks** (`breaks_join_ended`): ended texts have one each, and those inside the texts.
* **Ended texts** (`exists_consistsOf_ended_iff`): when they are a line each.
-/

namespace QueryOutline

/-- A text consists of the given lines, each ended by a line break. -/
structure ConsistsOf (text : String) (lines : List String) : Prop where
  joined : text = String.join (lines.map (· ++ "\n"))
  unbroken : ∀ line ∈ lines, '\n' ∉ line.toList

/-- How often a text breaks the line. -/
def breaks (text : String) : Nat := text.toList.count '\n'

theorem breaks_append (text more : String) : breaks (text ++ more) = breaks text + breaks more := by
  simp [breaks]

theorem breaks_eq_zero {text : String} : breaks text = 0 ↔ '\n' ∉ text.toList := List.count_eq_zero

theorem breaks_join_cons (text : String) (texts : List String) :
    breaks (String.join (text :: texts)) = breaks text + breaks (String.join texts) := by
  rw [String.join_cons, breaks_append]

theorem breaks_join_eq_zero : ∀ {texts : List String},
    breaks (String.join texts) = 0 ↔ ∀ text ∈ texts, breaks text = 0
  | [] => by simp [breaks]
  | text :: texts => by rw [breaks_join_cons, Nat.add_eq_zero_iff, breaks_join_eq_zero, List.forall_mem_cons]

/-- Ended texts break the line once each, and where they do so themselves. -/
theorem breaks_join_ended : ∀ texts : List String,
    breaks (String.join (texts.map (· ++ "\n"))) = texts.length + breaks (String.join texts)
  | [] => rfl
  | text :: texts => by
    have hone : breaks (text ++ "\n") = breaks text + 1 := breaks_append text "\n"
    rw [List.map_cons, breaks_join_cons, breaks_join_cons, breaks_join_ended texts, hone, List.length_cons]
    omega

/-- Two texts that end at their first line breaks and go on alike are the same, and so is what follows. -/
theorem eq_of_append_break : ∀ {line other rest more : List Char}, '\n' ∉ line → '\n' ∉ other →
    line ++ '\n' :: rest = other ++ '\n' :: more → line = other ∧ rest = more
  | [], [], _, _, _, _, h => ⟨rfl, (List.cons.inj h).2⟩
  | [], c :: other, _, _, _, hother, h => absurd ((List.cons.inj h).1 ▸ List.mem_cons_self) hother
  | c :: line, [], _, _, hline, _, h => absurd ((List.cons.inj h).1 ▸ List.mem_cons_self) hline
  | c :: line, d :: other, _, _, hline, hother, h => by
    obtain ⟨rfl, htail⟩ := List.cons.inj h
    obtain ⟨rfl, rfl⟩ := eq_of_append_break (fun hm => hline (List.mem_cons_of_mem c hm))
      (fun hm => hother (List.mem_cons_of_mem c hm)) htail
    exact ⟨rfl, rfl⟩

namespace ConsistsOf

theorem length_eq {text : String} {lines : List String} (h : ConsistsOf text lines) : lines.length = breaks text := by
  have hzero : breaks (String.join lines) = 0 :=
    breaks_join_eq_zero.2 fun line hline => breaks_eq_zero.2 (h.unbroken line hline)
  rw [h.joined, breaks_join_ended, hzero, Nat.add_zero]

/-- A text consists of these lines in one way only. -/
theorem unique : ∀ {text : String} {lines others : List String}, ConsistsOf text lines → ConsistsOf text others →
    lines = others
  | text, [], others, h, hothers => by
    have hlength := hothers.length_eq.trans h.length_eq.symm
    exact (List.eq_nil_of_length_eq_zero hlength).symm
  | text, line :: lines, [], h, hothers => by
    have hlength := h.length_eq.trans hothers.length_eq.symm
    exact List.eq_nil_of_length_eq_zero hlength
  | text, line :: lines, other :: others, h, hothers => by
    obtain ⟨hline, hlines⟩ := List.forall_mem_cons.1 h.unbroken
    obtain ⟨hother, hrest⟩ := List.forall_mem_cons.1 hothers.unbroken
    have hjoined := congrArg String.toList (h.joined.symm.trans hothers.joined)
    simp only [List.map_cons, String.join_cons, String.append_assoc, String.toList_append] at hjoined
    obtain ⟨hhead, htail⟩ := eq_of_append_break hline hother hjoined
    have htexts := String.toList_inj.1 htail
    rw [String.toList_inj.1 hhead, unique ⟨rfl, hlines⟩ ⟨htexts, hrest⟩]

end ConsistsOf

/-! ## Ended texts -/

variable {texts : List String}

/-- Ended texts are a line each only when none of them breaks the line. -/
theorem exists_consistsOf_ended_iff :
    (∃ lines, ConsistsOf (String.join (texts.map (· ++ "\n"))) lines ∧ lines.length = texts.length) ↔
      ∀ text ∈ texts, '\n' ∉ text.toList := by
  constructor
  · -- a line for each text leaves no line break inside the texts
    rintro ⟨lines, hlines, hlength⟩
    have hbreaks := breaks_join_ended texts
    rw [← hlines.length_eq] at hbreaks
    have hzero : breaks (String.join texts) = 0 := by omega
    exact fun text htext => breaks_eq_zero.1 (breaks_join_eq_zero.1 hzero text htext)
  · intro h
    exact ⟨texts, ⟨rfl, h⟩, rfl⟩

end QueryOutline
