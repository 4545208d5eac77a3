import QueryOutline.Outline

/-!
# Widths of indentation

Only widths from 1 to 8 are accepted; any other is refused with an error that names it.

* **Checks** (`checkWidth_eq_ok_iff`, `checkWidth_eq_error_iff`): what a check of a width gives.
* **Outlines** (`Outline.withWidth_of_le`): an accepted width is the outline's.
-/

namespace QueryOutline

theorem checkWidth_eq_ok_iff {width checked : Nat} :
    checkWidth width = .ok checked ↔ (1 ≤ width ∧ width ≤ 8) ∧ checked = width := by
  unfold checkWidth greatestWidth
  split
  · rename_i h
    simp [h, eq_comm]
  · rename_i h
    simp [h]

/-- What is said about a width that is not accepted. -/
def widthError (width : Nat) : Error :=
  .config ("indent_width must be between 1 and 8, got " ++ String.ofList (Nat.toDigits 10 width))

theorem checkWidth_eq_error_iff {width : Nat} {error : Error} :
    checkWidth width = .error error ↔ ¬(1 ≤ width ∧ width ≤ 8) ∧ error = widthError width := by
  have htext : "indent_width must be between 1 and " ++ String.ofList (Nat.toDigits 10 greatestWidth) ++ ", got " =
      "indent_width must be between 1 and 8, got " := by decide
  unfold checkWidth
  rw [htext, ← widthError, greatestWidth]
  split
  · rename_i h
    simp [h]
  · rename_i h
    simp [h, eq_comm]

theorem Outline.withWidth_of_le {outline : Outline} {width : Nat} (h₁ : 1 ≤ width) (h₂ : width ≤ 8) :
    outline.withWidth width = .ok { outline with width } := by
  have h : checkWidth width = .ok width := if_pos ⟨h₁, h₂⟩
  rw [withWidth, h]
  rfl

end QueryOutline
