import EngineConsole.Text.Column
import Mathlib.Data.List.Basic

/-!
# Lines of a text

Lines that are joined to a text are the lines that the text falls into, as long as none of them is
empty or has a line break of its own.
-/

set_option autoImplicit false

namespace EngineConsole.Text

/-- The lines of a text, which are what its line breaks set apart. The empty text has none. -/
def linesOf (text : List Char) : List (List Char) :=
  if text = [] then [] else text.splitOn '\n'

theorem joinLines_eq_intercalate (ls : List (List Char)) :
    joinLines ls = ['\n'].intercalate ls := by
  induction ls with
  | nil => rfl
  | cons line more ih =>
      cases more with
      | nil => simp [joinLines]
      | cons next more =>
          rw [joinLines, ih, List.intercalate_cons_cons]
          · simp
          · rintro ⟨⟩

theorem joinLines_eq_nil {ls : List (List Char)} (written : ∀ l ∈ ls, l ≠ []) :
    joinLines ls = [] ↔ ls = [] := by
  constructor
  · intro empty
    cases ls with
    | nil => rfl
    | cons line more =>
        have some := written line List.mem_cons_self
        cases more with
        | nil => exact absurd empty some
        | cons next more => exact absurd (List.append_eq_nil_iff.mp empty).1 some
  · rintro rfl
    rfl

theorem linesOf_joinLines {ls : List (List Char)} (written : ∀ l ∈ ls, l ≠ [])
    (whole : ∀ l ∈ ls, '\n' ∉ l) : linesOf (joinLines ls) = ls := by
  have empty := joinLines_eq_nil written
  unfold linesOf
  split
  next none => exact (empty.mp none).symm
  next some =>
    rw [joinLines_eq_intercalate]
    exact List.splitOn_intercalate '\n' whole (mt empty.mpr some)

/-! ## Line breaks in columns -/

theorem break_not_mem_spaces (n : Nat) : '\n' ∉ spaces n := by
  intro member
  exact absurd (List.eq_of_mem_replicate member) (by decide)

theorem break_not_mem_padRight {cell : List Char} (whole : '\n' ∉ cell) (width : Nat) :
    '\n' ∉ padRight width cell := by
  simp [padRight, whole, break_not_mem_spaces]

theorem break_not_mem_padLeft {cell : List Char} (whole : '\n' ∉ cell) (width : Nat) :
    '\n' ∉ padLeft width cell := by
  simp [padLeft, whole, break_not_mem_spaces]

end EngineConsole.Text
