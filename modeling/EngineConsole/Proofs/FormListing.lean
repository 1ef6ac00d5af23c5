import EngineConsole.Form.Listing
import EngineConsole.Proofs.Text.Lines
import EngineConsole.Proofs.Text.Utf8
import Mathlib.Data.List.DropRight
import Mathlib.Data.List.Forall2

/-!
# Alignment of a form listing

The separators of a listing stand in one column. The column is counted in bytes and the padding in
characters, which goes together because no key has more characters than bytes. Whoever knows the
column has the key and the value of each line back, unless the key ends in a space.
-/

set_option autoImplicit false

namespace EngineConsole

namespace Form

/-! ## The column -/

theorem keyWidth_concat (entries : List (String × Field)) (e : String × Field) :
    keyWidth (entries ++ [e]) = max (keyWidth entries) e.1.utf8ByteSize :=
  List.foldl_concat _ _ _ _

theorem utf8ByteSize_le_keyWidth {entries : List (String × Field)} {e : String × Field}
    (member : e ∈ entries) : e.1.utf8ByteSize ≤ keyWidth entries := by
  induction entries using List.reverseRecOn with
  | nil => cases member
  | append_singleton earlier last ih =>
      rw [keyWidth_concat]
      rcases List.mem_append.mp member with before | here
      · exact (ih before).trans (Nat.le_max_left _ _)
      · rw [List.mem_singleton.mp here]
        exact Nat.le_max_right _ _

theorem exists_utf8ByteSize_eq_keyWidth {entries : List (String × Field)} (some : entries ≠ []) :
    ∃ e ∈ entries, e.1.utf8ByteSize = keyWidth entries := by
  induction entries using List.reverseRecOn with
  | nil => exact absurd rfl some
  | append_singleton earlier last ih =>
      rw [keyWidth_concat]
      rcases Nat.le_total (keyWidth earlier) last.1.utf8ByteSize with longer | shorter
      · exact ⟨last, List.mem_append_right _ List.mem_cons_self, (Nat.max_eq_right longer).symm⟩
      · rw [Nat.max_eq_left shorter]
        by_cases none : earlier = []
        · subst none
          have zero : last.1.utf8ByteSize = 0 := Nat.le_zero.mp shorter
          exact ⟨last, List.mem_cons_self, zero⟩
        · obtain ⟨e, member, widest⟩ := ih none
          exact ⟨e, List.mem_append_left _ member, widest⟩

/-! ## Lines -/

/-- What a field shows: a box, or the raw text as it is. -/
inductive Shows : Field → List Char → Prop where
  | ticked : Shows (.flag true) ['[', 'x', ']']
  | unticked : Shows (.flag false) ['[', ' ', ']']
  | number (raw : String) : Shows (.number raw) raw.toList
  | text (raw : String) : Shows (.text raw) raw.toList

/-- A line whose separator is in a column: before it are the key and nothing but spaces, after it is
what the field shows. -/
def Aligned (column : Nat) (e : String × Field) (line : List Char) : Prop :=
  ∃ gap value, e.1.toList.length + gap = column ∧ Shows e.2 value ∧
    line = e.1.toList ++ Text.spaces gap ++ [' ', '=', ' '] ++ value

/-- The key and the value in a line whose column is known. -/
def readLine (column : Nat) (line : List Char) : List Char × List Char :=
  ((line.take column).rdropWhile (· == ' '), line.drop (column + 3))

section

variable {e : String × Field} {column : Nat}

theorem shows_display (field : Field) : Shows field field.display.toList := by
  cases field with
  | flag ticked =>
      cases ticked
      · exact .unticked
      · exact .ticked
  | number raw => exact .number raw
  | text raw => exact .text raw

theorem Shows.eq_display {field : Field} {value : List Char} (shows : Shows field value) :
    value = field.display.toList := by
  cases shows <;> rfl

theorem aligned_line (fits : e.1.utf8ByteSize ≤ column) : Aligned column e (line column e.1 e.2) :=
  ⟨column - e.1.toList.length, e.2.display.toList,
    Nat.add_sub_cancel' ((Text.length_le_utf8ByteSize e.1).trans fits), shows_display e.2, rfl⟩

theorem rdropWhile_spaces {key : List Char} (tight : key.getLast? ≠ some ' ') (gap : Nat) :
    (key ++ Text.spaces gap).rdropWhile (· == ' ') = key := by
  induction gap with
  | zero =>
      rw [Text.spaces, List.replicate_zero, List.append_nil, List.rdropWhile_eq_self_iff]
      intro some space
      exact tight ((List.getLast?_eq_getLast_of_ne_nil some).trans (congrArg _ (eq_of_beq space)))
  | succ gap ih =>
      rw [Text.spaces, List.replicate_succ', ← List.append_assoc,
        List.rdropWhile_concat_pos _ _ _ rfl]
      exact ih

theorem Aligned.readLine_eq {line : List Char} (aligned : Aligned column e line)
    (tight : e.1.toList.getLast? ≠ some ' ') :
    readLine column line = (e.1.toList, e.2.display.toList) := by
  obtain ⟨gap, value, rfl, shows, rfl⟩ := aligned
  have before : (e.1.toList ++ Text.spaces gap ++ [' ', '=', ' '] ++ value).take
      (e.1.toList.length + gap) = e.1.toList ++ Text.spaces gap := by
    rw [List.append_assoc _ _ value]
    exact List.take_left' (by simp [Text.spaces])
  have after : (e.1.toList ++ Text.spaces gap ++ [' ', '=', ' '] ++ value).drop
      (e.1.toList.length + gap + 3) = value :=
    List.drop_left' (by simp [Text.spaces, Nat.add_assoc])
  rw [readLine, before, after, rdropWhile_spaces tight, shows.eq_display]

theorem line_ne_nil (width : Nat) (key : String) (field : Field) : line width key field ≠ [] := by
  simp [line, separator]

theorem break_not_mem_line {key : String} {field : Field} (keyWhole : '\n' ∉ key.toList)
    (whole : '\n' ∉ field.display.toList) (width : Nat) : '\n' ∉ line width key field := by
  simp [line, separator, Text.break_not_mem_padRight keyWhole, whole]

end

/-- A listing has one line for each entry, in their order, and all separators stand in the column
that the longest key has in bytes, if no key and no raw text has a line break. From a line whose key
does not end in a space both the key and the value are read. -/
theorem listed_fields_are_aligned (entries : List (String × Field)) :
    ∃ column, (∀ e ∈ entries, e.1.utf8ByteSize ≤ column) ∧
      (entries ≠ [] → ∃ e ∈ entries, e.1.utf8ByteSize = column) ∧
      ((∀ e ∈ entries, '\n' ∉ e.1.toList ∧ '\n' ∉ e.2.display.toList) →
        List.Forall₂ (Aligned column) entries (Text.linesOf (listing entries).toList)) ∧
      ∀ e line, Aligned column e line → e.1.toList.getLast? ≠ some ' ' →
        readLine column line = (e.1.toList, e.2.display.toList) := by
  refine ⟨keyWidth entries, fun e member => utf8ByteSize_le_keyWidth member,
    exists_utf8ByteSize_eq_keyWidth, fun whole => ?_, fun e line aligned => aligned.readLine_eq⟩
  have lines : Text.linesOf (listing entries).toList =
      entries.map fun e => line (keyWidth entries) e.1 e.2 := by
    rw [listing, String.toList_ofList]
    apply Text.linesOf_joinLines
    · intro l member
      obtain ⟨e, -, rfl⟩ := List.mem_map.mp member
      exact line_ne_nil _ _ _
    · intro l member
      obtain ⟨e, listed, rfl⟩ := List.mem_map.mp member
      exact break_not_mem_line (whole e listed).1 (whole e listed).2 _
  rw [lines, List.forall₂_map_right_iff, List.forall₂_same]
  exact fun e member => aligned_line (utf8ByteSize_le_keyWidth member)

/-- Keys of several bytes per character, one of them twice, and a value with a separator in it. -/
theorem wide_keys_are_aligned :
    let entries : List (String × Field) :=
      [("日本", .flag true), ("é", .text "a = b"), ("日本", .number " 4 ")]
    (∀ e ∈ entries, '\n' ∉ e.1.toList ∧ '\n' ∉ e.2.display.toList) ∧
      List.Forall₂ (Aligned 6) entries
        ["日本     = [x]".toList, "é      = a = b".toList, "日本     =  4 ".toList] ∧
      "é".toList.getLast? ≠ some ' ' ∧
      readLine 6 "é      = a = b".toList = ("é".toList, "a = b".toList) := by
  intro entries
  have whole : ∀ e ∈ entries, '\n' ∉ e.1.toList ∧ '\n' ∉ e.2.display.toList := by decide
  have lines : Text.linesOf (listing entries).toList =
      ["日本     = [x]".toList, "é      = a = b".toList, "日本     =  4 ".toList] := by decide
  obtain ⟨column, most, widest, aligned, reads⟩ := listed_fields_are_aligned entries
  have bound : ∀ e ∈ entries, e.1.utf8ByteSize ≤ 6 := by decide
  obtain rfl : column = 6 := by
    obtain ⟨e, member, size⟩ := widest (by decide)
    exact Nat.le_antisymm (size ▸ bound e member) (most ("日本", .flag true) List.mem_cons_self)
  have aligned := aligned whole
  rw [lines] at aligned
  have second : Aligned 6 ("é", .text "a = b") "é      = a = b".toList :=
    (List.forall₂_cons.mp (List.forall₂_cons.mp aligned).2).1
  exact ⟨whole, aligned, by decide, reads _ _ second (by decide)⟩

end Form

end EngineConsole
