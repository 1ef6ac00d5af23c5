import EngineConsole.Text.Blank
import Mathlib.Data.List.DropRight
import Mathlib.Data.List.TakeWhile

/-!
# Words and gaps

A text is a tight text between two gaps, and trimming keeps what is between them. Splitting a text
at its first blank takes the word at its head.
-/

set_option autoImplicit false

namespace EngineConsole.Text

/-- Nothing but blanks. -/
def IsGap (cs : List Char) : Prop :=
  ∀ c ∈ cs, isBlank c = true

/-- No blank at all. -/
def IsSolid (cs : List Char) : Prop :=
  ∀ c ∈ cs, isBlank c = false

/-- No blank at either end. -/
structure IsTight (cs : List Char) : Prop where
  head : ∀ c ∈ cs.head?, isBlank c = false
  last : ∀ c ∈ cs.getLast?, isBlank c = false

theorem none_blank_iff (c? : Option Char) :
    c?.all (!isBlank ·) = true ↔ ∀ c ∈ c?, isBlank c = false := by
  cases c? <;> simp

instance (cs : List Char) : Decidable (IsGap cs) :=
  decidable_of_iff (cs.all isBlank = true) List.all_eq_true

instance (cs : List Char) : Decidable (IsSolid cs) :=
  decidable_of_iff (cs.any isBlank = false) (by simp [IsSolid])

instance (cs : List Char) : Decidable (IsTight cs) :=
  decidable_of_iff (cs.head?.all (!isBlank ·) = true ∧ cs.getLast?.all (!isBlank ·) = true)
    ⟨fun h => ⟨(none_blank_iff _).mp h.1, (none_blank_iff _).mp h.2⟩,
      fun h => ⟨(none_blank_iff _).mpr h.head, (none_blank_iff _).mpr h.last⟩⟩

variable {cs l r w : List Char}

theorem isTight_nil : IsTight [] :=
  ⟨nofun, nofun⟩

theorem IsSolid.tight (solid : IsSolid w) : IsTight w :=
  ⟨fun c head => solid c (List.mem_of_mem_head? head),
    fun c last => solid c (List.mem_of_mem_getLast? last)⟩

theorem IsGap.cons {c : Char} (gap : IsGap cs) (blank : isBlank c = true) : IsGap (c :: cs) := by
  intro d member
  rcases List.mem_cons.mp member with rfl | inside
  · exact blank
  · exact gap d inside

theorem IsGap.append (left : IsGap l) (right : IsGap r) : IsGap (l ++ r) := by
  intro c member
  rcases List.mem_append.mp member with inLeft | inRight
  · exact left c inLeft
  · exact right c inRight

/-- Whatever is between two tight texts, the whole is tight. -/
theorem IsTight.around (left : IsTight l) (right : IsTight r) (leftSome : l ≠ [])
    (rightSome : r ≠ []) (between : List Char) : IsTight (l ++ (between ++ r)) := by
  constructor
  · rw [List.head?_append_of_ne_nil _ leftSome]
    exact left.head
  · rw [← List.append_assoc, List.getLast?_append_of_ne_nil _ rightSome]
    exact right.last

/-- A tight text does not start with a gap. -/
theorem IsTight.start_eq_nil (tight : IsTight (l ++ cs)) (gap : IsGap l) : l = [] := by
  cases l with
  | nil => rfl
  | cons c more => exact absurd (gap c List.mem_cons_self) (by simp [tight.head c rfl])

/-- A tight text does not end with a gap. -/
theorem IsTight.gap_eq_nil (tight : IsTight (cs ++ r)) (gap : IsGap r) : r = [] := by
  rcases List.eq_nil_or_concat r with rfl | ⟨front, c, rfl⟩
  · rfl
  · have blank : isBlank c = true := gap c (by simp)
    have last : isBlank c = false := tight.last c (by simp)
    exact absurd blank (by simp [last])

/-! ## Trimming -/

theorem trimEnd_eq (cs : List Char) : trimEnd cs = cs.rdropWhile isBlank := by
  induction cs with
  | nil => rfl
  | cons c rest ih =>
      rw [trimEnd, ih, List.rdropWhile, List.rdropWhile, List.reverse_cons, List.dropWhile_append]
      cases kept : rest.reverse.dropWhile isBlank with
      | nil => cases blank : isBlank c <;> simp [blank]
      | cons d more => simp

theorem trimEnd_append (behind : IsGap r) : trimEnd (cs ++ r) = trimEnd cs := by
  have blanks : ∀ c ∈ r.reverse, isBlank c = true := fun c member =>
    behind c (List.mem_reverse.mp member)
  rw [trimEnd_eq, trimEnd_eq, List.rdropWhile, List.rdropWhile, List.reverse_append,
    List.dropWhile_append_of_pos blanks]

theorem trimStart_append (before : IsGap l) : trimStart (l ++ cs) = trimStart cs :=
  List.dropWhile_append_of_pos before

theorem trimEnd_of_tight (tight : IsTight cs) : trimEnd cs = cs := by
  rw [trimEnd_eq, List.rdropWhile_eq_self_iff]
  intro some
  simp [tight.last _ (List.getLast?_eq_some_getLast some)]

theorem tight_trim (cs : List Char) : IsTight (trim cs) := by
  constructor
  · intro c head
    obtain ⟨rest, whole⟩ : trim cs <+: trimStart cs := by
      rw [trim, trimEnd_eq]
      exact List.rdropWhile_prefix _ _
    have first : (trimStart cs).head? = some c := by
      rw [← whole, List.head?_append, Option.mem_def.mp head]
      rfl
    have stops := List.head?_dropWhile_not isBlank cs
    rw [show (cs.dropWhile isBlank).head? = some c from first] at stops
    exact stops
  · intro c last
    rw [trim, trimEnd_eq] at last
    obtain ⟨some, same⟩ := List.mem_getLast?_eq_getLast last
    have stops := List.rdropWhile_last_not isBlank _ some
    rw [← same] at stops
    simpa using stops

/-- Trimming takes away the gaps around a tight text. -/
theorem trim_padded (tight : IsTight cs) (before : IsGap l) (behind : IsGap r) :
    trim (l ++ cs ++ r) = cs := by
  rw [List.append_assoc, trim, trimStart_append before]
  cases cs with
  | nil =>
      rw [List.nil_append, ← List.append_nil r, trimStart_append behind]
      rfl
  | cons c rest =>
      rw [List.cons_append, trimStart_cons_of_not_blank (tight.head c rfl), ← List.cons_append,
        trimEnd_append behind, trimEnd_of_tight tight]

theorem trim_of_tight (tight : IsTight cs) : trim cs = cs := by
  have padded := trim_padded tight (l := []) (r := []) nofun nofun
  simpa using padded

/-- What trimming takes away are gaps. -/
theorem exists_padding (cs : List Char) : ∃ l r, IsGap l ∧ IsGap r ∧ cs = l ++ trim cs ++ r := by
  refine ⟨cs.takeWhile isBlank, (trimStart cs).rtakeWhile isBlank,
    fun c => List.mem_takeWhile_imp, fun c => List.mem_rtakeWhile_imp, ?_⟩
  rw [List.append_assoc, trim, trimEnd_eq, List.rdropWhile_append_rtakeWhile, trimStart,
    List.takeWhile_append_dropWhile]

theorem trim_eq_nil_iff : trim cs = [] ↔ IsGap cs := by
  constructor
  · intro nothing
    obtain ⟨l, r, before, behind, whole⟩ := exists_padding cs
    rw [whole, nothing, List.append_nil]
    exact before.append behind
  · intro gap
    have padded := trim_padded isTight_nil (l := cs) (r := []) gap nofun
    simpa using padded

/-! ## Splitting -/

theorem splitAtBlank_of_solid (solid : IsSolid w) : splitAtBlank w = (w, none) := by
  induction w with
  | nil => rfl
  | cons c rest ih =>
      have later := ih fun d member => solid d (List.mem_cons_of_mem _ member)
      have first := solid c List.mem_cons_self
      simp [splitAtBlank, first, later]

theorem splitAtBlank_append (solid : IsSolid w) {b : Char} (blank : isBlank b = true)
    (rest : List Char) : splitAtBlank (w ++ b :: rest) = (w, some rest) := by
  induction w with
  | nil => simp [splitAtBlank, blank]
  | cons c more ih =>
      have later := ih fun d member => solid d (List.mem_cons_of_mem _ member)
      have first := solid c List.mem_cons_self
      simp [splitAtBlank, first, later]

/-- The head of a text is a word, and what is split off follows its first blank. -/
theorem splitAtBlank_cases (cs : List Char) : IsSolid (splitAtBlank cs).1 ∧
    (((splitAtBlank cs).2 = none ∧ cs = (splitAtBlank cs).1) ∨
      ∃ b rest, isBlank b = true ∧ (splitAtBlank cs).2 = some rest ∧
        cs = (splitAtBlank cs).1 ++ b :: rest) := by
  induction cs with
  | nil => exact ⟨nofun, .inl ⟨rfl, rfl⟩⟩
  | cons c more ih =>
      unfold splitAtBlank
      cases blank : isBlank c with
      | true => exact ⟨nofun, .inr ⟨c, more, blank, rfl, rfl⟩⟩
      | false =>
          obtain ⟨solid, shape⟩ := ih
          refine ⟨?_, ?_⟩
          · intro d member
            rcases List.mem_cons.mp member with rfl | later
            · exact blank
            · exact solid d later
          · rcases shape with ⟨nothing, whole⟩ | ⟨b, rest, stops, after, whole⟩
            · exact .inl ⟨nothing, congrArg (c :: ·) whole⟩
            · exact .inr ⟨b, rest, stops, after, congrArg (c :: ·) whole⟩

end EngineConsole.Text
