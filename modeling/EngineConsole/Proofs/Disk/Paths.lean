import EngineConsole.Disk.Basic
import Mathlib.Data.List.TakeWhile

/-!
# The steps of a path

Names that say no more than that something is a directory are left out of a path; what is left are
its steps. The parent of a path has the same steps but the last, and so has its draft, the last of
which is another.
-/

set_option autoImplicit false

namespace EngineConsole.Path

/-! ## Pieces -/

theorem pieces_ne_nil (cs : List Char) : pieces cs ≠ [] := by
  cases cs with
  | nil => exact List.cons_ne_nil _ _
  | cons c rest =>
      rw [pieces]
      split
      · exact List.cons_ne_nil _ _
      · split <;> exact List.cons_ne_nil _ _

theorem pieces_append_slash (cs ds : List Char) :
    pieces (cs ++ '/' :: ds) = pieces cs ++ pieces ds := by
  induction cs with
  | nil => rfl
  | cons c rest ih =>
      rw [List.cons_append, pieces, pieces, ih]
      split
      · rfl
      · cases first : pieces rest with
        | nil => exact absurd first (pieces_ne_nil rest)
        | cons piece more => rfl

theorem pieces_of_not_mem {cs : List Char} (single : '/' ∉ cs) : pieces cs = [cs] := by
  induction cs with
  | nil => rfl
  | cons c rest ih =>
      rw [List.mem_cons, not_or] at single
      rw [pieces, if_neg (Ne.symm single.1), ih single.2]

/-- A name as a piece of a path: it holds no slash. -/
def IsPiece (name : String) : Prop :=
  '/' ∉ name.toList

theorem isPiece_of_mem_names {path name : String} (member : name ∈ names path) : IsPiece name := by
  have all (cs : List Char) : ∀ piece ∈ pieces cs, '/' ∉ piece := by
    induction cs with
    | nil => simp [pieces]
    | cons c rest ih =>
        intro piece member
        rw [pieces] at member
        split at member
        · rcases List.mem_cons.mp member with rfl | later
          · exact List.not_mem_nil
          · exact ih piece later
        next slash =>
          split at member
          next =>
            obtain rfl := List.mem_singleton.mp member
            simpa using Ne.symm slash
          next first more found =>
            rw [found] at ih
            rcases List.mem_cons.mp member with rfl | later
            · intro inside
              rcases List.mem_cons.mp inside with same | inside
              · exact slash same.symm
              · exact ih first List.mem_cons_self inside
            · exact ih piece (List.mem_cons_of_mem _ later)
  obtain ⟨piece, inside, rfl⟩ := List.mem_map.mp member
  rw [IsPiece, String.toList_ofList]
  exact all _ piece inside

/-! ## Steps -/

def isStep (name : String) : Bool :=
  !staysPut name

/-- The names that a text goes through, without those that stay where they are. -/
def stepsOf (cs : List Char) : List String :=
  ((pieces cs).map String.ofList).filter isStep

def steps (path : String) : List String :=
  (names path).filter isStep

theorem steps_eq (path : String) : steps path = stepsOf path.toList := rfl

theorem stepsOf_append_slash (cs ds : List Char) :
    stepsOf (cs ++ '/' :: ds) = stepsOf cs ++ stepsOf ds := by
  rw [stepsOf, pieces_append_slash, List.map_append, List.filter_append]
  rfl

theorem stepsOf_slash (cs : List Char) : stepsOf (cs ++ ['/']) = stepsOf cs := by
  rw [stepsOf_append_slash]
  exact List.append_nil _

theorem stepsOf_name {name : List Char} (single : '/' ∉ name)
    (proper : isStep (String.ofList name) = true) : stepsOf name = [String.ofList name] := by
  rw [stepsOf, pieces_of_not_mem single]
  simp [proper]

theorem stepsOf_trimBack (cs : List Char) :
    stepsOf (trimBack cs).reverse = stepsOf cs.reverse := by
  fun_induction trimBack cs with
  | case1 => rfl
  | case2 rest _ ih => rw [ih, List.reverse_cons, stepsOf_slash]
  | case3 rest ih =>
      rw [ih, List.reverse_cons, stepsOf_slash, List.reverse_cons, List.reverse_cons,
        List.append_assoc]
      exact ((stepsOf_append_slash rest.reverse ['.']).trans (List.append_nil _)).symm
  | case4 cs => rfl

theorem trimBack_suffix (cs : List Char) : trimBack cs <:+ cs := by
  fun_induction trimBack cs with
  | case1 => exact List.suffix_refl _
  | case2 rest _ ih => exact ih.trans (List.suffix_cons _ _)
  | case3 rest ih => exact ih.trans (List.suffix_cons _ _)
  | case4 cs => exact List.suffix_refl _

/-- What is left ends in a name, or it is the root. -/
theorem trimBack_shape (cs : List Char) :
    (∀ rest, trimBack cs = '/' :: rest → rest = []) ∧ ∀ rest, trimBack cs ≠ '.' :: '/' :: rest := by
  fun_induction trimBack cs with
  | case1 =>
      refine ⟨fun rest same => ?_, fun rest same => by cases same⟩
      exact (List.cons.inj same).2.symm
  | case2 rest _ ih => exact ih
  | case3 rest ih => exact ih
  | case4 cs _ slash point => exact ⟨fun rest same => absurd same (slash rest), point⟩

/-! ## The last name of a path -/

/-- The last name of a path and what stands before it: with the slash between them they are the
path, up to what only says that it is a directory. -/
structure Splits (path : String) (name before : List Char) : Prop where
  single : '/' ∉ name
  slash : before = [] ∨ ∃ front, before = front ++ ['/']
  front : before ++ name <+: path.toList
  steps : stepsOf (before ++ name) = steps path

theorem splits_splitLast (path : String) : Splits path (splitLast path).1 (splitLast path).2 := by
  have whole : (splitLast path).2 ++ (splitLast path).1 =
      (trimBack path.toList.reverse).reverse := by
    simp only [splitLast]
    rw [← List.reverse_append, List.takeWhile_append_dropWhile]
  constructor
  · intro member
    have other := List.mem_takeWhile_imp (List.mem_reverse.mp member)
    exact absurd other (by decide)
  · simp only [splitLast]
    cases front : (trimBack path.toList.reverse).dropWhile (· != '/') with
    | nil => exact .inl rfl
    | cons c more =>
        have stop := List.head?_dropWhile_not (· != '/') (trimBack path.toList.reverse)
        rw [front] at stop
        have slash : c = '/' := by simpa using stop
        exact .inr ⟨more.reverse, by rw [List.reverse_cons, slash]⟩
  · rw [whole]
    simpa using List.reverse_prefix.mpr (trimBack_suffix path.toList.reverse)
  · rw [whole, stepsOf_trimBack, List.reverse_reverse, steps_eq]

theorem head_of_front {cs ds : List Char} (front : cs <+: ds) (nonempty : cs ≠ []) :
    ds.head? = cs.head? := by
  obtain ⟨more, rfl⟩ := front
  cases cs with
  | nil => exact absurd rfl nonempty
  | cons c rest => rfl

section

variable {path : String} {name before : List Char}

theorem Splits.steps_eq (splits : Splits path name before) :
    Path.steps path = stepsOf before ++ stepsOf name := by
  rw [← splits.steps]
  rcases splits.slash with rfl | ⟨front, rfl⟩
  · rfl
  · rw [List.append_assoc, stepsOf_slash]
    exact stepsOf_append_slash front name

/-- Another name behind the same text. -/
theorem Splits.steps_other (splits : Splits path name before) {other : List Char}
    (single : '/' ∉ other) (proper : isStep (String.ofList other) = true) :
    stepsOf (before ++ other) = stepsOf before ++ [String.ofList other] := by
  rcases splits.slash with rfl | ⟨front, rfl⟩
  · exact stepsOf_name single proper
  · rw [List.append_assoc, stepsOf_slash]
    refine (stepsOf_append_slash front other).trans ?_
    rw [stepsOf_name single proper]

/-- It begins at the root if the path does. -/
theorem Splits.head_other (splits : Splits path name before) (nonempty : name ≠ [])
    {other : List Char} (single : '/' ∉ other) :
    (before ++ other).head? = some '/' ↔ path.toList.head? = some '/' := by
  have unrooted {cs : List Char} (single : '/' ∉ cs) : cs.head? ≠ some '/' :=
    fun head => single (List.mem_of_mem_head? head)
  rcases splits.slash with rfl | ⟨front, rfl⟩
  · rw [head_of_front splits.front nonempty]
    exact iff_of_false (unrooted single) (unrooted splits.single)
  · have within := (List.prefix_append (front ++ ['/']) name).trans splits.front
    rw [head_of_front within (by simp), head_of_front (List.prefix_append _ other) (by simp)]

end

/-! ## Parents -/

section

variable (path : String)

theorem steps_parent : steps (parent path) = stepsOf (splitLast path).2 := by
  rw [steps_eq, parent, String.toList_ofList, stepsOf_trimBack, List.reverse_reverse]

/-- A path goes through its parent, and from there takes its last name. -/
theorem steps_eq_parent :
    steps path = steps (parent path) ++ stepsOf (splitLast path).1 := by
  rw [steps_parent]
  exact (splits_splitLast path).steps_eq

theorem parent_front : (parent path).toList <+: path.toList := by
  obtain ⟨_, _, front, _⟩ := splits_splitLast path
  have trimmed : (parent path).toList <+: (splitLast path).2 := by
    rw [parent, String.toList_ofList]
    simpa using List.reverse_prefix.mpr (trimBack_suffix (splitLast path).2.reverse)
  exact (trimmed.trans (List.prefix_append _ _)).trans front

variable {path}

theorem origin_parent (nonempty : parent path ≠ "") : origin (parent path) = origin path := by
  have chars : (parent path).toList ≠ [] := by simpa using nonempty
  rw [origin, origin, isAbsolute, isAbsolute, head_of_front (parent_front path) chars]

theorem canLead_parent (nonempty : parent path ≠ "") (leads : canLead path = true) :
    canLead (parent path) = true := by
  obtain ⟨more, whole⟩ := parent_front path
  have whole : parent path ++ String.ofList more = path := by
    rw [← String.toList_inj, String.toList_append, String.toList_ofList, whole]
  simp only [canLead, Bool.and_eq_true, Bool.not_eq_true', decide_eq_true_eq] at leads ⊢
  obtain ⟨⟨_, short⟩, sound⟩ := leads
  rw [← whole, String.utf8ByteSize_append] at short
  rw [← whole, String.toList_append, List.all_append, Bool.and_eq_true] at sound
  exact ⟨⟨by simpa using nonempty, by omega⟩, sound.1⟩

/-! ## Drafts -/

theorem stem_cases (name : List Char) :
    stem name = name ∨ ∃ extension, name = stem name ++ '.' :: extension ∧ '.' ∉ extension := by
  have whole : name = (name.reverse.dropWhile (· != '.')).reverse ++
      (name.reverse.takeWhile (· != '.')).reverse := by
    rw [← List.reverse_append, List.takeWhile_append_dropWhile, List.reverse_reverse]
  have stop := List.head?_dropWhile_not (· != '.') name.reverse
  unfold stem
  split
  next => exact .inl rfl
  next => exact .inl rfl
  next c before _ found =>
    rw [found] at whole stop
    have point : c = '.' := by simpa using stop
    refine .inr ⟨(name.reverse.takeWhile (· != '.')).reverse, ?_, ?_⟩
    · rw [List.reverse_cons, point, List.append_assoc] at whole
      exact whole
    · intro member
      have other := List.mem_takeWhile_imp (List.mem_reverse.mp member)
      exact absurd other (by decide)

/-- No name is its own draft, if the extension has a point. -/
theorem stem_append_ne {extension : List Char} (dotted : '.' ∈ extension) (name : List Char) :
    stem name ++ '.' :: extension ≠ name := by
  intro same
  rcases stem_cases name with whole | ⟨old, split, plain⟩
  · rw [whole] at same
    simp at same
  · have ends := List.append_cancel_left (same.trans split)
    rw [(List.cons.inj ends).2] at dotted
    exact plain dotted

theorem stem_subset {name : List Char} {c : Char} (member : c ∈ stem name) : c ∈ name := by
  rcases stem_cases name with whole | ⟨extension, whole, -⟩
  · rwa [whole] at member
  · rw [whole]
    exact List.mem_append_left _ member

/-- A path without a name at its end goes nowhere. -/
theorem steps_eq_nil {path : String} (unnamed : stepsOf (splitLast path).1 = []) :
    steps path = [] := by
  have whole : steps path = stepsOf (trimBack path.toList.reverse).reverse := by
    rw [stepsOf_trimBack, List.reverse_reverse, steps_eq]
  obtain ⟨root, point⟩ := trimBack_shape path.toList.reverse
  have single := (splits_splitLast path).single
  have stays : staysPut (String.ofList (splitLast path).1) = true := by
    rw [stepsOf, pieces_of_not_mem single] at unnamed
    simpa [isStep] using unnamed
  rw [whole]
  simp only [splitLast] at stays
  generalize trimBack path.toList.reverse = cs at root point stays
  cases cs with
  | nil => rfl
  | cons c rest =>
      by_cases slash : c = '/'
      · obtain rfl := slash
        obtain rfl := root rest rfl
        rfl
      · have kept : (c != '/') = true := by simpa using slash
        rw [List.takeWhile_cons, if_pos kept] at stays
        have name : (rest.takeWhile (· != '/')).reverse ++ [c] = ['.'] := by
          have name : String.ofList ((rest.takeWhile (· != '/')).reverse ++ [c]) = "." := by
            simpa [staysPut] using stays
          rw [← String.toList_inj, String.toList_ofList] at name
          exact name
        obtain ⟨before, rfl⟩ : (rest.takeWhile (· != '/')).reverse = [] ∧ c = '.' := by
          simpa [List.append_eq_cons_iff] using name
        cases rest with
        | nil => rfl
        | cons d more =>
            have slash : d = '/' := by
              simpa [List.takeWhile_cons] using before
            exact absurd (by rw [slash]) (point more)

/-- A name with more than points in it is not one of those that are nothing but points. -/
theorem ofList_ne {cs : List Char} (lettered : ∃ c ∈ cs, c ≠ '.') (special : String)
    (points : special.toList.all (· == '.') = true) : String.ofList cs ≠ special := by
  rintro rfl
  rw [String.toList_ofList, List.all_eq_true] at points
  obtain ⟨c, member, letter⟩ := lettered
  exact letter (beq_iff_eq.mp (points c member))

/-- A path has a draft beside it, in the same directory under another name, or it ends in no name of
its own and is taken for the draft itself. -/
theorem draft_cases (path : String) {extension : String} (single : '/' ∉ extension.toList)
    (dotted : '.' ∈ extension.toList) (lettered : ∃ c ∈ extension.toList, c ≠ '.') :
    (withExtension path extension = path ∧
      (steps path = [] ∨ ∃ front, steps path = front ++ [above])) ∨
    ∃ name draft, name ≠ draft ∧ name ≠ above ∧ draft ≠ above ∧
      origin (withExtension path extension) = origin path ∧
      steps path = steps (parent path) ++ [name] ∧
      steps (withExtension path extension) = steps (parent path) ++ [draft] := by
  have splits := splits_splitLast path
  have nowhere : stepsOf (splitLast path).1 = [] → steps path = [] := steps_eq_nil
  rw [steps_eq_parent path, steps_parent] at nowhere ⊢
  unfold withExtension
  obtain ⟨⟨name, before⟩, parts⟩ : ∃ parts, splitLast path = parts := ⟨_, rfl⟩
  rw [parts] at splits nowhere ⊢
  dsimp only at splits nowhere ⊢
  by_cases stays : staysPut (String.ofList name) = true
  · rw [if_pos (.inl stays)]
    refine .inl ⟨rfl, .inl (nowhere ?_)⟩
    rw [stepsOf, pieces_of_not_mem splits.single]
    simp [isStep, stays]
  have proper : isStep (String.ofList name) = true := by simp [isStep, stays]
  by_cases up : String.ofList name = above
  · rw [if_pos (.inr up)]
    exact .inl ⟨rfl, .inr ⟨_, by rw [stepsOf_name splits.single proper, up]⟩⟩
  rw [if_neg (not_or.mpr ⟨stays, up⟩)]
  have differ := stem_append_ne dotted name
  have single' : '/' ∉ stem name ++ '.' :: extension.toList := by
    intro member
    rcases List.mem_append.mp member with inside | inside
    · exact splits.single (stem_subset inside)
    · exact single ((List.mem_cons.mp inside).resolve_left (by decide))
  have lettered' : ∃ c ∈ stem name ++ '.' :: extension.toList, c ≠ '.' := by
    obtain ⟨c, member, letter⟩ := lettered
    exact ⟨c, List.mem_append_right _ (List.mem_cons_of_mem _ member), letter⟩
  rw [List.append_assoc]
  generalize stem name ++ '.' :: extension.toList = draft at differ single' lettered'
  have points := ofList_ne lettered'
  have proper' : isStep (String.ofList draft) = true := by
    simp [isStep, staysPut, points "" (by decide), points "." (by decide)]
  have named : String.ofList name ≠ String.ofList draft :=
    fun same => differ (String.ofList_injective same).symm
  refine .inr ⟨_, _, named, up, points above (by decide), ?_, ?_, ?_⟩
  · have nonempty : name ≠ [] := by
      rintro rfl
      exact stays (by decide)
    have same := splits.head_other nonempty single'
    simp only [origin, isAbsolute, String.toList_ofList, Place.mk.injEq, and_true]
    rw [Bool.eq_iff_iff, beq_iff_eq, beq_iff_eq, same]
  · rw [stepsOf_name splits.single proper]
  · rw [steps_eq, String.toList_ofList]
    exact splits.steps_other single' proper'

end

end EngineConsole.Path
