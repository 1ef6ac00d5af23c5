import EngineConsole.Proofs.Disk.Paths

/-!
# Places and the way to them

Where a path leads does not depend on the disk, only whether it leads there does: every directory on
the way has to be there. A place that is reached stands in directories up to the root, and different
places are kept under different texts.
-/

set_option autoImplicit false

namespace EngineConsole

/-! ## Places -/

namespace Place

open EngineConsole.Path (staysPut isStep IsPiece)

def along (p : Place) (names : List String) : Place :=
  names.foldl onto p

/-- Where a path leads, if it leads anywhere. -/
def ofPath (path : String) : Place :=
  (Path.origin path).along (Path.steps path)

variable {p q : Place} {name : String} {names more : List String}

theorem along_append (p : Place) (names more : List String) :
    p.along (names ++ more) = (p.along names).along more :=
  List.foldl_append

theorem onto_of_staysPut (stays : staysPut name = true) : p.onto name = p :=
  if_pos stays

theorem onto_of_isStep (moves : isStep name = true) :
    p.onto name = if name = Path.above then p.up else p.below name := by
  have other : ¬staysPut name = true := by simpa [isStep] using moves
  rw [onto, if_neg other]

theorem onto_eq_below (moves : isStep name = true) (other : name ≠ Path.above) :
    p.onto name = p.below name :=
  (onto_of_isStep moves).trans (if_neg other)

theorem along_filter (p : Place) (names : List String) :
    p.along (names.filter isStep) = p.along names := by
  induction names generalizing p with
  | nil => rfl
  | cons name rest ih =>
      cases moves : isStep name with
      | true =>
          rw [List.filter_cons_of_pos moves]
          exact ih (p.onto name)
      | false =>
          have stays : staysPut name = true := by simpa [isStep] using moves
          rw [List.filter_cons_of_neg (by simp [moves]), ih]
          exact congrArg (along · rest) (onto_of_staysPut stays).symm

theorem isBase_iff : p.isBase = true ↔ ∀ name ∈ p.names, name = Path.above := by
  simp [isBase]

/-- A place whose names are names: none is empty or stays where it is, and none holds a slash. -/
def Proper (p : Place) : Prop :=
  ∀ name ∈ p.names, IsPiece name ∧ isStep name = true

theorem Proper.onto (proper : p.Proper) (single : IsPiece name) : (p.onto name).Proper := by
  by_cases stays : staysPut name = true
  · rwa [onto_of_staysPut stays]
  have moves : isStep name = true := by simp [isStep, stays]
  have below {name : String} (single : IsPiece name) (moves : isStep name = true) :
      (p.below name).Proper := by
    intro other member
    rcases List.mem_append.mp member with old | new
    · exact proper other old
    · obtain rfl := List.mem_singleton.mp new
      exact ⟨single, moves⟩
  rw [onto_of_isStep moves]
  split
  · unfold up
    split
    · split
      · exact proper
      · exact below (by simp [IsPiece, Path.above]) (by decide)
    · exact fun other member => proper other (List.dropLast_subset _ member)
  · exact below single moves

theorem Proper.along (proper : p.Proper) (single : ∀ name ∈ names, IsPiece name) :
    (p.along names).Proper := by
  induction names generalizing p with
  | nil => exact proper
  | cons name rest ih =>
      have first := proper.onto (single name List.mem_cons_self)
      exact ih first fun other member => single other (List.mem_cons_of_mem _ member)

theorem proper_origin (path : String) : (Path.origin path).Proper :=
  nofun

theorem isPiece_of_mem_steps {path : String} (member : name ∈ Path.steps path) : IsPiece name :=
  Path.isPiece_of_mem_names (List.mem_filter.mp member).1

theorem proper_ofPath (path : String) : (ofPath path).Proper :=
  (proper_origin path).along fun _ => isPiece_of_mem_steps

/-! ## Texts of places -/

theorem pieces_intercalate {pieces : List (List Char)} (nonempty : pieces ≠ [])
    (single : ∀ piece ∈ pieces, '/' ∉ piece) :
    Path.pieces (['/'].intercalate pieces) = pieces := by
  induction pieces with
  | nil => exact absurd rfl nonempty
  | cons piece rest ih =>
      have first := single piece List.mem_cons_self
      cases rest with
      | nil => simpa using Path.pieces_of_not_mem first
      | cons next rest =>
          rw [List.intercalate_cons_cons, List.append_assoc, List.singleton_append,
            Path.pieces_append_slash, Path.pieces_of_not_mem first,
            ih (List.cons_ne_nil _ _) fun piece member => single piece (List.mem_cons_of_mem _ member)]
          rfl

theorem toList_path (p : Place) :
    p.path.toList = (if p.rooted then ['/'] else []) ++ ['/'].intercalate (p.names.map (·.toList)) := by
  rw [path, String.toList_append, String.toList_intercalate]
  cases p.rooted <;> rfl

theorem intercalate_injective {pieces pieces' : List (List Char)}
    (single : ∀ piece ∈ pieces, '/' ∉ piece ∧ piece ≠ [])
    (single' : ∀ piece ∈ pieces', '/' ∉ piece ∧ piece ≠ [])
    (same : ['/'].intercalate pieces = ['/'].intercalate pieces') : pieces = pieces' := by
  have read {pieces : List (List Char)} (single : ∀ piece ∈ pieces, '/' ∉ piece ∧ piece ≠ []) :
      Path.pieces (['/'].intercalate pieces) = if pieces = [] then [[]] else pieces := by
    split
    next none => rw [none]; rfl
    next some => exact pieces_intercalate some fun piece member => (single piece member).1
  have lists := (read single).symm.trans ((congrArg Path.pieces same).trans (read single'))
  split at lists <;> split at lists
  next none none' => rw [none, none']
  next => exact absurd rfl (single' [] (lists ▸ List.mem_cons_self)).2
  next => exact absurd rfl (single [] (lists ▸ List.mem_cons_self)).2
  next => exact lists

theorem Proper.pieces (proper : p.Proper) :
    ∀ piece ∈ p.names.map (·.toList), '/' ∉ piece ∧ piece ≠ [] := by
  intro piece member
  obtain ⟨name, inside, rfl⟩ := List.mem_map.mp member
  obtain ⟨single, moves⟩ := proper name inside
  refine ⟨single, fun none => ?_⟩
  rw [String.toList_eq_nil_iff.mp none] at moves
  exact absurd moves (by decide)

/-- A text that is told from the root begins with a slash, and no other does. -/
theorem Proper.head (proper : p.Proper) : p.path.toList.head? = some '/' ↔ p.rooted = true := by
  have pieces := proper.pieces
  rw [toList_path]
  generalize p.names.map (·.toList) = chars at pieces ⊢
  cases rooted : p.rooted with
  | true => simp
  | false =>
      simp only [Bool.false_eq_true, if_false, List.nil_append, iff_false]
      cases chars with
      | nil => simp
      | cons piece rest =>
          obtain ⟨single, nonempty⟩ := pieces piece List.mem_cons_self
          have front : piece <+: ['/'].intercalate (piece :: rest) := by
            cases rest with
            | nil => simp
            | cons next rest =>
                rw [List.intercalate_cons_cons, List.append_assoc]
                exact List.prefix_append _ _
          rw [Path.head_of_front front nonempty]
          exact fun head => single (List.mem_of_mem_head? head)

/-- Different places have different texts. -/
theorem Proper.eq_of_path_eq (proper : p.Proper) (proper' : q.Proper) (same : p.path = q.path) :
    p = q := by
  have rooted : p.rooted = q.rooted := by
    rw [Bool.eq_iff_iff, ← proper.head, ← proper'.head, same]
  have chars := congrArg String.toList same
  rw [toList_path, toList_path, rooted] at chars
  have pieces := intercalate_injective proper.pieces proper'.pieces (List.append_cancel_left chars)
  have names : p.names = q.names :=
    (List.map_inj_right fun _ _ same => String.toList_inj.mp same).mp pieces
  cases p
  cases q
  exact congr (congrArg Place.mk rooted) names

/-- Two names in one directory are two places. -/
theorem Proper.below_ne {draft : String} (proper : (p.below name).Proper)
    (proper' : (p.below draft).Proper) (other : name ≠ draft) :
    (p.below name).path ≠ (p.below draft).path := by
  intro same
  have places := proper.eq_of_path_eq proper' same
  have names : p.names ++ [name] = p.names ++ [draft] := congrArg Place.names places
  exact other (List.singleton_inj.mp (List.append_cancel_left names))

end Place

/-! ## The way to a place -/

namespace Disk

open EngineConsole.Path (staysPut isStep)

variable {d d' : Disk} {p q : Place} {name : String} {names more : List String}

/-- Every name leads to a directory that is there. -/
def Passes (d : Disk) : Place → List String → Prop
  | _, [] => True
  | p, name :: more => d.at? (p.onto name) = some .directory ∧ d.Passes (p.onto name) more

theorem passes_append : d.Passes p (names ++ more) ↔
    d.Passes p names ∧ d.Passes (p.along names) more := by
  induction names generalizing p with
  | nil => simp [Passes, Place.along]
  | cons name rest ih =>
      rw [List.cons_append, Passes, Passes, ih, and_assoc]
      rfl

theorem follow_concat (d : Disk) (p : Place) (names : List String) (name : String) :
    d.follow p (names ++ [name]) = some q ↔ d.Passes p names ∧ q = p.along (names ++ [name]) := by
  induction names generalizing p with
  | nil => simp [follow, Passes, Place.along, eq_comm]
  | cons first rest ih =>
      obtain ⟨next, more, split⟩ := List.exists_cons_of_ne_nil (List.concat_ne_nil name rest)
      have unfolded : d.follow p (first :: (rest ++ [name])) =
          if d.at? (p.onto first) = some .directory then d.follow (p.onto first) (rest ++ [name])
          else none := by
        rw [split]
        rfl
      rw [List.cons_append, unfolded, Passes]
      split
      next there =>
        rw [ih]
        simp only [there, true_and]
        rfl
      next missing => simp [missing]

theorem at?_base (d : Disk) (base : p.isBase = true) : d.at? p = some .directory :=
  if_pos base

theorem at?_of_not_base (other : p.isBase ≠ true) : d.at? p = d.get? p.path :=
  if_neg other

/-- A place and all above it are directories that are there. -/
def Stands (d : Disk) (p : Place) : Prop :=
  ∀ names, names <+: p.names → d.at? ⟨p.rooted, names⟩ = some .directory

theorem Stands.there (stands : d.Stands p) : d.at? p = some .directory :=
  stands p.names (List.prefix_refl _)

theorem stands_of_isBase (base : p.isBase = true) : d.Stands p := by
  intro names front
  apply at?_base
  rw [Place.isBase_iff] at base ⊢
  exact fun name member => base name (front.subset member)

theorem Stands.below (stands : d.Stands p) (there : d.at? (p.below name) = some .directory) :
    d.Stands (p.below name) := by
  intro names front
  rcases List.prefix_concat_iff.mp front with rfl | front
  · exact there
  · exact stands names front

theorem Stands.up (stands : d.Stands p) : d.Stands p.up := by
  unfold Place.up
  split
  next base =>
    split
    · exact stands
    · apply stands_of_isBase
      rw [Place.isBase_iff] at base ⊢
      intro name member
      rcases List.mem_append.mp member with old | new
      · exact base name old
      · exact List.mem_singleton.mp new
  next => exact fun names front => stands names (front.trans (List.dropLast_prefix _))

theorem Stands.onto (stands : d.Stands p) (there : d.at? (p.onto name) = some .directory) :
    d.Stands (p.onto name) := by
  unfold Place.onto at there ⊢
  split
  · exact stands
  · split
    · exact stands.up
    next stays up =>
      rw [if_neg stays, if_neg up] at there
      exact stands.below there

/-- From a directory, what is no directory is reached only by a name of its own. -/
theorem Stands.onto_fresh (stands : d.Stands p) (fresh : d.at? (p.onto name) ≠ some .directory) :
    p.onto name = p.below name ∧ isStep name = true := by
  by_cases stays : staysPut name = true
  · rw [Place.onto_of_staysPut stays] at fresh
    exact absurd stands.there fresh
  have moves : isStep name = true := by simp [isStep, stays]
  rw [Place.onto_of_isStep moves] at fresh ⊢
  split at fresh
  · exact absurd stands.up.there fresh
  next other => exact ⟨if_neg other, moves⟩

theorem Stands.along (stands : d.Stands p) (passes : d.Passes p names) :
    d.Stands (p.along names) := by
  induction names generalizing p with
  | nil => exact stands
  | cons name rest ih =>
      obtain ⟨there, later⟩ := passes
      exact ih (stands.onto there) later

theorem stands_origin (d : Disk) (path : String) : d.Stands (Path.origin path) :=
  stands_of_isBase rfl

/-- From a directory, names that stay where they are lead on. -/
theorem passes_filter (stands : d.Stands p) :
    d.Passes p (names.filter isStep) ↔ d.Passes p names := by
  induction names generalizing p with
  | nil => rfl
  | cons name rest ih =>
      cases moves : isStep name with
      | true =>
          rw [List.filter_cons_of_pos moves, Passes, Passes]
          exact and_congr_right fun there => ih (stands.onto there)
      | false =>
          have stays : staysPut name = true := by simpa [isStep] using moves
          rw [List.filter_cons_of_neg (by simp [moves]), Passes, Place.onto_of_staysPut stays, ih stands]
          simp [stands.there]

/-! ## Paths -/

section

variable {path : String}

theorem names_eq_concat (path : String) :
    ∃ names name, Path.names path = names ++ [name] := by
  have nonempty : Path.names path ≠ [] := by
    simpa [Path.names] using Path.pieces_ne_nil path.toList
  exact ⟨_, _, (List.dropLast_concat_getLast nonempty).symm⟩

/-- A path leads to its place if every name but the last leads to a directory. -/
theorem place?_some {names : List String} {name : String} (split : Path.names path = names ++ [name]) :
    d.place? path = some q ↔
      Path.canLead path = true ∧ d.Passes (Path.origin path) names ∧ q = .ofPath path := by
  have place : (Path.origin path).along (names ++ [name]) = .ofPath path := by
    rw [Place.ofPath, Path.steps, Place.along_filter, split]
  unfold place?
  split
  next leads => rw [split, follow_concat, place]; simp [leads]
  next stuck => simp [stuck]

theorem eq_ofPath (leads : d.place? path = some q) : q = .ofPath path := by
  obtain ⟨names, name, split⟩ := names_eq_concat path
  exact ((place?_some split).mp leads).2.2

/-- A path leads out of a directory that is there, by its last name. -/
theorem leaves (leads : d.place? path = some q) :
    ∃ p name, d.Stands p ∧ q = p.onto name ∧ Path.IsPiece name ∧ p.Proper ∧
      (isStep name = true → ∃ front, Path.steps path = front ++ [name] ∧
        p = (Path.origin path).along front) := by
  obtain ⟨names, name, split⟩ := names_eq_concat path
  obtain ⟨-, passes, rfl⟩ := (place?_some split).mp leads
  have single {other : String} (member : other ∈ names ++ [name]) : Path.IsPiece other :=
    Path.isPiece_of_mem_names (split ▸ member)
  refine ⟨_, name, (stands_origin d path).along passes, ?_, single (by simp), ?_, ?_⟩
  · rw [Place.ofPath, Path.steps, Place.along_filter, split, Place.along_append]
    rfl
  · exact (Place.proper_origin path).along fun other member => single (List.mem_append_left _ member)
  · intro moves
    refine ⟨names.filter isStep, ?_, (Place.along_filter _ _).symm⟩
    rw [Path.steps, split, List.filter_append, List.filter_cons_of_pos moves]
    rfl

/-- A path that ends in no name of its own leads to a directory. -/
theorem directory_of_unnamed (leads : d.place? path = some q)
    (unnamed : Path.steps path = [] ∨ ∃ front, Path.steps path = front ++ [Path.above]) :
    d.at? q = some .directory := by
  obtain ⟨p, name, stands, rfl, -, -, last⟩ := leaves leads
  by_cases moves : isStep name = true
  · obtain ⟨front, steps, -⟩ := last moves
    rcases unnamed with none | ⟨other, steps'⟩
    · simp [none] at steps
    · obtain ⟨-, same⟩ := List.append_inj' (steps.symm.trans steps') rfl
      obtain rfl := List.singleton_inj.mp same
      rw [Place.onto_of_isStep moves, if_pos rfl]
      exact stands.up.there
  · have stays : staysPut name = true := by simpa [isStep] using moves
    rw [Place.onto_of_staysPut stays]
    exact stands.there

/-- What is at the end of a path and is no directory has a name of its own in a directory. -/
theorem below_of_fresh (leads : d.place? path = some q) (fresh : d.at? q ≠ some .directory) :
    ∃ p name, d.Stands p ∧ q = p.below name := by
  obtain ⟨p, name, stands, rfl, -⟩ := leaves leads
  exact ⟨p, name, stands, (stands.onto_fresh fresh).1⟩

/-- A path leads to the same place on disks that have the same directories. -/
theorem place?_congr (same : ∀ p, d.at? p = some .directory ↔ d'.at? p = some .directory) :
    d'.place? path = d.place? path := by
  have passes (p : Place) (names : List String) : d'.Passes p names ↔ d.Passes p names := by
    induction names generalizing p with
    | nil => rfl
    | cons name rest ih => rw [Passes, Passes, same, ih]
  obtain ⟨names, name, split⟩ := names_eq_concat path
  ext q
  rw [place?_some split, place?_some split, passes]

end

/-- A file and its draft are two, where a draft can be written. -/
theorem draft_ne {path extension : String} (single : '/' ∉ extension.toList)
    (dotted : '.' ∈ extension.toList) (lettered : ∃ c ∈ extension.toList, c ≠ '.')
    (leads : d.place? (Path.withExtension path extension) = some q)
    (fresh : d.at? q ≠ some .directory) :
    (Place.ofPath path).path ≠ (Place.ofPath (Path.withExtension path extension)).path := by
  rcases Path.draft_cases path single dotted lettered with ⟨same, unnamed⟩ |
    ⟨name, draft, other, named, named', origin, steps, steps'⟩
  · rw [same] at leads
    exact absurd (directory_of_unnamed leads unnamed) fresh
  · have moves {path name : String} {front : List String} (steps : Path.steps path = front ++ [name])
        (named : name ≠ Path.above) :
        Place.ofPath path = ((Path.origin path).along front).below name := by
      have moves : isStep name = true := by
        have member : name ∈ Path.steps path := by simp [steps]
        exact (List.mem_filter.mp member).2
      rw [Place.ofPath, steps, Place.along_append]
      exact Place.onto_eq_below moves named
    have place := moves steps named
    have place' := moves steps' named'
    have proper := Place.proper_ofPath path
    have proper' := Place.proper_ofPath (Path.withExtension path extension)
    rw [origin] at place'
    rw [place] at proper ⊢
    rw [place'] at proper' ⊢
    exact proper.below_ne proper' other

end Disk

end EngineConsole
