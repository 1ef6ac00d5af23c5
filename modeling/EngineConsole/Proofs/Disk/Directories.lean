import EngineConsole.Proofs.Disk.Changes

/-!
# Making directories

What is on a disk stands in directories, and does so after every change. Making a directory adds the
missing ones on the way to it and changes nothing else; on a way that is there already it changes
nothing at all.
-/

set_option autoImplicit false

namespace EngineConsole

open EngineConsole.Path (isStep IsPiece)

/-! ## Places below each other -/

namespace Place

variable {p : Place} {names : List String}

/-- Names that lead to no directory above stay below each other. -/
theorem along_plain (plain : Path.above ∉ names) (moves : ∀ name ∈ names, isStep name = true) :
    p.along names = ⟨p.rooted, p.names ++ names⟩ := by
  induction names generalizing p with
  | nil => rw [List.append_nil]; rfl
  | cons name rest ih =>
      rw [List.mem_cons, not_or] at plain
      have first : p.onto name = p.below name :=
        onto_eq_below (moves name List.mem_cons_self) (Ne.symm plain.1)
      have later := @ih (p.onto name) plain.2 fun other member =>
        moves other (List.mem_cons_of_mem _ member)
      rw [first] at later
      refine (congrArg (along · rest) first).trans (later.trans ?_)
      simp [below]

theorem Proper.front {front : List String} (proper : p.Proper) (within : front <+: p.names) :
    Proper ⟨p.rooted, front⟩ :=
  fun name member => proper name (within.subset member)

end Place

namespace Disk

variable {d d' : Disk} {p q : Place} {name path : String} {names : List String}

/-! ## Sound disks -/

/-- What is on a disk stands in directories that are there. -/
def Sound (d : Disk) : Prop :=
  ∀ p : Place, p.Proper → d.at? p ≠ none →
    ∀ front, front <+: p.names → front ≠ p.names → d.at? ⟨p.rooted, front⟩ = some .directory

theorem sound_empty : Sound .empty := by
  intro p _ there front within _
  by_cases base : p.isBase = true
  · exact stands_of_isBase base front within
  · exact absurd (at?_of_not_base base) there

/-- A disk stays sound if no directory goes and what comes stands in directories. -/
theorem Sound.extend (sound : d.Sound)
    (kept : ∀ p : Place, p.Proper → d.at? p = some .directory → d'.at? p = some .directory)
    (come : ∀ p : Place, p.Proper → d'.at? p ≠ none →
      d.at? p ≠ none ∨ ∃ above name, d.Stands above ∧ p = above.below name) : d'.Sound := by
  intro p proper there front within short
  refine kept _ (proper.front within) ?_
  rcases come p proper there with before | ⟨above, name, stands, rfl⟩
  · exact sound p proper before front within short
  · exact stands front ((List.prefix_concat_iff.mp within).resolve_left short)

theorem Sound.insert (sound : d.Sound) (stands : d.Stands p) (proper : (p.below name).Proper)
    (fresh : d.at? (p.below name) ≠ some .directory) (e : Entry) :
    Sound (Catalog.insert d (p.below name).path e) := by
  refine sound.extend (fun q proper' there => ?_) fun q proper' there => ?_
  · have other : q ≠ p.below name := fun same => fresh (same ▸ there)
    rw [at?_insert fresh proper' proper, if_neg other]
    exact there
  · rw [at?_insert fresh proper' proper] at there
    split at there
    next same => exact .inr ⟨p, name, stands, same⟩
    next => exact .inl there

theorem Sound.put (sound : d.Sound) (takes : d.Takes path) (bytes : List UInt8) :
    (d.put path bytes).Sound := by
  obtain ⟨leads, free, -⟩ := takes
  obtain ⟨p, name, stands, place⟩ := below_of_fresh leads free
  have proper := Place.proper_ofPath path
  rw [Disk.put]
  rw [place] at proper free ⊢
  exact sound.insert stands proper free _

theorem Sound.remove (sound : d.Sound) (path : String) : (d.remove path).Sound := by
  cases leads : d.place? path with
  | none => rwa [remove_nowhere leads]
  | some q =>
      by_cases there : d.at? q = some .directory
      · rwa [remove_directory leads there]
      · obtain rfl := eq_ofPath leads
        refine sound.extend (fun p _ => (sameDirectories_remove leads there p).mp)
          fun p proper kept => .inl ?_
        rw [at?_remove leads there proper] at kept
        split at kept
        · exact absurd rfl kept
        · exact kept

/-! ## Directories that come -/

/-- What is at a place stays, or a directory comes where nothing was. -/
def KeptAt (d d' : Disk) (p : Place) : Prop :=
  d'.at? p = d.at? p ∨ d.at? p = none ∧ d'.at? p = some .directory

theorem KeptAt.file (kept : d.KeptAt d' p) (bytes : List UInt8) :
    d'.at? p = some (.file bytes) ↔ d.at? p = some (.file bytes) := by
  rcases kept with same | ⟨missing, there⟩
  · rw [same]
  · simp [missing, there]

/-- What one disk has more than another are directories, at some of the places. -/
def Grown (d d' : Disk) (places : Place → Prop) : Prop :=
  ∀ p, p.Proper → d'.at? p = d.at? p ∨
    d.at? p = none ∧ d'.at? p = some .directory ∧ places p

section

variable {places places' : Place → Prop}

theorem Grown.refl (d : Disk) (places : Place → Prop) : d.Grown d places :=
  fun _ _ => .inl rfl

theorem Grown.trans {d'' : Disk} (first : d.Grown d' places) (later : d'.Grown d'' places) :
    d.Grown d'' places := by
  intro p proper
  rcases later p proper with same | ⟨missing, there, within⟩
  · rw [same]
    exact first p proper
  · rcases first p proper with same | ⟨-, there', -⟩
    · exact .inr ⟨same ▸ missing, there, within⟩
    · exact absurd (there'.symm.trans missing) (by simp)

theorem Grown.mono (grown : d.Grown d' places) (within : ∀ p, places p → places' p) :
    d.Grown d' places' :=
  fun p proper => (grown p proper).imp_right fun ⟨missing, there, inside⟩ =>
    ⟨missing, there, within p inside⟩

theorem Grown.directory (grown : d.Grown d' places) (proper : p.Proper)
    (there : d.at? p = some .directory) : d'.at? p = some .directory := by
  rcases grown p proper with same | ⟨-, there', -⟩
  · rwa [same]
  · exact there'

theorem Grown.keptAt (grown : d.Grown d' places) (proper : p.Proper) : d.KeptAt d' p :=
  (grown p proper).imp_right fun ⟨missing, there, _⟩ => ⟨missing, there⟩

theorem Grown.stands (grown : d.Grown d' places) (proper : p.Proper) (stands : d.Stands p) :
    d'.Stands p :=
  fun front within => grown.directory (proper.front within) (stands front within)

theorem grown_insert (fresh : d.at? q = none) (proper : q.Proper) :
    Grown d (Catalog.insert d q.path .directory) (· = q) := by
  intro p proper'
  rw [at?_insert (by simp [fresh]) proper' proper]
  split
  next same => exact .inr ⟨same ▸ fresh, rfl, same⟩
  next => exact .inl rfl

end

/-! ## Making directories along names -/

theorem makeAlong_of_passes (passes : d.Passes p names) : d.makeAlong p names = (d, true) := by
  induction names generalizing p with
  | nil => rfl
  | cons name rest ih =>
      obtain ⟨there, later⟩ := passes
      rw [makeAlong, there]
      exact ih later

/-- The places that names go through. -/
def Along (p : Place) (names : List String) (q : Place) : Prop :=
  ∃ front, front <+: names.filter isStep ∧ q = p.along front

theorem Along.cons (along : Along (p.onto name) names q) : Along p (name :: names) q := by
  obtain ⟨front, within, rfl⟩ := along
  cases moves : isStep name with
  | true => exact ⟨name :: front, by simpa [moves] using within, rfl⟩
  | false =>
      have stays : Path.staysPut name = true := by simpa [isStep] using moves
      rw [Place.onto_of_staysPut stays]
      exact ⟨front, by simpa [moves] using within, rfl⟩

/-- Directories are made only where the names go through, and a sound disk stays sound. -/
theorem makeAlong_grown (stands : d.Stands p) (proper : p.Proper)
    (single : ∀ name ∈ names, IsPiece name) :
    Grown d (d.makeAlong p names).1 (Along p names) ∧
      (d.Sound → (d.makeAlong p names).1.Sound) := by
  induction names generalizing d p with
  | nil => exact ⟨.refl d _, id⟩
  | cons name rest ih =>
      have proper' := proper.onto (single name List.mem_cons_self)
      have single' : ∀ name ∈ rest, IsPiece name :=
        fun other member => single other (List.mem_cons_of_mem _ member)
      rw [makeAlong]
      split
      next => exact ⟨.refl d _, id⟩
      next there =>
        obtain ⟨grown, sound⟩ := ih (stands.onto there) proper' single'
        exact ⟨grown.mono fun _ => Along.cons, sound⟩
      next missing =>
        split
        next =>
          have fresh : d.at? (p.onto name) ≠ some .directory := by simp [missing]
          obtain ⟨below, moves⟩ := stands.onto_fresh fresh
          have first := grown_insert missing proper'
          have there : at? (Catalog.insert d (p.onto name).path .directory) (p.onto name) =
              some .directory := by
            rw [at?_insert fresh proper' proper', if_pos rfl]
          obtain ⟨grown, sound⟩ := ih ((first.stands proper stands).onto there) proper' single'
          refine ⟨(first.mono ?_).trans (grown.mono fun _ => Along.cons), fun held => sound ?_⟩
          · rintro q rfl
            exact ⟨[name], by simp [moves], rfl⟩
          · rw [below] at proper' fresh ⊢
            exact held.insert stands proper' fresh _
        next => exact ⟨.refl d _, id⟩

/-! ## Making the directory of a path -/

theorem makeDirectory_grown (d : Disk) (path : String) :
    Grown d (d.makeDirectory path).1 (Along (Path.origin path) (Path.names path)) ∧
      (d.Sound → (d.makeDirectory path).1.Sound) := by
  unfold makeDirectory
  split
  · exact ⟨.refl d _, id⟩
  · split
    · exact makeAlong_grown (stands_origin d path) (Place.proper_origin path)
        fun _ => Path.isPiece_of_mem_names
    · exact ⟨.refl d _, id⟩

theorem Sound.makeDirectory (sound : d.Sound) (path : String) : (d.makeDirectory path).1.Sound :=
  (makeDirectory_grown d path).2 sound

/-- The way to a path goes through its parent. -/
theorem steps_parent_front (split : Path.names path = names ++ [name]) :
    Path.steps (Path.parent path) <+: names.filter isStep := by
  have whole : Path.steps (Path.parent path) ++ Path.stepsOf (Path.splitLast path).1 =
      names.filter isStep ++ [name].filter isStep := by
    rw [← Path.steps_eq_parent, Path.steps, split, List.filter_append]
  have single := (Path.splits_splitLast path).single
  by_cases moves : isStep (String.ofList (Path.splitLast path).1) = true
  · rw [Path.stepsOf_name single moves] at whole
    cases last : isStep name with
    | true =>
        rw [List.filter_cons_of_pos last] at whole
        exact (List.append_inj' whole rfl).1 ▸ List.prefix_refl _
    | false =>
        rw [List.filter_cons_of_neg (by simp [last]), List.filter_nil, List.append_nil] at whole
        exact whole ▸ List.prefix_append _ _
  · have unnamed : Path.stepsOf (Path.splitLast path).1 = [] := by
      rw [Path.stepsOf, Path.pieces_of_not_mem single]
      simpa using moves
    have nothing := Path.steps_eq_nil unnamed
    rw [Path.steps_eq_parent, List.append_eq_nil_iff] at nothing
    rw [nothing.1]
    exact List.nil_prefix

theorem Passes.front (stands : d.Stands p) (passes : d.Passes p names) {front : List String}
    (within : front.filter isStep <+: names.filter isStep) : d.Passes p front := by
  obtain ⟨more, whole⟩ := within
  have all := (passes_filter stands).mpr passes
  rw [← whole] at all
  exact (passes_filter stands).mp (passes_append.mp all).1

/-- Where the way to a path is there, so is its parent. -/
theorem makeDirectory_of_leads (leads : d.place? path = some q) :
    d.makeDirectory (Path.parent path) = (d, true) := by
  obtain ⟨names, name, split⟩ := names_eq_concat path
  obtain ⟨lead, passes, -⟩ := (place?_some split).mp leads
  have within := steps_parent_front split
  have lead' := fun empty => @Path.canLead_parent path empty lead
  have origin := @Path.origin_parent path
  generalize Path.parent path = directory at within lead' origin ⊢
  by_cases empty : directory = ""
  · rw [makeDirectory, empty]
    rfl
  rw [makeDirectory, if_neg (by simpa using empty), if_pos (lead' empty), origin empty]
  exact makeAlong_of_passes (passes.front (stands_origin d path) within)

/-- Names that lead to no directory above pass through what the place they lead to stands in. -/
theorem Stands.passes (plain : Path.above ∉ names) (moves : ∀ name ∈ names, isStep name = true)
    (stands : d.Stands (p.along names)) : d.Passes p names := by
  induction names generalizing p with
  | nil => exact trivial
  | cons name rest ih =>
      have place := @Place.along_plain p (name :: rest) plain moves
      rw [List.mem_cons, not_or] at plain
      have first : p.onto name = p.below name :=
        Place.onto_eq_below (moves name List.mem_cons_self) (Ne.symm plain.1)
      refine ⟨?_, ih plain.2 (fun other member => moves other (List.mem_cons_of_mem _ member)) stands⟩
      rw [place] at stands
      rw [first]
      exact stands (p.names ++ [name]) ⟨rest, by simp⟩

theorem ofPath_plain (plain : Path.above ∉ Path.names path) :
    Place.ofPath path = ⟨Path.isAbsolute path, Path.steps path⟩ :=
  Place.along_plain (fun member => plain (List.mem_filter.mp member).1)
    fun _ member => (List.mem_filter.mp member).2

/-- The way to the parent of a path does not go through the place of the path. -/
theorem isBase_of_along (plain : Path.above ∉ Path.names path)
    (along : Along (Path.origin (Path.parent path)) (Path.names (Path.parent path)) (.ofPath path)) :
    (Place.ofPath path).isBase = true := by
  obtain ⟨front, within, place⟩ := along
  have steps := Path.steps_eq_parent path
  have inside : front ⊆ Path.steps path := by
    rw [steps]
    exact fun _ member => List.mem_append_left _ (within.subset member)
  have plain' : Path.above ∉ front :=
    fun member => plain (List.mem_filter.mp (inside member)).1
  rw [ofPath_plain plain, Place.along_plain plain' fun _ member =>
    (List.mem_filter.mp (inside member)).2] at place
  have same : Path.steps path = front := congrArg Place.names place
  have short : front.length ≤ (Path.steps (Path.parent path)).length := within.length_le
  have unnamed : Path.stepsOf (Path.splitLast path).1 = [] := by
    have lengths := congrArg List.length steps
    rw [same, List.length_append] at lengths
    exact List.length_eq_zero_iff.mp (by omega)
  rw [ofPath_plain plain, Path.steps_eq_nil unnamed]
  rfl

/-- On a sound disk the directories that a place stands in are there if something is at the
place. -/
theorem Sound.stands (sound : d.Sound) (proper : q.Proper) (kept : d'.at? q = d.at? q)
    (there : d.at? q ≠ none) (within : names <+: q.names) (stands : d'.Stands ⟨q.rooted, names⟩) :
    d.Stands ⟨q.rooted, names⟩ := by
  intro front inside
  by_cases same : front = q.names
  · subst same
    exact kept.symm.trans (stands _ inside)
  · exact sound q proper there front (inside.trans within) same

/-- On a sound disk nothing comes to be at the end of a path by making its parent, unless the path
leads through the directory above one that is missing. -/
theorem found?_makeDirectory (sound : d.Sound)
    (whole : d.place? path ≠ none ∨ Path.above ∉ Path.names path) :
    (d.makeDirectory (Path.parent path)).1.found? path = d.found? path := by
  cases leads : d.place? path with
  | some q => rw [makeDirectory_of_leads leads]
  | none =>
      have plain := whole.resolve_left (by simp [leads])
      have nowhere : d.found? path = none := by rw [found?, leads]; rfl
      have grown := (makeDirectory_grown d (Path.parent path)).1
      rw [nowhere, Option.eq_none_iff_forall_ne_some]
      generalize (d.makeDirectory (Path.parent path)).1 = made at grown
      intro e there
      obtain ⟨q, leads', there⟩ := Option.bind_eq_some_iff.mp there
      obtain ⟨names, name, split⟩ := names_eq_concat path
      obtain ⟨lead, passes, rfl⟩ := (place?_some split).mp leads'
      have kept : made.at? (.ofPath path) = d.at? (.ofPath path) := by
        rcases grown _ (Place.proper_ofPath path) with same | ⟨missing, -, along⟩
        · exact same
        · rw [at?_base d (isBase_of_along plain along)] at missing
          cases missing
      have plain' : Path.above ∉ names.filter isStep := by
        intro member
        rw [split] at plain
        exact plain (List.mem_append_left _ (List.mem_filter.mp member).1)
      have moves : ∀ name ∈ names.filter isStep, isStep name = true :=
        fun _ member => (List.mem_filter.mp member).2
      have within : names.filter isStep <+: Path.steps path := by
        rw [Path.steps, split, List.filter_append]
        exact List.prefix_append _ _
      have proper := Place.proper_ofPath path
      have stands := (stands_origin made path).along passes
      rw [← Place.along_filter] at stands
      rw [ofPath_plain plain] at kept there proper
      have before : d.at? ⟨Path.isAbsolute path, Path.steps path⟩ ≠ none := by simp [← kept, there]
      have stands' : d.Stands ((Path.origin path).along (names.filter isStep)) := by
        rw [Place.along_plain plain' moves] at stands ⊢
        exact sound.stands (q := ⟨_, Path.steps path⟩) proper kept before within stands
      have passes' := (passes_filter (stands_origin d path)).mp (stands'.passes plain' moves)
      rw [(place?_some split).mpr ⟨lead, passes', rfl⟩] at leads
      cases leads

end Disk

end EngineConsole
