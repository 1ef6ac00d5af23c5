import EngineConsole.Proofs.Disk.Places

/-!
# What changes on a disk

Writing or removing a file changes what is at its place and nothing else. No directory comes or
goes with it, so every path leads where it led before.
-/

set_option autoImplicit false

namespace EngineConsole

theorem Catalog.find?_filter {α : Type} (key name : String) (l : List (String × α)) :
    find? name (l.filter fun e => e.1 ≠ key) = if name = key then none else find? name l := by
  induction l with
  | nil => simp [find?]
  | cons e rest ih =>
      by_cases taken : e.1 = key
      · rw [List.filter_cons_of_neg (by simp [taken]), ih]
        split
        · rfl
        next other => rw [find?, if_neg (taken ▸ other)]
      · rw [List.filter_cons_of_pos (by simpa using taken), find?, find?, ih]
        split
        next same => rw [if_neg (same ▸ taken)]
        next => rfl

namespace Disk

variable {d d' : Disk} {p q : Place} {path : String} {bytes : List UInt8}

/-- Two disks have the same directories. -/
def SameDirectories (d d' : Disk) : Prop :=
  ∀ p, d.at? p = some .directory ↔ d'.at? p = some .directory

theorem SameDirectories.trans {d'' : Disk} (same : d.SameDirectories d')
    (same' : d'.SameDirectories d'') : d.SameDirectories d'' :=
  fun p => (same p).trans (same' p)

theorem SameDirectories.place? (same : d.SameDirectories d') (path : String) :
    d'.place? path = d.place? path :=
  place?_congr same

/-! ## Places -/

theorem not_base_of_fresh (fresh : d.at? q ≠ some .directory) : q.isBase ≠ true :=
  fun base => fresh (d.at?_base base)

theorem at?_insert (fresh : d.at? q ≠ some .directory) (proper : p.Proper) (proper' : q.Proper)
    (e : Entry) : at? (d.insert q.path e) p = if p = q then some e else d.at? p := by
  have other := not_base_of_fresh fresh
  by_cases same : p = q
  · rw [if_pos same, same, at?_of_not_base other, Catalog.get?_insert, if_pos rfl]
  · rw [if_neg same]
    by_cases base : p.isBase = true
    · rw [at?_base _ base, at?_base _ base]
    · have apart : p.path ≠ q.path := fun text => same (proper.eq_of_path_eq proper' text)
      rw [at?_of_not_base base, at?_of_not_base base, Catalog.get?_insert, if_neg apart]

theorem sameDirectories_insert (fresh : d.at? q ≠ some .directory) (bytes : List UInt8) :
    d.SameDirectories (d.insert q.path (.file bytes)) := by
  intro p
  by_cases base : p.isBase = true
  · simp only [at?_base _ base]
  · have text : d.get? q.path ≠ some .directory := by
      rwa [at?_of_not_base (not_base_of_fresh fresh)] at fresh
    rw [at?_of_not_base base, at?_of_not_base base, Catalog.get?_insert]
    split
    next same =>
      rw [same]
      exact iff_of_false text (by simp)
    next => rfl

/-! ## Writing -/

/-- A file can be written at a path. -/
structure Takes (d : Disk) (path : String) : Prop where
  leads : d.place? path = some (.ofPath path)
  free : d.at? (.ofPath path) ≠ some .directory
  named : (Place.ofPath path).names.all Path.canName = true

/-- The disk with a file at the place of a path. -/
def put (d : Disk) (path : String) (bytes : List UInt8) : Disk :=
  d.insert (Place.ofPath path).path (.file bytes)

theorem Takes.write (takes : d.Takes path) (bytes : List UInt8) :
    d.write path bytes = some (d.put path bytes) := by
  rw [Disk.write, takes.leads]
  exact if_pos ⟨takes.free, takes.named⟩

theorem takes_of_write (written : d.write path bytes = some d') :
    d.Takes path ∧ d' = d.put path bytes := by
  unfold write at written
  split at written
  next => cases written
  next q leads =>
    obtain rfl := eq_ofPath leads
    split at written
    next free =>
      obtain ⟨free, named⟩ := free
      exact ⟨⟨leads, free, named⟩, (Option.some.inj written).symm⟩
    next => cases written

theorem write_eq_none (barred : ¬d.Takes path) (bytes : List UInt8) : d.write path bytes = none := by
  cases written : d.write path bytes with
  | none => rfl
  | some d' => exact absurd (takes_of_write written).1 barred

theorem SameDirectories.takes (same : d.SameDirectories d') :
    d'.Takes path ↔ d.Takes path := by
  constructor
  · rintro ⟨leads, free, named⟩
    exact ⟨(same.place? path).symm.trans leads, fun there => free ((same _).mp there), named⟩
  · rintro ⟨leads, free, named⟩
    exact ⟨(same.place? path).trans leads, fun there => free ((same _).mpr there), named⟩

theorem Takes.sameDirectories (takes : d.Takes path) (bytes : List UInt8) :
    d.SameDirectories (d.put path bytes) :=
  sameDirectories_insert takes.free bytes

theorem Takes.at?_put (takes : d.Takes path) (bytes : List UInt8) (proper : p.Proper) :
    (d.put path bytes).at? p = if p = .ofPath path then some (.file bytes) else d.at? p :=
  at?_insert takes.free proper (Place.proper_ofPath path) _

/-! ## Removing -/

theorem remove_nowhere (nowhere : d.place? path = none) : d.remove path = d := by
  rw [remove, nowhere]

theorem remove_directory (leads : d.place? path = some q) (there : d.at? q = some .directory) :
    d.remove path = d := by
  rw [remove, leads]
  exact if_pos there

section

variable (leads : d.place? path = some (.ofPath path))
  (free : d.at? (.ofPath path) ≠ some .directory)

include leads free

theorem get?_remove (name : String) :
    (d.remove path).get? name =
      if name = (Place.ofPath path).path then none else d.get? name := by
  rw [remove, leads]
  dsimp only
  rw [if_neg free]
  exact Catalog.find?_filter _ _ _

theorem at?_remove (proper : p.Proper) :
    (d.remove path).at? p = if p = .ofPath path then none else d.at? p := by
  by_cases same : p = .ofPath path
  · rw [if_pos same, same, at?_of_not_base (not_base_of_fresh free), get?_remove leads free,
      if_pos rfl]
  · rw [if_neg same]
    by_cases base : p.isBase = true
    · rw [at?_base _ base, at?_base _ base]
    · have apart : p.path ≠ (Place.ofPath path).path :=
        fun text => same (proper.eq_of_path_eq (Place.proper_ofPath path) text)
      rw [at?_of_not_base base, at?_of_not_base base, get?_remove leads free, if_neg apart]

theorem sameDirectories_remove : d.SameDirectories (d.remove path) := by
  intro p
  by_cases base : p.isBase = true
  · simp only [at?_base _ base]
  · have text : d.get? (Place.ofPath path).path ≠ some .directory := by
      rwa [at?_of_not_base (not_base_of_fresh free)] at free
    rw [at?_of_not_base base, at?_of_not_base base, get?_remove leads free]
    split
    next same =>
      rw [same]
      exact iff_of_false text (by simp)
    next => rfl

end

/-! ## Finding -/

theorem found?_of_leads (leads : d.place? path = some q) : d.found? path = d.at? (.ofPath path) := by
  rw [found?, leads, eq_ofPath leads]
  rfl

theorem at?_of_found? {e : Entry} (found : d.found? path = some e) :
    d.at? (.ofPath path) = some e := by
  obtain ⟨q, leads, there⟩ := Option.bind_eq_some_iff.mp found
  rwa [← eq_ofPath leads]

theorem found?_congr (same : d.SameDirectories d')
    (still : d'.at? (.ofPath path) = d.at? (.ofPath path)) : d'.found? path = d.found? path := by
  cases leads : d.place? path with
  | none => rw [found?, found?, same.place?, leads]; rfl
  | some q => rw [found?_of_leads ((same.place? path).trans leads), found?_of_leads leads, still]

theorem read?_eq_some : d.read? path = some bytes ↔ d.found? path = some (.file bytes) := by
  unfold read?
  split
  next found => simp [found]
  next other =>
    constructor
    · exact nofun
    · exact fun found => absurd found (other bytes)

/-! ## Moving -/

/-- A draft that was written is moved if a file can be written where it goes. -/
theorem rename_put {draft : String} (takes : d.Takes draft) (bytes : List UInt8) :
    (d.Takes path → (d.put draft bytes).rename draft path =
      some (((d.put draft bytes).put path bytes).remove draft)) ∧
    (¬d.Takes path → (d.put draft bytes).rename draft path = none) := by
  have same := takes.sameDirectories bytes
  have read : (d.put draft bytes).read? draft = some bytes := by
    rw [read?_eq_some, found?_of_leads ((same.place? draft).trans takes.leads),
      takes.at?_put bytes (Place.proper_ofPath draft), if_pos rfl]
  unfold rename
  rw [read]
  constructor
  · intro free
    dsimp only
    rw [(same.takes.mpr free).write bytes]
    rfl
  · intro barred
    dsimp only
    rw [write_eq_none fun free => barred (same.takes.mp free)]
    rfl

end Disk

end EngineConsole
