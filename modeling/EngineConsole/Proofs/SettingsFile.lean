import EngineConsole.Proofs.Disk.Changes
import EngineConsole.Proofs.SettingsDocument
import EngineConsole.Proofs.Text.Utf8
import EngineConsole.Settings.Store

/-!
# Settings in their file

How a save can end, step by step, and what is on the disk then. Settings that were saved where a
file can be written are loaded again as they were; settings that have no document are not saved at
all.
-/

set_option autoImplicit false

namespace EngineConsole.SettingsStore

open Disk (Takes SameDirectories)

variable {store : SettingsStore} {d made : Disk} {refused : Refusals} {bytes : List UInt8}

/-! ## How a replacement ends -/

/-- The disk when the draft has been moved into place. -/
def moved (store : SettingsStore) (made : Disk) (bytes : List UInt8) : Disk :=
  ((made.put store.draftPath bytes).put store.path bytes).remove store.draftPath

/-- The ends of a replacement: the directory cannot be made, the draft cannot be created, it is
created but not finished and moved, or it is moved into place. -/
inductive Replaces (store : SettingsStore) (d : Disk) (refused : Refusals) (bytes : List UInt8) :
    Disk × Except Problem Unit → Prop where
  | unmade {made : Disk} :
      d.makeDirectory (Path.parent store.path) = (made, false) →
      Replaces store d refused bytes (made, .error .disk)
  | uncreated {made : Disk} :
      d.makeDirectory (Path.parent store.path) = (made, true) →
      refused.create = true ∨ ¬made.Takes store.draftPath →
      Replaces store d refused bytes (made, .error .disk)
  | unmoved {made d' : Disk} :
      d.makeDirectory (Path.parent store.path) = (made, true) →
      refused.create = false → made.Takes store.draftPath →
      refused.write = true ∨ refused.rename = true ∨ ¬made.Takes store.path →
      d' = made.put store.draftPath (if refused.write then [] else bytes) →
      Replaces store d refused bytes (d', .error .disk)
  | moved {made d' : Disk} :
      d.makeDirectory (Path.parent store.path) = (made, true) →
      refused = {} → made.Takes store.draftPath → made.Takes store.path →
      d' = store.moved made bytes →
      Replaces store d refused bytes (d', .ok ())

theorem replaces_replace (store : SettingsStore) (d : Disk) (refused : Refusals)
    (bytes : List UInt8) : store.Replaces d refused bytes (store.replace d refused bytes) := by
  unfold replace
  split
  next made made' => exact .unmade made'
  next made made' =>
    split
    next barred => exact .uncreated made' (.inl barred)
    next created =>
      have created : refused.create = false := by simpa using created
      by_cases takes : made.Takes store.draftPath
      · rw [takes.write]
        dsimp only
        split
        next cut =>
          refine .unmoved made' created takes ?_ rfl
          rcases cut with cut | cut
          · exact .inl cut
          · exact .inr (.inl cut)
        next whole =>
          obtain ⟨written, renamed⟩ := not_or.mp whole
          have written : refused.write = false := by simpa using written
          have renamed : refused.rename = false := by simpa using renamed
          have none : refused = {} := by
            cases refused
            simp_all
          obtain ⟨moves, stays⟩ := @Disk.rename_put made store.path _ takes bytes
          rw [if_neg (by simp [written])]
          by_cases free : made.Takes store.path
          · rw [moves free]
            exact .moved made' none takes free rfl
          · rw [stays free]
            exact .unmoved made' created takes (.inr (.inr free)) (by simp [written])
      · rw [Disk.write_eq_none takes]
        exact .uncreated made' (.inr takes)

/-! ## A file that was moved into place -/

theorem draft_ne (takes : made.Takes store.draftPath) :
    (Place.ofPath store.path).path ≠ (Place.ofPath store.draftPath).path :=
  Disk.draft_ne (by decide) (by decide) ⟨'t', by decide⟩ takes.leads takes.free

section

variable (draft : made.Takes store.draftPath) (target : made.Takes store.path)

include draft target

theorem sameDirectories_moved (bytes : List UInt8) :
    made.SameDirectories (store.moved made bytes) := by
  have first := draft.sameDirectories bytes
  have both := first.trans ((first.takes.mpr target).sameDirectories bytes)
  have taken := both.takes.mpr draft
  exact both.trans (Disk.sameDirectories_remove taken.leads taken.free)

theorem at?_moved (bytes : List UInt8) {p : Place} (proper : p.Proper) :
    (store.moved made bytes).at? p =
      if p = .ofPath store.path then some (.file bytes)
      else if p = .ofPath store.draftPath then none
      else made.at? p := by
  have first := draft.sameDirectories bytes
  have target' := first.takes.mpr target
  have taken := (first.trans (target'.sameDirectories bytes)).takes.mpr draft
  have differ : Place.ofPath store.path ≠ .ofPath store.draftPath :=
    fun same => draft_ne draft (congrArg Place.path same)
  rw [moved, Disk.at?_remove taken.leads taken.free proper, target'.at?_put bytes proper,
    draft.at?_put bytes proper]
  by_cases first : p = .ofPath store.path
  · have second : p ≠ .ofPath store.draftPath := by
      rw [first]
      exact differ
    rw [if_pos first, if_pos first, if_neg second]
  · by_cases second : p = .ofPath store.draftPath
    · simp only [if_neg first, if_pos second]
    · simp only [if_neg first, if_neg second]

/-- The file is there as a whole, and its draft is gone. -/
theorem found?_moved (bytes : List UInt8) :
    (store.moved made bytes).found? store.path = some (.file bytes) ∧
      (store.moved made bytes).found? store.draftPath = none := by
  have same := sameDirectories_moved draft target bytes
  have differ : Place.ofPath store.draftPath ≠ .ofPath store.path :=
    fun equal => draft_ne draft (congrArg Place.path equal).symm
  constructor
  · rw [Disk.found?_of_leads ((same.place? _).trans target.leads),
      at?_moved draft target bytes (Place.proper_ofPath _), if_pos rfl]
  · rw [Disk.found?_of_leads ((same.place? _).trans draft.leads),
      at?_moved draft target bytes (Place.proper_ofPath _), if_neg differ, if_pos rfl]

end

/-! ## Saving and loading -/

/-- A file can be written at the path of the settings, and a draft beside it, in the directory that
is made for them. -/
def Writable (store : SettingsStore) (d : Disk) : Prop :=
  ∃ made, d.makeDirectory (Path.parent store.path) = (made, true) ∧
    (made.write store.draftPath []).isSome = true ∧ (made.write store.path []).isSome = true

theorem Writable.replace (writable : store.Writable d) (bytes : List UInt8) :
    ∃ made, made.Takes store.draftPath ∧ made.Takes store.path ∧
      store.replace d {} bytes = (store.moved made bytes, .ok ()) := by
  obtain ⟨made, whole, draft, target⟩ := writable
  obtain ⟨_, written⟩ := Option.isSome_iff_exists.mp draft
  obtain ⟨_, written'⟩ := Option.isSome_iff_exists.mp target
  have draft := (Disk.takes_of_write written).1
  have target := (Disk.takes_of_write written').1
  have ends := store.replaces_replace d {} bytes
  generalize store.replace d {} bytes = outcome at ends
  refine ⟨made, draft, target, ?_⟩
  cases ends with
  | unmade failed => cases whole.symm.trans failed
  | uncreated whole' barred =>
      obtain rfl : made = _ := (Prod.mk.inj (whole.symm.trans whole')).1
      rcases barred with create | barred
      · cases create
      · exact absurd draft barred
  | unmoved whole' _ _ barred =>
      obtain rfl : made = _ := (Prod.mk.inj (whole.symm.trans whole')).1
      rcases barred with write | rename | barred
      · cases write
      · cases rename
      · exact absurd target barred
  | moved whole' _ _ _ ended =>
      obtain rfl : made = _ := (Prod.mk.inj (whole.symm.trans whole')).1
      rw [ended]

/-- Settings are what is loaded where their document is. -/
theorem load_document {s : Settings} {text : String} (found : d.found? store.path =
      some (.file text.toUTF8.toList)) (read : Settings.parse text = some s) :
    store.load d = ({ store with settings := s }, .ok ()) := by
  have decoded : Text.decode? text.toUTF8.toList = some text := Text.decode?_encode text
  rw [load, found]
  dsimp only
  rw [decoded]
  dsimp only
  rw [read]

theorem load_malformed {text : String} (found : d.found? store.path =
      some (.file text.toUTF8.toList)) (unread : Settings.parse text = none) :
    store.load d = (store, .error .malformed) := by
  have decoded : Text.decode? text.toUTF8.toList = some text := Text.decode?_encode text
  rw [load, found]
  dsimp only
  rw [decoded]
  dsimp only
  rw [unread]

theorem fits_iff {s : Settings} :
    s.fits = true ↔
      s.interval ≤ 2 ^ 63 - 1 ∧ s.ttl ≤ 2 ^ 63 - 1 ∧ s.capacity ≤ 2 ^ 63 - 1 := by
  simp only [Settings.fits, Bool.and_eq_true, decide_eq_true_eq, and_assoc]
  rfl

/-- Settings survive their file. If no count is too large to be written and the texts can stand
between quotes, a save where a file can be written succeeds, and whoever loads the file has the same
settings. If a count is too large, the save fails whatever the disk would have let it do, and
nothing is written or created. -/
theorem saved_settings_are_loaded (store : SettingsStore) (d : Disk) :
    (store.settings.interval ≤ 2 ^ 63 - 1 ∧ store.settings.ttl ≤ 2 ^ 63 - 1 ∧
        store.settings.capacity ≤ 2 ^ 63 - 1 →
      store.settings.Quotable → store.Writable d →
      ∃ d', store.save d {} = (d', .ok ()) ∧
        ∀ before : Settings, SettingsStore.load ⟨store.path, before⟩ d' =
          (⟨store.path, store.settings⟩, .ok ())) ∧
    (¬(store.settings.interval ≤ 2 ^ 63 - 1 ∧ store.settings.ttl ≤ 2 ^ 63 - 1 ∧
        store.settings.capacity ≤ 2 ^ 63 - 1) →
      ∀ refused, store.save d refused = (d, .error .unwritable)) := by
  rw [← fits_iff]
  constructor
  · intro fits quotable writable
    obtain ⟨text, written, read⟩ := Settings.parse_document fits quotable
    obtain ⟨made, draft, target, replaced⟩ := writable.replace text.toUTF8.toList
    refine ⟨store.moved made text.toUTF8.toList, ?_, ?_⟩
    · rw [save, written]
      exact replaced
    · intro before
      obtain ⟨found, -⟩ := found?_moved draft target text.toUTF8.toList
      have again : SettingsStore.path ⟨store.path, before⟩ = store.path := rfl
      exact load_document (again ▸ found) read
  · intro large refused
    rw [save, Settings.document?, if_neg large]

/-- Texts with double quotes and backslashes and the largest count survive in a directory that is
made for them; a count that is larger leaves the empty disk empty. -/
theorem quoted_settings_are_loaded :
    let settings : Settings := { baseUrl := "http://h/\"a\\b\"", interval := 2 ^ 63 - 1 }
    let large : Settings := { settings with capacity := 2 ^ 63 }
    (∃ d', save ⟨"etc/settings.toml", settings⟩ .empty {} = (d', .ok ()) ∧
      load ⟨"etc/settings.toml", {}⟩ d' = (⟨"etc/settings.toml", settings⟩, .ok ())) ∧
    save ⟨"etc/settings.toml", large⟩ .empty {} = (.empty, .error .unwritable) := by
  intro settings large
  obtain ⟨survive, -⟩ := saved_settings_are_loaded ⟨"etc/settings.toml", settings⟩ .empty
  obtain ⟨-, fail⟩ := saved_settings_are_loaded ⟨"etc/settings.toml", large⟩ .empty
  have quotable : settings.Quotable := ⟨by decide, by decide⟩
  have writable : Writable ⟨"etc/settings.toml", settings⟩ .empty := by
    have parent : Path.parent "etc/settings.toml" = "etc" := by
      simp [Path.parent, Path.splitLast, Path.trimBack]
    have draft : draftPath ⟨"etc/settings.toml", settings⟩ = "etc/settings.toml.tmp" := by
      simp [draftPath, Path.withExtension, Path.splitLast, Path.trimBack, Path.staysPut, Path.above,
        Path.stem]
    refine ⟨Catalog.insert Catalog.empty "etc" Entry.directory, ?_, ?_, ?_⟩
    · rw [parent]
      rfl
    · rw [draft]
      rfl
    · dsimp only
      rfl
  obtain ⟨d', saved, loaded⟩ := survive (by decide) quotable writable
  exact ⟨⟨d', saved, loaded {}⟩, fail (by decide) {}⟩

end EngineConsole.SettingsStore
