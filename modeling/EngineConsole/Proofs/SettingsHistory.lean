import EngineConsole.Proofs.Disk.Directories
import EngineConsole.Proofs.SettingsFile
import Mathlib.Data.List.Induction

/-!
# The settings file over time

Settings are loaded, changed and saved while others change the disk, in any order and with any step
of a save refused. A save leaves its whole document or what was there before, so what is in the file
was put there by others or is the document of settings that were saved.
-/

set_option autoImplicit false

namespace EngineConsole.SettingsStore

open Disk (Takes Sound)

/-! ## Histories -/

/-- What happens to settings and to the disk. -/
inductive Act where
  | load
  | loadOrCreate (refused : Refusals)
  | save (refused : Refusals)
  | change (settings : Settings)
  /-- Others write, remove and create what they like. -/
  | outside (disk : Disk) (sound : disk.Sound)

def perform (store : SettingsStore) (d : Disk) :
    Act → SettingsStore × Disk × Except Problem Unit
  | .load =>
    let (store, result) := store.load d
    (store, d, result)
  | .loadOrCreate refused => store.loadOrCreate d refused
  | .save refused =>
    let (d, result) := store.save d refused
    (store, d, result)
  | .change settings => ({ store with settings }, d, .ok ())
  | .outside disk _ => (store, disk, .ok ())

/-- Settings and disk after a history, which begins with defaults and an empty disk. -/
def after (path : String) (acts : List Act) : SettingsStore × Disk :=
  acts.foldl (fun s act =>
    let (store, d, _) := s.1.perform s.2 act
    (store, d)) (⟨path, {}⟩, .empty)

/-- An act saves settings: those in memory, or defaults if there is no file. -/
inductive Saves (store : SettingsStore) (d : Disk) : Act → Settings → Refusals → Prop where
  | save {refused : Refusals} : Saves store d (.save refused) store.settings refused
  | create {refused : Refusals} :
      d.found? store.path = none → Saves store d (.loadOrCreate refused) {} refused

variable {store : SettingsStore} {d d' : Disk} {refused : Refusals} {problem : Problem}
  {path : String} {acts : List Act} {act : Act} {p : Place} {bytes : List UInt8}

theorem after_concat (path : String) (acts : List Act) (act : Act) :
    after path (acts ++ [act]) =
      (((after path acts).1.perform (after path acts).2 act).1,
        ((after path acts).1.perform (after path acts).2 act).2.1) := by
  rw [after, List.foldl_append]
  rfl

/-! ## How a save ends -/

/-- What a save that fails leaves: the disk as it was, the disk with the directory for the file, or
with a draft that could not be finished or moved. -/
inductive Fails (store : SettingsStore) (d : Disk) (refused : Refusals) : Disk → Prop where
  | unwritten : Fails store d refused d
  | undrafted : Fails store d refused (d.makeDirectory (Path.parent store.path)).1
  | drafted (bytes : List UInt8) :
      (d.makeDirectory (Path.parent store.path)).1.Takes store.draftPath →
      refused.write = true ∨ refused.rename = true ∨
        ((d.makeDirectory (Path.parent store.path)).1.put store.draftPath bytes).rename
          store.draftPath store.path = none →
      Fails store d refused ((d.makeDirectory (Path.parent store.path)).1.put store.draftPath bytes)

theorem fails_of_save (saved : store.save d refused = (d', .error problem)) :
    store.Fails d refused d' := by
  unfold save at saved
  split at saved
  next =>
    cases saved
    exact .unwritten
  next text _ =>
    have ends := store.replaces_replace d refused text.toUTF8.toList
    rw [saved] at ends
    cases ends with
    | unmade made =>
        obtain rfl : (d.makeDirectory (Path.parent store.path)).1 = d' := congrArg Prod.fst made
        exact .undrafted
    | uncreated made =>
        obtain rfl : (d.makeDirectory (Path.parent store.path)).1 = d' := congrArg Prod.fst made
        exact .undrafted
    | @unmoved made _ whole _ takes barred left =>
        obtain rfl : (d.makeDirectory (Path.parent store.path)).1 = made := congrArg Prod.fst whole
        rw [left]
        exact .drafted _ takes (barred.imp_right (Or.imp_right (Disk.rename_put takes _).2))

/-- A save that succeeds has moved the whole document into place. -/
theorem moved_of_save (saved : store.save d refused = (d', .ok ())) :
    ∃ text made, store.settings.document? = some text ∧
      (d.makeDirectory (Path.parent store.path)).1 = made ∧
      made.Takes store.draftPath ∧ made.Takes store.path ∧
      d' = store.moved made text.toUTF8.toList := by
  unfold save at saved
  split at saved
  next => cases saved
  next text written =>
    have ends := store.replaces_replace d refused text.toUTF8.toList
    rw [saved] at ends
    cases ends with
    | @moved made _ whole _ draft target ended =>
        exact ⟨text, made, written, congrArg Prod.fst whole, draft, target, ended⟩

/-- Making the directory for the file leaves all that is there. -/
theorem keptAt_parent (store : SettingsStore) (d : Disk) (proper : p.Proper) :
    d.KeptAt (d.makeDirectory (Path.parent store.path)).1 p :=
  (Disk.makeDirectory_grown d _).1.keptAt proper

/-! ## What a save leaves -/

namespace Fails

variable (fails : store.Fails d refused d')

include fails

/-- What was found at the path is found there still. -/
theorem found? (sound : d.Sound)
    (whole : d.place? store.path ≠ none ∨ Path.above ∉ Path.names store.path) :
    d'.found? store.path = d.found? store.path := by
  cases fails with
  | unwritten => rfl
  | undrafted => exact Disk.found?_makeDirectory sound whole
  | drafted bytes takes =>
      rw [← Disk.found?_makeDirectory sound whole]
      have apart := draft_ne takes
      refine Disk.found?_congr (takes.sameDirectories bytes) ?_
      rw [takes.at?_put bytes (Place.proper_ofPath _),
        if_neg fun same => apart (congrArg Place.path same)]

/-- Nothing but the draft is changed, and nothing but directories comes. -/
theorem others (proper : p.Proper) (other : p ≠ .ofPath store.draftPath) : d.KeptAt d' p := by
  cases fails with
  | unwritten => exact .inl rfl
  | undrafted => exact store.keptAt_parent d proper
  | drafted bytes takes =>
      rw [Disk.KeptAt, takes.at?_put bytes proper, if_neg other]
      exact store.keptAt_parent d proper

/-- Nothing comes at the path itself but a directory. -/
theorem target : d.KeptAt d' (.ofPath store.path) := by
  by_cases apart : Place.ofPath store.path = .ofPath store.draftPath
  · cases fails with
    | unwritten => exact .inl rfl
    | undrafted => exact store.keptAt_parent d (Place.proper_ofPath _)
    | drafted bytes takes => exact absurd (congrArg Place.path apart) (draft_ne takes)
  · exact fails.others (Place.proper_ofPath _) apart

/-- A draft that was not there before is one that could not be finished or moved. -/
theorem draft (left : d'.at? (.ofPath store.draftPath) = some (.file bytes)) :
    d.at? (.ofPath store.draftPath) = some (.file bytes) ∨ refused.write = true ∨
      refused.rename = true ∨ d'.rename store.draftPath store.path = none := by
  cases fails with
  | unwritten => exact .inl left
  | undrafted =>
      exact .inl (((store.keptAt_parent d (Place.proper_ofPath _)).file bytes).mp left)
  | drafted _ _ barred => exact .inr barred

theorem sound (sound : d.Sound) : d'.Sound := by
  cases fails with
  | unwritten => exact sound
  | undrafted => exact sound.makeDirectory _
  | drafted bytes takes => exact (sound.makeDirectory _).put takes bytes

end Fails

/-- What a save does to the disk where some of its steps may be refused. -/
structure SavesWhole (store : SettingsStore) (d : Disk) (refused : Refusals) (d' : Disk)
    (result : Except Problem Unit) : Prop where
  /-- The whole document is there, and no draft. -/
  done : result = .ok () → ∃ text, store.settings.document? = some text ∧
    d'.found? store.path = some (.file text.toUTF8.toList) ∧ d'.found? store.draftPath = none
  /-- What was there is there still. Where nothing was, nothing is, unless the path leads through
  the directory above one that was missing; then a directory may have come. -/
  failed : ∀ problem, result = .error problem →
    d.KeptAt d' (.ofPath store.path) ∧
    (d.place? store.path ≠ none ∨ Path.above ∉ Path.names store.path →
      d'.found? store.path = d.found? store.path)
  /-- Nothing else is changed, and nothing but directories comes. -/
  others : ∀ p : Place, p.Proper → p ≠ .ofPath store.path → p ≠ .ofPath store.draftPath →
    d.KeptAt d' p
  /-- A draft is left behind only if it could not be finished or moved. -/
  draft : ∀ bytes, d'.at? (.ofPath store.draftPath) = some (.file bytes) →
    d.at? (.ofPath store.draftPath) = some (.file bytes) ∨
      (∃ problem, result = .error problem) ∧ (refused.write = true ∨ refused.rename = true ∨
        d'.rename store.draftPath store.path = none)
  sound : d'.Sound

theorem savesWhole {result : Except Problem Unit} (sound : d.Sound)
    (saved : store.save d refused = (d', result)) : store.SavesWhole d refused d' result := by
  cases result with
  | error problem =>
      have fails := fails_of_save saved
      exact {
        done := nofun
        failed := fun _ _ => ⟨fails.target, fails.found? sound⟩
        others := fun _ proper _ => fails.others proper
        draft := fun _ left => (fails.draft left).imp_right fun barred => ⟨⟨problem, rfl⟩, barred⟩
        sound := fails.sound sound }
  | ok =>
      obtain ⟨text, made, written, parent, draft, target, ended⟩ := moved_of_save saved
      rw [ended]
      have kept {p : Place} (proper : p.Proper) := store.keptAt_parent d proper
      have held := sound.makeDirectory (Path.parent store.path)
      rw [parent] at kept held
      have at?_moved (p : Place) (proper : p.Proper) :=
        at?_moved draft target text.toUTF8.toList proper
      have target' := (draft.sameDirectories text.toUTF8.toList).takes.mpr target
      exact {
        done := fun _ => ⟨text, written, found?_moved draft target _⟩
        failed := nofun
        others := by
          intro p proper apart other
          rw [Disk.KeptAt, at?_moved p proper, if_neg apart, if_neg other]
          exact kept proper
        draft := by
          intro bytes left
          have apart : Place.ofPath store.draftPath ≠ .ofPath store.path :=
            fun same => draft_ne draft (congrArg Place.path same).symm
          rw [at?_moved _ (Place.proper_ofPath _), if_neg apart, if_pos rfl] at left
          cases left
        sound := ((held.put draft _).put target' _).remove _ }

/-! ## Loading -/

/-- A load changes nothing, or it takes over settings. -/
theorem load_cases (store : SettingsStore) (d : Disk) :
    (∃ problem, store.load d = (store, .error problem)) ∨
      ∃ settings, store.load d = ({ store with settings }, .ok ()) := by
  unfold load
  split
  · exact .inl ⟨_, rfl⟩
  · exact .inl ⟨_, rfl⟩
  · split
    · exact .inl ⟨_, rfl⟩
    · split
      · exact .inl ⟨_, rfl⟩
      · exact .inr ⟨_, rfl⟩

theorem load_failed (failed : (store.load d).2 = .error problem) : (store.load d).1 = store := by
  rcases load_cases store d with ⟨_, same⟩ | ⟨_, loaded⟩
  · rw [same]
  · rw [loaded] at failed
    cases failed

theorem load_path (store : SettingsStore) (d : Disk) : (store.load d).1.path = store.path := by
  rcases load_cases store d with ⟨_, same⟩ | ⟨_, loaded⟩
  · rw [same]
  · rw [loaded]

/-- Settings are loaded if something is at the path; else defaults are saved there. -/
theorem loadOrCreate_eq (store : SettingsStore) (d : Disk) (refused : Refusals) :
    (d.found? store.path ≠ none →
      store.loadOrCreate d refused = ((store.load d).1, d, (store.load d).2)) ∧
    (d.found? store.path = none →
      store.loadOrCreate d refused = (⟨store.path, {}⟩, save ⟨store.path, {}⟩ d refused)) := by
  unfold loadOrCreate
  constructor
  · intro there
    obtain ⟨e, found⟩ := Option.ne_none_iff_exists'.mp there
    rw [found]
  · intro missing
    rw [missing]

/-! ## What an act does to the disk -/

theorem perform_path (store : SettingsStore) (d : Disk) (act : Act) :
    (store.perform d act).1.path = store.path := by
  cases act with
  | load => exact load_path store d
  | loadOrCreate refused =>
      obtain ⟨loaded, created⟩ := loadOrCreate_eq store d refused
      by_cases missing : d.found? store.path = none
      · exact congrArg (·.1.path) (created missing)
      · exact (congrArg (·.1.path) (loaded missing)).trans (load_path store d)
  | save => rfl
  | change => rfl
  | outside => rfl

/-- The disk changes only from outside and by a save. -/
theorem perform_disk (store : SettingsStore) (d : Disk) (act : Act) :
    (store.perform d act).2.1 = d ∨
    (∃ disk sound, act = .outside disk sound ∧ (store.perform d act).2.1 = disk) ∨
    ∃ settings refused, store.Saves d act settings refused ∧
      (store.perform d act).2.1 = (save ⟨store.path, settings⟩ d refused).1 := by
  cases act with
  | load => exact .inl rfl
  | loadOrCreate refused =>
      obtain ⟨loaded, created⟩ := loadOrCreate_eq store d refused
      by_cases missing : d.found? store.path = none
      · exact .inr (.inr ⟨_, _, .create missing, congrArg (·.2.1) (created missing)⟩)
      · exact .inl (congrArg (·.2.1) (loaded missing))
  | save refused => exact .inr (.inr ⟨_, _, .save, rfl⟩)
  | change => exact .inl rfl
  | outside disk sound => exact .inr (.inl ⟨disk, sound, rfl, rfl⟩)

theorem perform_sound (sound : d.Sound) (act : Act) : (store.perform d act).2.1.Sound := by
  rcases perform_disk store d act with same | ⟨disk, sound', -, same⟩ |
    ⟨settings, refused, -, same⟩
  · rwa [same]
  · rwa [same]
  · rw [same]
    exact (savesWhole sound rfl).sound

theorem after_kept (path : String) (acts : List Act) :
    (after path acts).1.path = path ∧ (after path acts).2.Sound := by
  induction acts using List.reverseRecOn with
  | nil => exact ⟨rfl, Disk.sound_empty⟩
  | append_singleton acts act ih =>
      obtain ⟨same, sound⟩ := ih
      rw [after_concat]
      exact ⟨(perform_path _ _ act).trans same, perform_sound sound act⟩

/-- A file that is on the disk was put there by some act and has been there since. -/
theorem put_since (there : (after path acts).2.at? p = some (.file bytes)) :
    ∃ earlier act later, acts = earlier ++ act :: later ∧
      (after path earlier).2.at? p ≠ some (.file bytes) ∧
      ∀ more, more <+: later →
        (after path (earlier ++ act :: more)).2.at? p = some (.file bytes) := by
  induction acts using List.reverseRecOn with
  | nil =>
      have nothing : Disk.at? .empty p ≠ some (.file bytes) := by
        unfold Disk.at?
        split <;> simp
      exact absurd there nothing
  | append_singleton acts act ih =>
      by_cases before : (after path acts).2.at? p = some (.file bytes)
      · obtain ⟨earlier, first, later, rfl, fresh, since⟩ := ih before
        refine ⟨earlier, first, later ++ [act], by simp, fresh, fun more within => ?_⟩
        rcases List.prefix_concat_iff.mp within with rfl | within
        · rwa [List.append_assoc] at there
        · exact since more within
      · refine ⟨acts, act, [], rfl, before, fun more within => ?_⟩
        rwa [List.prefix_nil.mp within]

/-- An act puts the whole document of the settings it saves into the file. -/
def Stores (store : SettingsStore) (d : Disk) (act : Act) (bytes : List UInt8) : Prop :=
  ∃ settings refused d' text, store.Saves d act settings refused ∧
    save ⟨store.path, settings⟩ d refused = (d', .ok ()) ∧
    settings.document? = some text ∧ bytes = text.toUTF8.toList

/-- An act saves settings and leaves a draft that it could not finish or move. -/
def Abandons (store : SettingsStore) (d : Disk) (act : Act) : Prop :=
  ∃ settings refused d' problem, store.Saves d act settings refused ∧
    save ⟨store.path, settings⟩ d refused = (d', .error problem) ∧
    (refused.write = true ∨ refused.rename = true ∨ d'.rename store.draftPath store.path = none)

def Act.IsOutside (act : Act) : Prop :=
  ∃ disk sound, act = .outside disk sound

theorem perform_at? (sound : d.Sound)
    (there : (store.perform d act).2.1.at? p = some (.file bytes))
    (fresh : d.at? p ≠ some (.file bytes)) :
    act.IsOutside ∨ ∃ settings refused d' result, store.Saves d act settings refused ∧
      save ⟨store.path, settings⟩ d refused = (d', result) ∧
      SavesWhole ⟨store.path, settings⟩ d refused d' result ∧ d'.at? p = some (.file bytes) := by
  rcases perform_disk store d act with same | ⟨disk, sound', outside, -⟩ |
    ⟨settings, refused, saves, same⟩
  · exact absurd (same ▸ there) fresh
  · exact .inl ⟨disk, sound', outside⟩
  · rw [same] at there
    exact .inr ⟨settings, refused, _, _, saves, rfl, savesWhole sound rfl, there⟩

/-- What comes into the file is put there from outside, or is the document of saved settings. -/
theorem stores_of_perform (sound : d.Sound)
    (there : (store.perform d act).2.1.at? (.ofPath store.path) = some (.file bytes))
    (fresh : d.at? (.ofPath store.path) ≠ some (.file bytes)) :
    act.IsOutside ∨ store.Stores d act bytes := by
  refine (perform_at? sound there fresh).imp_right ?_
  rintro ⟨settings, refused, d', result, saves, saved, whole, there⟩
  cases result with
  | error problem =>
      exact absurd (((whole.failed problem rfl).1.file bytes).mp there) fresh
  | ok =>
      obtain ⟨text, written, found, -⟩ := whole.done rfl
      have same := there.symm.trans (Disk.at?_of_found? found)
      exact ⟨settings, refused, d', text, saves, saved, written, Entry.file.inj (Option.some.inj same)⟩

/-- What comes as a draft is put there from outside, or could not be finished or moved. -/
theorem abandons_of_perform (sound : d.Sound)
    (there : (store.perform d act).2.1.at? (.ofPath store.draftPath) = some (.file bytes))
    (fresh : d.at? (.ofPath store.draftPath) ≠ some (.file bytes)) :
    act.IsOutside ∨ store.Abandons d act := by
  refine (perform_at? sound there fresh).imp_right ?_
  rintro ⟨settings, refused, d', result, saves, saved, whole, there⟩
  rcases whole.draft bytes there with before | ⟨⟨problem, rfl⟩, barred⟩
  · exact absurd before fresh
  · exact ⟨settings, refused, d', problem, saves, saved, barred⟩

/-- An act of a history put a file at a place, from outside or as it is said, and it has been there
since. -/
def Since (path : String) (acts : List Act) (p : Place) (bytes : List UInt8)
    (cause : SettingsStore → Disk → Act → Prop) : Prop :=
  ∃ earlier act later, acts = earlier ++ act :: later ∧
    (act.IsOutside ∨ cause (after path earlier).1 (after path earlier).2 act) ∧
    ∀ more, more <+: later → (after path (earlier ++ act :: more)).2.at? p = some (.file bytes)

theorem since_of_perform {cause : SettingsStore → Disk → Act → Prop}
    (law : ∀ (store : SettingsStore) (d : Disk) (act : Act), store.path = path → d.Sound →
      (store.perform d act).2.1.at? p = some (.file bytes) → d.at? p ≠ some (.file bytes) →
      act.IsOutside ∨ cause store d act)
    (there : (after path acts).2.at? p = some (.file bytes)) : Since path acts p bytes cause := by
  obtain ⟨earlier, act, later, split, fresh, since⟩ := put_since there
  obtain ⟨same, sound⟩ := after_kept path earlier
  have came := since [] List.nil_prefix
  rw [after_concat] at came
  exact ⟨earlier, act, later, split, law _ _ act same sound came fresh, since⟩

/-- Settings and their file over any history. A load that fails leaves the settings as they were,
and no load changes the disk. A save that succeeds leaves the whole document and no draft; a save
that fails leaves what was at the path, and leaves nothing where nothing was, unless the path leads
through the directory above one that was missing. Defaults are saved only if nothing is at the path,
and otherwise the settings are loaded. What is in the file at any time was put there from outside or
is the whole document of settings that were saved since, and a draft was left by a save that could
not finish or move it. -/
theorem settings_file_is_whole (path : String) (acts : List Act) :
    let store := (after path acts).1
    let d := (after path acts).2
    (∀ problem, (store.load d).2 = .error problem → (store.load d).1 = store) ∧
    (store.perform d .load).2.1 = d ∧
    (∀ settings refused d' result, save ⟨path, settings⟩ d refused = (d', result) →
      SavesWhole ⟨path, settings⟩ d refused d' result) ∧
    (∀ refused, (d.found? path ≠ none →
        store.loadOrCreate d refused = ((store.load d).1, d, (store.load d).2)) ∧
      (d.found? path = none →
        store.loadOrCreate d refused = (⟨path, {}⟩, save ⟨path, {}⟩ d refused))) ∧
    (∀ bytes, d.at? (.ofPath path) = some (.file bytes) →
      Since path acts (.ofPath path) bytes fun store d act => store.Stores d act bytes) ∧
    (∀ bytes, d.at? (.ofPath store.draftPath) = some (.file bytes) →
      Since path acts (.ofPath store.draftPath) bytes fun store d act => store.Abandons d act) := by
  intro store d
  obtain ⟨same, sound⟩ := after_kept path acts
  refine ⟨fun _ => load_failed, rfl, fun _ _ _ _ => savesWhole sound, ?_, ?_, ?_⟩
  · intro refused
    have ends := loadOrCreate_eq store d refused
    rwa [same] at ends
  · intro bytes
    apply since_of_perform
    rintro store d act rfl sound there fresh
    exact stores_of_perform sound there fresh
  · intro bytes
    apply since_of_perform
    intro store' d act same' sound there fresh
    have draft : store.draftPath = store'.draftPath := by
      rw [draftPath, draftPath, same, same']
    rw [draft] at there fresh
    exact abandons_of_perform sound there fresh

/-- A save that cannot write leaves an empty draft and no file; the next one leaves the whole
document and no draft. -/
theorem unfinished_draft_is_cleared :
    let history := after "settings.toml" [.save { write := true }]
    history.2.found? "settings.toml" = none ∧
    history.2.found? "settings.toml.tmp" = some (.file []) ∧
    ∃ text d', Settings.document? {} = some text ∧
      save history.1 history.2 {} = (d', .ok ()) ∧
      d'.found? "settings.toml" = some (.file text.toUTF8.toList) ∧
      d'.found? "settings.toml.tmp" = none := by
  obtain ⟨text, written, -⟩ := @Settings.parse_document {} (by decide) ⟨by decide, by decide⟩
  have parent : Path.parent "settings.toml" = "" := by
    simp [Path.parent, Path.splitLast, Path.trimBack]
  have draft : draftPath ⟨"settings.toml", {}⟩ = "settings.toml.tmp" := by
    simp [draftPath, Path.withExtension, Path.splitLast, Path.trimBack, Path.staysPut, Path.above,
      Path.stem]
  have cut : save ⟨"settings.toml", {}⟩ .empty { write := true } =
      (Catalog.insert .empty "settings.toml.tmp" (.file []), .error .disk) := by
    rw [save, written]
    dsimp only
    rw [replace, parent, draft]
    rfl
  have reached : after "settings.toml" [.save { write := true }] =
      (⟨"settings.toml", {}⟩, Catalog.insert .empty "settings.toml.tmp" (.file [])) := by
    simp only [after, List.foldl, perform, cut]
  have whole : ∃ d', save ⟨"settings.toml", {}⟩
      (Catalog.insert .empty "settings.toml.tmp" (.file [])) {} = (d', .ok ()) := by
    rw [save, written]
    dsimp only
    rw [replace, parent, draft]
    generalize text.toUTF8.toList = bytes
    exact ⟨_, rfl⟩
  obtain ⟨-, -, first, -⟩ := settings_file_is_whole "settings.toml" []
  obtain ⟨-, -, second, -⟩ := settings_file_is_whole "settings.toml" [.save { write := true }]
  rw [reached] at second ⊢
  have kept := ((first {} { write := true } _ _ cut).failed .disk rfl).2 (.inr (by decide))
  obtain ⟨d', saved⟩ := whole
  obtain ⟨text', written', found, gone⟩ := (second {} {} _ _ saved).done rfl
  rw [draft] at gone
  exact ⟨kept, rfl, text', d', written', saved, found, gone⟩

/-- A save that fails can leave a directory where nothing was: the one that its path leads back out
of. -/
theorem failed_save_fills_absent_path :
    ¬∀ (path : String) (acts : List Act) (refused : Refusals) (d' : Disk) (problem : Problem),
      save (after path acts).1 (after path acts).2 refused = (d', .error problem) →
        d'.found? path = (after path acts).2.found? path := by
  intro every
  obtain ⟨text, written, -⟩ := @Settings.parse_document {} (by decide) ⟨by decide, by decide⟩
  have parent : Path.parent "a/../a" = "a/.." := by
    simp [Path.parent, Path.splitLast, Path.trimBack]
  have draft : draftPath ⟨"a/../a", {}⟩ = "a/../a.toml.tmp" := by
    simp [draftPath, Path.withExtension, Path.splitLast, Path.trimBack, Path.staysPut, Path.above,
      Path.stem]
  have saved : save ⟨"a/../a", {}⟩ .empty {} =
      ((Catalog.insert .empty "a" .directory).insert "a.toml.tmp" (.file text.toUTF8.toList),
        .error .disk) := by
    rw [save, written]
    dsimp only
    rw [replace, parent, draft]
    generalize text.toUTF8.toList = bytes
    rfl
  have kept := every "a/../a" [] {} _ _ saved
  generalize text.toUTF8.toList = bytes at kept
  have there : Disk.found? ((Catalog.insert .empty "a" .directory).insert "a.toml.tmp"
      (.file bytes)) "a/../a" = some .directory := rfl
  rw [there] at kept
  exact absurd kept (by decide)

end EngineConsole.SettingsStore
