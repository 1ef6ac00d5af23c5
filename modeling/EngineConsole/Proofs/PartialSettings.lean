import EngineConsole.Proofs.SettingsFile
import EngineConsole.Proofs.Toml.Sections
import Mathlib.Data.Finset.Insert

/-!
# Settings from part of a document

A document need not have all settings: those that it leaves out have their standard values when it
is read, whether their section is there or not, and whatever else the document says. The standard
values of settings are those of no document at all.
-/

set_option autoImplicit false

namespace EngineConsole

open Toml (Item Written)

/-! ## Settings one by one -/

inductive Setting where
  | baseUrl
  | interval
  | overlap
  | ttl
  | capacity
  | directory
  | level
  deriving DecidableEq

namespace Setting

/-- The name of the section that a setting is in. -/
def table : Setting → String
  | .baseUrl => "backend"
  | .interval => "poller"
  | .overlap => "poller"
  | .ttl => "alerts"
  | .capacity => "chart"
  | .directory => "export"
  | .level => "logging"

def key : Setting → String
  | .baseUrl => "base_url"
  | .interval => "interval_ms"
  | .overlap => "overlap"
  | .ttl => "ttl_ms"
  | .capacity => "capacity"
  | .directory => "directory"
  | .level => "level"

/-- What a document has for a setting. -/
def item (s : Settings) : Setting → Item
  | .baseUrl => .text s.baseUrl
  | .interval => .integer s.interval
  | .overlap => .text s.overlap.name
  | .ttl => .integer s.ttl
  | .capacity => .integer s.capacity
  | .directory => .text s.directory
  | .level => .text s.level.name

def text (s : Settings) : Setting → List Char
  | .baseUrl => Settings.writeText s.baseUrl
  | .interval => Settings.writeCount s.interval
  | .overlap => Settings.writeText s.overlap.name
  | .ttl => Settings.writeCount s.ttl
  | .capacity => Settings.writeCount s.capacity
  | .directory => Settings.writeText s.directory
  | .level => Settings.writeText s.level.name

def written (s : Settings) (f : Setting) : Written := ⟨f.key, f.item s, f.text s⟩

/-- The item that the tree of a document has for a setting. -/
def find? (f : Setting) (root : Toml.Entries) : Option Item :=
  match Toml.item? f.table root with
  | some (.table _ inner) => Toml.item? f.key inner
  | _ => none

def all : List Setting :=
  [.baseUrl, .interval, .overlap, .ttl, .capacity, .directory, .level]

theorem mem_all (f : Setting) : f ∈ all := by
  cases f <;> decide

theorem key_injective {f g : Setting} (same : f.key = g.key) : f = g := by
  cases f <;> cases g <;> first | rfl | exact absurd same (by decide)

end Setting

namespace Settings

/-- Settings with the standard values for all that is not chosen. -/
def only (s : Settings) (chosen : Finset Setting) : Settings where
  baseUrl := if .baseUrl ∈ chosen then s.baseUrl else ({} : Settings).baseUrl
  interval := if .interval ∈ chosen then s.interval else ({} : Settings).interval
  overlap := if .overlap ∈ chosen then s.overlap else ({} : Settings).overlap
  ttl := if .ttl ∈ chosen then s.ttl else ({} : Settings).ttl
  capacity := if .capacity ∈ chosen then s.capacity else ({} : Settings).capacity
  directory := if .directory ∈ chosen then s.directory else ({} : Settings).directory
  level := if .level ∈ chosen then s.level else ({} : Settings).level

/-! ## Trees that hold part of the settings -/

/-- The tree of a document has the chosen settings and no others. Whatever it has besides, in their
sections and elsewhere, has no number that is too large. -/
structure Holds (s : Settings) (chosen : Finset Setting) (root : Toml.Entries) : Prop where
  tables : ∀ (f : Setting) (item : Item), Toml.item? f.table root = some item →
    ∃ origin inner, item = .table origin inner
  settings : ∀ f : Setting, f.find? root = if f ∈ chosen then some (f.item s) else none
  foreign : ∀ e ∈ root, (∀ f : Setting, f.table ≠ e.1) → e.2.fits = true
  unknown : ∀ (f : Setting) (origin : Toml.Origin) (inner : Toml.Entries),
    (f.table, Item.table origin inner) ∈ root →
      ∀ e ∈ inner, (∀ g : Setting, g.table = f.table → g.key ≠ e.1) → e.2.fits = true

section

variable {s : Settings} {chosen : Finset Setting} {root : Toml.Entries}

theorem lookup_table {f g : Setting} (same : g.table = f.table) :
    ∃ fields, layout.lookup f.table = some fields ∧ g.key ∈ fields := by
  rw [← same]
  cases g <;> exact ⟨_, rfl, by decide⟩

theorem exists_table_eq {name : String} {fields : List String}
    (found : layout.lookup name = some fields) : ∃ f : Setting, f.table = name := by
  rw [Catalog.lookup_eq_some_iff_mem (by decide)] at found
  simp only [layout, List.mem_cons, Prod.mk.injEq, List.not_mem_nil, or_false] at found
  rcases found with ⟨rfl, -⟩ | ⟨rfl, -⟩ | ⟨rfl, -⟩ | ⟨rfl, -⟩ | ⟨rfl, -⟩ | ⟨rfl, -⟩
  · exact ⟨.baseUrl, rfl⟩
  · exact ⟨.interval, rfl⟩
  · exact ⟨.ttl, rfl⟩
  · exact ⟨.capacity, rfl⟩
  · exact ⟨.directory, rfl⟩
  · exact ⟨.level, rfl⟩

theorem Holds.canIgnore (holds : s.Holds chosen root) : root.all canIgnore = true := by
  refine List.all_eq_true.mpr fun e member => ?_
  obtain ⟨name, item⟩ := e
  cases found : layout.lookup name with
  | none =>
      have foreign : ∀ f : Setting, f.table ≠ name := by
        rintro f rfl
        obtain ⟨fields, known, -⟩ := @lookup_table f f rfl
        rw [known] at found
        cases found
      simpa [Settings.canIgnore, found] using holds.foreign _ member foreign
  | some fields =>
      obtain ⟨f, rfl⟩ := exists_table_eq found
      cases item with
      | table origin inner =>
          simp only [Settings.canIgnore, found, List.all_eq_true, Bool.or_eq_true,
            List.contains_iff_mem]
          intro e inside
          by_cases known : ∃ g : Setting, g.table = f.table ∧ g.key = e.1
          · obtain ⟨g, same, key⟩ := known
            obtain ⟨fields', found', there⟩ := lookup_table same
            rw [found] at found'
            cases found'
            exact .inl (key ▸ there)
          · have unknown : ∀ g : Setting, g.table = f.table → g.key ≠ e.1 :=
              fun g same key => known ⟨g, same, key⟩
            exact .inr (holds.unknown f origin inner member e inside unknown)
      | _ => simp [Settings.canIgnore, found]

theorem read_eq {α : Type} {entries : Toml.Entries} {f : Setting} {value : α}
    (of? : Item → Option α) (position : Nat) (standard : α)
    (found : Toml.item? f.key entries = if f ∈ chosen then some (f.item s) else none)
    (reads : of? (f.item s) = some value) :
    (Section.named entries).read f.key position of? standard =
      some (if f ∈ chosen then value else standard) := by
  rw [Section.read, Section.field?, found]
  by_cases there : f ∈ chosen
  · rw [if_pos there, if_pos there]
    exact reads
  · rw [if_neg there, if_neg there]

/-- The standard values of a section are those of its settings: it makes no difference whether a
section is left out or has nothing in it. -/
theorem standard_sections :
    let standard : Settings := {}
    backend? (.named []) = some standard.baseUrl ∧
      poller? (.named []) = some (standard.interval, standard.overlap) ∧
      alerts? (.named []) = some standard.ttl ∧ chart? (.named []) = some standard.capacity ∧
      exports? (.named []) = some standard.directory ∧
      logging? (.named []) = some standard.level :=
  ⟨rfl, rfl, rfl, rfl, rfl, rfl⟩

/-- A section has what the tree has for its settings, also if it is not there. -/
theorem Holds.part_eq (holds : s.Holds chosen root) (f : Setting) {α : Type} {standard value : α}
    {of? : Section → Option α} (agrees : of? (.named []) = some standard)
    (reads : ∀ entries, (∀ g : Setting, g.table = f.table → Toml.item? g.key entries =
      if g ∈ chosen then some (g.item s) else none) → of? (.named entries) = some value) :
    part root f.table standard of? = some value := by
  unfold part
  cases found : Toml.item? f.table root with
  | none =>
      refine agrees.symm.trans (reads [] fun g same => ?_)
      rw [← holds.settings g, Setting.find?, same, found]
      rfl
  | some item =>
      obtain ⟨origin, inner, rfl⟩ := holds.tables f item found
      refine reads inner fun g same => ?_
      rw [← holds.settings g, Setting.find?, same, found]

theorem poller_of_has {entries : Toml.Entries} (fits : s.interval ≤ writtenBound)
    (has : ∀ g : Setting, g.table = Setting.interval.table → Toml.item? g.key entries =
      if g ∈ chosen then some (g.item s) else none) :
    poller? (.named entries) = some ((s.only chosen).interval, (s.only chosen).overlap) := by
  have interval := read_eq count? 0 standardInterval (has .interval rfl) (count_integer fits)
  have overlap := read_eq (fun i => (choice? i).bind Overlap.ofName?) 1 standardOverlap
    (has .overlap rfl) (ofName?_overlap s.overlap)
  simp only [Setting.key] at interval overlap
  rw [poller?, interval, overlap]
  rfl

theorem ofEntries_of_holds (fits : s.fits = true) (holds : s.Holds chosen root) :
    ofEntries root = some (s.only chosen) := by
  simp only [Settings.fits, Bool.and_eq_true, decide_eq_true_eq] at fits
  obtain ⟨⟨interval, ttl⟩, capacity⟩ := fits
  obtain ⟨backend', poller', alerts', chart', exports', logging'⟩ := standard_sections
  have backend := holds.part_eq .baseUrl backend' fun _ has =>
    read_eq text? 0 standardBaseUrl (has .baseUrl rfl) rfl
  have poller := holds.part_eq .interval poller' fun _ has => poller_of_has interval has
  have alerts := holds.part_eq .ttl alerts' fun _ has =>
    read_eq count? 0 AlertBoard.standardTtl (has .ttl rfl) (count_integer ttl)
  have chart := holds.part_eq .capacity chart' fun _ has =>
    read_eq count? 0 Chart.standardCapacity (has .capacity rfl) (count_integer capacity)
  have exports := holds.part_eq .directory exports' fun _ has =>
    read_eq text? 0 standardDirectory (has .directory rfl) rfl
  have logging := holds.part_eq .level logging' fun _ has =>
    read_eq (fun i => (choice? i).bind LogLevel.ofName?) 0 .standard (has .level rfl)
      (ofName?_level s.level)
  simp only [Setting.table] at backend poller alerts chart exports logging
  simp only [ofEntries, holds.canIgnore, backend, poller, alerts, chart, exports, logging]
  rfl

end

/-! ## Documents with part of the settings -/

/-- A line of a section: a setting, or a key that is none of the section's settings. -/
inductive Given where
  | setting (f : Setting)
  | other (w : Written)

def Given.written (s : Settings) : Given → Written
  | .setting f => f.written s
  | .other w => w

def Given.key : Given → String
  | .setting f => f.key
  | .other w => w.key

/-- A document in sections: what it has before any section, and its sections in their order. -/
structure Excerpt where
  top : List Written
  sections : List (String × List Given)

namespace Excerpt

def outline (s : Settings) (x : Excerpt) : Toml.Outline where
  top := x.top
  sections := x.sections.map fun part => (part.1, part.2.map (Given.written s))

def text (s : Settings) (x : Excerpt) : String :=
  (x.outline s).text

/-- A document has the chosen settings in their sections and no others. Its other keys and sections
are unknown ones with values that can be read and have no number that is too large. Nothing is there
twice. -/
structure Has (x : Excerpt) (chosen : Finset Setting) : Prop where
  chosen : ∀ f : Setting, f ∈ chosen ↔ ∃ part ∈ x.sections, .setting f ∈ part.2
  placed : ∀ part ∈ x.sections, ∀ f : Setting, .setting f ∈ part.2 → f.table = part.1
  top : ∀ w ∈ x.top, w.Sound ∧ w.item.fits = true ∧ ∀ f : Setting, f.table ≠ w.key
  others : ∀ part ∈ x.sections, ∀ w : Written, .other w ∈ part.2 →
    w.Sound ∧ w.item.fits = true ∧ ∀ f : Setting, f.table = part.1 → f.key ≠ w.key
  names : ∀ part ∈ x.sections, Toml.Bare part.1
  distinct : (x.top.map Written.key ++ x.sections.map Prod.fst).Nodup
  distinctIn : ∀ part ∈ x.sections, (part.2.map Given.key).Nodup

section

variable {s : Settings} {chosen : Finset Setting} {x : Excerpt}

theorem sound_written (fits : s.fits = true) (quotable : s.Quotable) (f : Setting) :
    (f.written s).Sound := by
  simp only [Settings.fits, Bool.and_eq_true, decide_eq_true_eq] at fits
  obtain ⟨⟨interval, ttl⟩, capacity⟩ := fits
  have bare : Toml.Bare f.key := by cases f <;> decide
  cases f with
  | baseUrl => exact sound_textEntry bare quotable.baseUrl
  | interval => exact sound_countEntry bare interval
  | overlap => exact sound_textEntry bare (clean_overlap _)
  | ttl => exact sound_countEntry bare ttl
  | capacity => exact sound_countEntry bare capacity
  | directory => exact sound_textEntry bare quotable.directory
  | level => exact sound_textEntry bare (clean_level _)

theorem key_written (s : Settings) (given : Given) : (given.written s).key = given.key := by
  cases given <;> rfl

theorem names_outline (s : Settings) (x : Excerpt) :
    (x.outline s).sections.map Prod.fst = x.sections.map Prod.fst := by
  rw [outline, List.map_map]
  rfl

theorem keys_written (s : Settings) (given : List Given) :
    (given.map (Given.written s)).map Written.key = given.map Given.key := by
  rw [List.map_map]
  exact List.map_congr_left fun g _ => key_written s g

theorem Has.sound (has : x.Has chosen) (fits : s.fits = true) (quotable : s.Quotable) :
    (x.outline s).Sound where
  top w member := (has.top w member).1
  names part member := by
    obtain ⟨part, there, rfl⟩ := List.mem_map.mp member
    exact has.names part there
  entries part member w inside := by
    obtain ⟨part, there, rfl⟩ := List.mem_map.mp member
    obtain ⟨given, listed, rfl⟩ := List.mem_map.mp inside
    cases given with
    | setting f => exact sound_written fits quotable f
    | other w => exact (has.others part there w listed).1
  distinct := by
    rw [names_outline]
    exact has.distinct
  distinctIn part member := by
    obtain ⟨part, there, rfl⟩ := List.mem_map.mp member
    rw [keys_written]
    exact has.distinctIn part there

/-- The table that the lines of a section make. -/
def entries (s : Settings) (given : List Given) : Toml.Entries :=
  given.map fun g => (g.written s).entry

theorem keys_entries (s : Settings) (given : List Given) :
    (entries s given).map Prod.fst = given.map Given.key := by
  rw [entries, List.map_map]
  exact List.map_congr_left fun g _ => key_written s g

theorem keys_tree (s : Settings) (x : Excerpt) :
    (x.outline s).tree.map Prod.fst = x.top.map Written.key ++ x.sections.map Prod.fst := by
  simp only [Toml.Outline.tree, outline, List.map_append, List.map_map]
  rfl

theorem mem_tree {name : String} {item : Item} :
    (name, item) ∈ (x.outline s).tree ↔ (∃ w ∈ x.top, w.key = name ∧ w.item = item) ∨
      ∃ part ∈ x.sections, part.1 = name ∧ .table .header (entries s part.2) = item := by
  simp [Toml.Outline.tree, Toml.Outline.sectionEntry, outline, Written.entry, entries,
    Function.comp_def]

theorem Has.table_eq (has : x.Has chosen) {f : Setting} {item : Item} :
    Toml.item? f.table (x.outline s).tree = some item ↔
      ∃ part ∈ x.sections, part.1 = f.table ∧ .table .header (entries s part.2) = item := by
  rw [Toml.item?_eq_some_iff (by rw [keys_tree]; exact has.distinct), mem_tree]
  constructor
  · rintro (⟨w, above, same, -⟩ | inSection)
    · exact absurd same.symm ((has.top w above).2.2 f)
    · exact inSection
  · exact .inr

/-- A section has a setting if and only if it is chosen. -/
theorem Has.item_eq (has : x.Has chosen) {f : Setting} {part : String × List Given}
    (there : part ∈ x.sections) (same : part.1 = f.table) :
    Toml.item? f.key (entries s part.2) = if f ∈ chosen then some (f.item s) else none := by
  have distinct : ((entries s part.2).map Prod.fst).Nodup := by
    rw [keys_entries]
    exact has.distinctIn part there
  split
  next picked =>
    obtain ⟨part', there', given⟩ := (has.chosen f).mp picked
    obtain rfl : part' = part := by
      have names := (List.nodup_append.mp has.distinct).2.1
      exact List.inj_on_of_nodup_map names there' there
        ((has.placed part' there' f given).symm.trans same.symm)
    rw [Toml.item?_eq_some_iff distinct]
    exact List.mem_map.mpr ⟨.setting f, given, rfl⟩
  next left =>
    rw [Toml.item?_eq_none_iff, keys_entries]
    intro member
    obtain ⟨given, listed, key⟩ := List.mem_map.mp member
    cases given with
    | setting g =>
        obtain rfl := Setting.key_injective key
        exact left ((has.chosen g).mpr ⟨part, there, listed⟩)
    | other w => exact (has.others part there w listed).2.2 f same.symm key.symm

theorem Has.holds (has : x.Has chosen) : s.Holds chosen (x.outline s).tree where
  tables f item found := by
    obtain ⟨part, -, -, rfl⟩ := has.table_eq.mp found
    exact ⟨_, _, rfl⟩
  settings f := by
    unfold Setting.find?
    cases found : Toml.item? f.table (x.outline s).tree with
    | some item =>
        obtain ⟨part, there, same, rfl⟩ := has.table_eq.mp found
        exact has.item_eq there same
    | none =>
        have left : f ∉ chosen := by
          intro picked
          obtain ⟨part, there, given⟩ := (has.chosen f).mp picked
          have found' := has.table_eq (s := s).mpr
            ⟨part, there, (has.placed part there f given).symm, rfl⟩
          rw [found] at found'
          cases found'
        rw [if_neg left]
  foreign e member foreign := by
    rcases mem_tree.mp member with ⟨w, above, -, same⟩ | ⟨part, there, name, same⟩
    · exact same ▸ (has.top w above).2.1
    · rw [← same, Item.fits, Toml.entriesFit_iff]
      intro e inside
      obtain ⟨given, listed, rfl⟩ := List.mem_map.mp inside
      cases given with
      | setting g => exact absurd ((has.placed part there g listed).trans name) (foreign g)
      | other w => exact (has.others part there w listed).2.1
  unknown f origin inner member e inside unknown := by
    rcases mem_tree.mp member with ⟨w, above, same, -⟩ | ⟨part, there, same, table⟩
    · exact absurd same.symm ((has.top w above).2.2 f)
    · cases table
      obtain ⟨given, listed, rfl⟩ := List.mem_map.mp inside
      cases given with
      | setting g =>
          exact absurd rfl (unknown g ((has.placed part there g listed).trans same))
      | other w => exact (has.others part there w listed).2.1

/-- The document with the chosen settings and nothing besides, its sections in an order. -/
def inOrder (order : List String) (chosen : Finset Setting) : Excerpt where
  top := []
  sections := order.map fun name =>
    (name, (Setting.all.filter fun f => f.table = name ∧ f ∈ chosen).map .setting)

/-- Each choice of settings has its documents, in every order of its sections and of any others. -/
theorem has_inOrder {order : List String} (distinct : order.Nodup)
    (bare : ∀ name ∈ order, Toml.Bare name) (whole : ∀ f ∈ chosen, f.table ∈ order) :
    (inOrder order chosen).Has chosen := by
  have settings {part : String × List Given} (there : part ∈ (inOrder order chosen).sections)
      {given : Given} (listed : given ∈ part.2) :
      ∃ f : Setting, .setting f = given ∧ f.table = part.1 ∧ f ∈ chosen := by
    obtain ⟨name, -, rfl⟩ := List.mem_map.mp there
    obtain ⟨f, picked, rfl⟩ := List.mem_map.mp listed
    obtain ⟨same, picked⟩ := of_decide_eq_true (List.mem_filter.mp picked).2
    exact ⟨f, rfl, same, picked⟩
  refine ⟨?chosen, ?placed, ?top, ?others, ?names, ?distinct, ?distinctIn⟩
  case chosen =>
    intro f
    constructor
    · intro picked
      refine ⟨_, List.mem_map_of_mem (whole f picked), List.mem_map_of_mem ?_⟩
      exact List.mem_filter.mpr ⟨f.mem_all, decide_eq_true ⟨rfl, picked⟩⟩
    · rintro ⟨part, there, listed⟩
      obtain ⟨f, ⟨⟩, -, picked⟩ := settings there listed
      exact picked
  case placed =>
    intro part there f listed
    obtain ⟨f, ⟨⟩, same, -⟩ := settings there listed
    exact same
  case top =>
    intro w above
    cases above
  case others =>
    intro part there w listed
    obtain ⟨f, ⟨⟩, -⟩ := settings there listed
  case names =>
    intro part there
    obtain ⟨name, listed, rfl⟩ := List.mem_map.mp there
    exact bare name listed
  case distinct => simpa [inOrder, Function.comp_def] using distinct
  case distinctIn =>
    intro part there
    obtain ⟨name, -, rfl⟩ := List.mem_map.mp there
    rw [List.map_map]
    have all : Setting.all.Nodup := by decide
    exact (all.filter _).map fun f g same => Setting.key_injective same

end

end Excerpt

end Settings

namespace SettingsStore

open Settings (Excerpt)

/-- Whoever loads a file with a text has these settings, whatever the settings were before. -/
def Loads (text : String) (s : Settings) : Prop :=
  ∀ (path : String) (before : Settings) (d : Disk),
    d.found? path = some (.file text.toUTF8.toList) →
      SettingsStore.load ⟨path, before⟩ d = (⟨path, s⟩, .ok ())

/-- A document that has part of the settings is loaded as these and the standard values of all
others, in whatever order and however its sections are written, whether those without a setting are
there or not, and whatever else is in it that the reader takes. Every document in sections with the
settings as they are saved is one that is read, and each choice of settings has its documents in
every order of sections. -/
theorem partial_settings_are_filled_in (s : Settings) (chosen : Finset Setting)
    (fits : s.interval ≤ 2 ^ 63 - 1 ∧ s.ttl ≤ 2 ^ 63 - 1 ∧ s.capacity ≤ 2 ^ 63 - 1) :
    (∀ text root, Toml.parse text = some root → s.Holds chosen root →
      Loads text (s.only chosen)) ∧
    (s.Quotable → ∀ x : Excerpt, x.Has chosen → Loads (x.text s) (s.only chosen)) ∧
    (s.Quotable → ∀ order : List String, order.Nodup → (∀ name ∈ order, Toml.Bare name) →
      (∀ f ∈ chosen, f.table ∈ order) →
        Loads ((Excerpt.inOrder order chosen).text s) (s.only chosen)) := by
  rw [← fits_iff] at fits
  have loads : ∀ text root, Toml.parse text = some root → s.Holds chosen root →
      Loads text (s.only chosen) := by
    intro text root read holds path before d found
    have parsed : Settings.parse text = some (s.only chosen) := by
      rw [Settings.parse, read]
      exact Settings.ofEntries_of_holds fits holds
    exact load_document found parsed
  have written : s.Quotable → ∀ x : Excerpt, x.Has chosen →
      Loads (x.text s) (s.only chosen) :=
    fun quotable x has =>
      loads _ _ (Toml.Outline.parse_text (has.sound fits quotable)) has.holds
  exact ⟨loads, written, fun quotable order distinct bare whole =>
    written quotable _ (Excerpt.has_inOrder distinct bare whole)⟩

/-- Two settings, once in sections with unknown keys, an unknown section and an empty one, once
under dotted keys, and once with nothing besides but an empty section. -/
theorem two_settings_are_filled_in :
    let s : Settings := { interval := 250, level := .debug, directory := "elsewhere" }
    let chosen : Finset Setting := {.interval, .level}
    let loaded : Settings := { interval := 250, level := .debug }
    let note : Written := ⟨"note", .text "slow", Settings.writeText "slow"⟩
    let x : Excerpt :=
      { top := [note]
        sections := [("logging", [.setting .level]), ("chart", []), ("extra", [.other note]),
          ("poller", [.other note, .setting .interval])] }
    let dotted : String := "x = [1]\npoller.interval_ms = 250\nlogging.level = 'debug'\n"
    let root : Toml.Entries := [("x", .list [.integer 1]),
      ("poller", .table .dotted [("interval_ms", .integer 250)]),
      ("logging", .table .dotted [("level", .text "debug")])]
    let order : List String := ["logging", "chart", "poller"]
    (s.interval ≤ 2 ^ 63 - 1 ∧ s.ttl ≤ 2 ^ 63 - 1 ∧ s.capacity ≤ 2 ^ 63 - 1) ∧
    (s.Quotable ∧ x.Has chosen ∧
      x.text s = "note = \"slow\"\n[logging]\nlevel = \"debug\"\n[chart]\n" ++
        "[extra]\nnote = \"slow\"\n[poller]\nnote = \"slow\"\ninterval_ms = 250\n" ∧
      Loads (x.text s) loaded) ∧
    (Toml.parse dotted = some root ∧ s.Holds chosen root ∧ Loads dotted loaded) ∧
    (order.Nodup ∧ (∀ name ∈ order, Toml.Bare name) ∧ (∀ f ∈ chosen, f.table ∈ order) ∧
      (Excerpt.inOrder order chosen).text s =
        "[logging]\nlevel = \"debug\"\n[chart]\n[poller]\ninterval_ms = 250\n" ∧
      Loads ((Excerpt.inOrder order chosen).text s) loaded) := by
  have read : Toml.parse "x = [1]\npoller.interval_ms = 250\nlogging.level = 'debug'\n" =
      some [("x", .list [.integer 1]),
        ("poller", .table .dotted [("interval_ms", .integer 250)]),
        ("logging", .table .dotted [("level", .text "debug")])] := by
    rfl
  intro s chosen loaded note x dotted root order
  have quotable : s.Quotable := ⟨by decide, by decide⟩
  have sound : note.Sound := @Settings.sound_textEntry "note" "slow" (by decide) (by decide)
  have has : x.Has chosen := by
    refine ⟨?chosen, ?placed, ?top, ?others, by decide, by decide, by decide⟩
    case chosen =>
      intro f
      cases f <;> simp [chosen, x]
    case placed => simp [x, Setting.table]
    case top =>
      intro w member
      obtain rfl := List.mem_singleton.mp member
      exact ⟨sound, rfl, fun f => by cases f <;> decide⟩
    case others =>
      intro part member w given
      obtain rfl : w = note := by
        simp only [x, List.mem_cons, List.not_mem_nil, or_false] at member
        rcases member with rfl | rfl | rfl | rfl
        · simp at given
        · simp at given
        · simpa using given
        · simpa using given
      exact ⟨sound, rfl, fun f _ => by cases f <;> decide⟩
  have holds : s.Holds chosen root := by
    refine ⟨?tables, ?settings, ?foreign, ?unknown⟩
    case tables =>
      intro f item found
      cases f <;> simp [root, Toml.item?, Setting.table] at found <;> exact ⟨_, _, found.symm⟩
    case settings =>
      intro f
      cases f <;> rfl
    case foreign =>
      intro e member foreign
      simp only [root, List.mem_cons, List.not_mem_nil, or_false] at member
      rcases member with rfl | rfl | rfl
      · rfl
      · exact absurd rfl (foreign .interval)
      · exact absurd rfl (foreign .level)
    case unknown =>
      intro f origin inner member e inside unknown
      simp only [root, List.mem_cons, List.not_mem_nil, or_false, Prod.mk.injEq] at member
      rcases member with ⟨-, ⟨⟩⟩ | ⟨same, ⟨⟩⟩ | ⟨same, ⟨⟩⟩
      · obtain rfl := List.mem_singleton.mp inside
        exact absurd rfl (unknown .interval same.symm)
      · obtain rfl := List.mem_singleton.mp inside
        exact absurd rfl (unknown .level same.symm)
  have only : s.only chosen = loaded := by decide
  have whole : ∀ f ∈ chosen, f.table ∈ order := by decide
  obtain ⟨loads, written, ordered⟩ := partial_settings_are_filled_in s chosen (by decide)
  refine ⟨by decide, ⟨quotable, has, by decide, ?_⟩, ⟨read, holds, ?_⟩, by decide, by decide, whole,
    by decide, ?_⟩
  · exact only ▸ written quotable x has
  · exact only ▸ loads _ _ read holds
  · exact only ▸ ordered quotable order (by decide) (by decide) whole

/-- What the reader takes has its limits, also where nobody looks at it: lists may stand in each
other 80 deep, and integers must fit into 128 bits. One step beyond, the whole document is
refused. -/
theorem unknown_values_beyond_limits_are_refused :
    let disk (unknown : String) : Disk := Catalog.insert .empty "settings.toml"
      (.file ("x = " ++ unknown ++ "\n[chart]\ncapacity = 4\n").toUTF8.toList)
    let nested (n : Nat) : String :=
      String.ofList (List.replicate n '[' ++ '1' :: List.replicate n ']')
    let store : SettingsStore := { path := "settings.toml" }
    let loaded : SettingsStore := { path := "settings.toml", settings := { capacity := 4 } }
    (store.load (disk (nested 80)) = (loaded, .ok ()) ∧
      store.load (disk (nested 81)) = (store, .error .malformed)) ∧
    (store.load (disk "-170141183460469231731687303715884105728") = (loaded, .ok ()) ∧
      store.load (disk "-170141183460469231731687303715884105729") =
        (store, .error .malformed)) := by
  have found (text : String) :
      Disk.found? (Catalog.insert .empty "settings.toml" (.file text.toUTF8.toList))
        "settings.toml" = some (.file text.toUTF8.toList) := by
    generalize text.toUTF8.toList = bytes
    rfl
  refine ⟨⟨load_document (found _) ?_, load_malformed (found _) ?_⟩,
    load_document (found _) ?_, load_malformed (found _) ?_⟩
  all_goals decide +kernel

end SettingsStore

end EngineConsole
