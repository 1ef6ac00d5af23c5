import EngineConsole.Proofs.Toml.Lines
import EngineConsole.Settings.Document

/-!
# The settings document is read back

The document is six sections with comments, written one after the other. Read line by line it gives
the tables that were written, and these give the settings.
-/

set_option autoImplicit false

namespace EngineConsole.Settings

open Toml (Line Item Clean Reads)

/-! ## Lines of the document -/

def sectionLines (comment name : String) (entries : List Line) : List Line :=
  .comment (' ' :: comment.toList) :: .header name :: (entries ++ [.blank])

def textEntry (key value : String) : Line :=
  .entry key (.text value) (writeText value)

def countEntry (key : String) (n : Nat) : Line :=
  .entry key (.integer n) (writeCount n)

def documentLines (s : Settings) : List Line :=
  .comment " clientgen console settings".toList ::
  .comment " Command-line flags override values in this file.".toList :: .blank ::
  (sectionLines "Engine web server" "backend" [textEntry "base_url" s.baseUrl] ++
    sectionLines "Stats polling" "poller"
      [countEntry "interval_ms" s.interval, textEntry "overlap" s.overlap.name] ++
    sectionLines "Alert display" "alerts" [countEntry "ttl_ms" s.ttl] ++
    sectionLines "Packet chart" "chart" [countEntry "capacity" s.capacity] ++
    sectionLines "Config export" "export" [textEntry "directory" s.directory] ++
    sectionLines "Logging" "logging" [textEntry "level" s.level.name])

def documentEntries (s : Settings) : Toml.Entries := [
  ("backend", .table .header [("base_url", .text s.baseUrl)]),
  ("poller", .table .header
    [("interval_ms", .integer s.interval), ("overlap", .text s.overlap.name)]),
  ("alerts", .table .header [("ttl_ms", .integer s.ttl)]),
  ("chart", .table .header [("capacity", .integer s.capacity)]),
  ("export", .table .header [("directory", .text s.directory)]),
  ("logging", .table .header [("level", .text s.level.name)])]

variable {s : Settings}

theorem chars_sectionLines (comment name : String) (entries : List Line) :
    (sectionLines comment name entries).flatMap Line.chars =
      sectionText comment name (entries.map Line.chars) := by
  simp [sectionLines, sectionText, Line.chars, List.flatMap_def]

theorem document_eq (fits : s.fits = true) :
    s.document? = some (String.ofList (s.documentLines.flatMap Line.chars)) := by
  have top : preamble = Line.chars (.comment " clientgen console settings".toList) ++
      (Line.chars (.comment " Command-line flags override values in this file.".toList) ++
        Line.chars .blank) := by
    decide
  rw [document?, if_pos fits]
  simp only [documentLines, List.flatMap_cons, List.flatMap_append, chars_sectionLines, top,
    List.append_assoc]
  rfl

/-- Lines of the document are read into its tables. -/
theorem foldlM_documentLines (s : Settings) :
    s.documentLines.foldlM Line.apply {} = some ⟨s.documentEntries, ["logging"]⟩ := by
  rfl

/-- The texts of settings can stand between quotes: they have no control character but tabs, and no
single quote. -/
structure Quotable (s : Settings) : Prop where
  baseUrl : Clean s.baseUrl.toList
  directory : Clean s.directory.toList

theorem clean_overlap (o : Overlap) : Clean o.name.toList := by
  cases o <;> decide

theorem clean_level (l : LogLevel) : Clean l.name.toList := by
  cases l <;> decide

theorem sound_textEntry {key value : String} (bare : Toml.Bare key) (clean : Clean value.toList) :
    (textEntry key value).Sound := by
  have reads := Toml.reads_writeString clean
  rw [String.ofList_toList] at reads
  exact ⟨bare, reads⟩

theorem sound_countEntry {key : String} {n : Nat} (bare : Toml.Bare key) (fits : n ≤ writtenBound) :
    (countEntry key n).Sound := by
  refine ⟨bare, Toml.reads_digits (Nat.lt_of_le_of_lt fits ?_)⟩
  decide

theorem sound_comment {text : List Char} (plain : text.all Toml.isPlain = true) :
    (Line.comment text).Sound :=
  List.all_eq_true.mp plain

theorem sound_sectionLines {comment name : String} {entries : List Line}
    (plain : comment.toList.all Toml.isPlain = true) (bare : Toml.Bare name)
    (sound : ∀ l ∈ entries, l.Sound) : ∀ l ∈ sectionLines comment name entries, l.Sound := by
  intro l member
  rcases List.mem_cons.mp member with rfl | member
  · exact List.forall_mem_cons.mpr ⟨by decide, List.all_eq_true.mp plain⟩
  rcases List.mem_cons.mp member with rfl | member
  · exact bare
  rcases List.mem_append.mp member with inside | last
  · exact sound l inside
  · obtain rfl := List.mem_singleton.mp last
    trivial

theorem sound_documentLines (fits : s.fits = true) (quotable : s.Quotable) :
    ∀ l ∈ s.documentLines, l.Sound := by
  simp only [Settings.fits, Bool.and_eq_true, decide_eq_true_eq] at fits
  obtain ⟨⟨interval, ttl⟩, capacity⟩ := fits
  have single {l : Line} (sound : l.Sound) : ∀ l' ∈ [l], l'.Sound := by
    simpa using sound
  have poller : ∀ l ∈ [countEntry "interval_ms" s.interval, textEntry "overlap" s.overlap.name],
      l.Sound :=
    List.forall_mem_cons.mpr ⟨sound_countEntry (by decide) interval,
      single (sound_textEntry (by decide) (clean_overlap _))⟩
  simp only [documentLines, List.forall_mem_cons, List.forall_mem_append]
  refine ⟨sound_comment (by decide), sound_comment (by decide), trivial,
    ⟨⟨⟨⟨?backend, ?poller⟩, ?alerts⟩, ?chart⟩, ?exports⟩, ?logging⟩
  case backend =>
    exact sound_sectionLines (by decide) (by decide)
      (single (sound_textEntry (by decide) quotable.baseUrl))
  case poller => exact sound_sectionLines (by decide) (by decide) poller
  case alerts =>
    exact sound_sectionLines (by decide) (by decide) (single (sound_countEntry (by decide) ttl))
  case chart =>
    exact sound_sectionLines (by decide) (by decide)
      (single (sound_countEntry (by decide) capacity))
  case exports =>
    exact sound_sectionLines (by decide) (by decide)
      (single (sound_textEntry (by decide) quotable.directory))
  case logging =>
    exact sound_sectionLines (by decide) (by decide)
      (single (sound_textEntry (by decide) (clean_level _)))

theorem count_integer {n : Nat} (fits : n ≤ writtenBound) : count? (.integer n) = some n :=
  if_pos (fits.trans (by decide))

theorem ofName?_overlap (o : Overlap) : Overlap.ofName? o.name = some o := by
  cases o <;> decide

theorem ofName?_level (l : LogLevel) : LogLevel.ofName? l.name = some l := by
  cases l <;> decide

theorem poller_documentEntries (fits : s.interval ≤ writtenBound) :
    poller? (.named [("interval_ms", .integer s.interval), ("overlap", .text s.overlap.name)]) =
      some (s.interval, s.overlap) := by
  have interval : count? (.integer s.interval) = some s.interval := count_integer fits
  have overlap : (choice? (.text s.overlap.name)).bind Overlap.ofName? = some s.overlap :=
    ofName?_overlap s.overlap
  simp [poller?, Section.read, Section.field?, Toml.item?, interval, overlap]

theorem ofEntries_documentEntries (fits : s.fits = true) :
    ofEntries s.documentEntries = some s := by
  simp only [Settings.fits, Bool.and_eq_true, decide_eq_true_eq] at fits
  obtain ⟨⟨interval, ttl⟩, capacity⟩ := fits
  have known : s.documentEntries.all canIgnore = true := by rfl
  have backend : part s.documentEntries "backend" ({} : Settings).baseUrl backend? =
      some s.baseUrl := by rfl
  have poller : part s.documentEntries "poller"
      (({} : Settings).interval, ({} : Settings).overlap) poller? = some (s.interval, s.overlap) :=
    poller_documentEntries interval
  have alerts : part s.documentEntries "alerts" ({} : Settings).ttl alerts? = some s.ttl :=
    count_integer ttl
  have chart : part s.documentEntries "chart" ({} : Settings).capacity chart? =
      some s.capacity := count_integer capacity
  have exports : part s.documentEntries "export" ({} : Settings).directory exports? =
      some s.directory := by rfl
  have logging : part s.documentEntries "logging" ({} : Settings).level logging? =
      some s.level := ofName?_level s.level
  simp [ofEntries, known, backend, poller, alerts, chart, exports, logging]

/-- Settings that are written are read back. -/
theorem parse_document (fits : s.fits = true) (quotable : s.Quotable) :
    ∃ text, s.document? = some text ∧ parse text = some s := by
  refine ⟨_, document_eq fits, ?_⟩
  rw [parse, Toml.parse_chars (sound_documentLines fits quotable), foldlM_documentLines]
  exact ofEntries_documentEntries fits

end EngineConsole.Settings
