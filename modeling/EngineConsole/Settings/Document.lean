import EngineConsole.Settings.Basic
import EngineConsole.Toml.Reader
import EngineConsole.Toml.Writer

/-!
# The settings document

Settings are written as a TOML document with a commented section for each concern. When one is read,
a section that it leaves out has the standard values of that section, a setting that a section
leaves out has its own, and whatever the document holds besides is passed over, as long as its
numbers are not too large.
-/

set_option autoImplicit false

namespace EngineConsole.Settings

open Toml (Item)

/-! ## Reading -/

def countBound : Nat := 0xFFFFFFFFFFFFFFFF

def writtenBound : Nat := 0x7FFFFFFFFFFFFFFF

def text? : Item → Option String
  | .text s => some s
  | _ => none

/-- The count in an item: an integer in range that is not negative. -/
def count? : Item → Option Nat
  | .integer (.ofNat n) => if n ≤ countBound then some n else none
  | _ => none

/-- The name in an item that chooses one of several: a text, or a table of that one name with
nothing in it. -/
def choice? : Item → Option String
  | .text s => some s
  | .table _ [(name, .table _ [])] => some name
  | .table _ [(name, .list [])] => some name
  | _ => none

/-- Where the fields of a section are looked up: by name in a table, by position in a list, nowhere
in a time. -/
inductive Section where
  | named (entries : Toml.Entries)
  | listed (items : List Item)

def section? : Item → Option Section
  | .table _ entries => some (.named entries)
  | .list items => some (.listed items)
  | .tables tables => some (.listed (tables.map (.table .header)))
  | .dateTime => some (.named [])
  | _ => none

def Section.field? (s : Section) (name : String) (position : Nat) : Option Item :=
  match s with
  | .named entries => Toml.item? name entries
  | .listed items => items[position]?

def Section.read {α : Type} (s : Section) (name : String) (position : Nat) (of? : Item → Option α)
    (standard : α) : Option α :=
  match s.field? name position with
  | none => some standard
  | some item => of? item

def backend? (s : Section) : Option String :=
  s.read "base_url" 0 text? standardBaseUrl

def poller? (s : Section) : Option (Nat × Overlap) := do
  let interval ← s.read "interval_ms" 0 count? standardInterval
  let overlap ← s.read "overlap" 1 (fun i => (choice? i).bind Overlap.ofName?) standardOverlap
  some (interval, overlap)

def alerts? (s : Section) : Option Nat :=
  s.read "ttl_ms" 0 count? AlertBoard.standardTtl

def chart? (s : Section) : Option Nat :=
  s.read "capacity" 0 count? Chart.standardCapacity

def exports? (s : Section) : Option String :=
  s.read "directory" 0 text? standardDirectory

def logging? (s : Section) : Option LogLevel :=
  s.read "level" 0 (fun i => (choice? i).bind LogLevel.ofName?) .standard

/-- Read a section of a document, or take its standard values if there is none. -/
def part {α : Type} (root : Toml.Entries) (name : String) (standard : α)
    (of? : Section → Option α) : Option α :=
  match Toml.item? name root with
  | none => some standard
  | some item => (section? item).bind of?

def layout : List (String × List String) := [
  ("backend", ["base_url"]),
  ("poller", ["interval_ms", "overlap"]),
  ("alerts", ["ttl_ms"]),
  ("chart", ["capacity"]),
  ("export", ["directory"]),
  ("logging", ["level"])]

/-- Whether what an entry of a document holds beside fields can be passed over: its numbers must not
be too large. What a list has beyond the fields of its section is not looked at. -/
def canIgnore (entry : String × Item) : Bool :=
  match layout.lookup entry.1, entry.2 with
  | none, item => item.fits
  | some fields, .table _ inner => inner.all fun e => fields.contains e.1 || e.2.fits
  | some _, _ => true

def ofEntries (root : Toml.Entries) : Option Settings := do
  if !root.all canIgnore then none
  let standard : Settings := {}
  let baseUrl ← part root "backend" standard.baseUrl backend?
  let (interval, overlap) ← part root "poller" (standard.interval, standard.overlap) poller?
  let ttl ← part root "alerts" standard.ttl alerts?
  let capacity ← part root "chart" standard.capacity chart?
  let directory ← part root "export" standard.directory exports?
  let level ← part root "logging" standard.level logging?
  some ⟨baseUrl, interval, overlap, ttl, capacity, directory, level⟩

def parse (text : String) : Option Settings :=
  (Toml.parse text).bind ofEntries

/-! ## Writing -/

def line (key : String) (value : List Char) : List Char :=
  key.toList ++ ' ' :: '=' :: ' ' :: value ++ ['\n']

/-- A section: a comment, its header, its lines and a blank line. -/
def sectionText (comment name : String) (lines : List (List Char)) : List Char :=
  '#' :: ' ' :: comment.toList ++ '\n' :: '[' :: name.toList ++ ']' :: '\n' :: lines.flatten ++
    ['\n']

def preamble : List Char :=
  "# clientgen console settings\n# Command-line flags override values in this file.\n\n".toList

def writeCount (n : Nat) : List Char := Decimal.digits n

def writeText (s : String) : List Char := Toml.writeString s.toList

def fits (s : Settings) : Bool :=
  s.interval ≤ writtenBound && s.ttl ≤ writtenBound && s.capacity ≤ writtenBound

def document? (s : Settings) : Option String :=
  if s.fits then
    some <| String.ofList <| preamble ++
      sectionText "Engine web server" "backend" [line "base_url" (writeText s.baseUrl)] ++
      sectionText "Stats polling" "poller"
        [line "interval_ms" (writeCount s.interval), line "overlap" (writeText s.overlap.name)] ++
      sectionText "Alert display" "alerts" [line "ttl_ms" (writeCount s.ttl)] ++
      sectionText "Packet chart" "chart" [line "capacity" (writeCount s.capacity)] ++
      sectionText "Config export" "export" [line "directory" (writeText s.directory)] ++
      sectionText "Logging" "logging" [line "level" (writeText s.level.name)]
  else none

end EngineConsole.Settings
