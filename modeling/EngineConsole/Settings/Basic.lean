import EngineConsole.Agenda.Basic
import EngineConsole.Desk.Basic
import EngineConsole.Settings.LogLevel

/-!
# Settings

The console's own settings: where the engine is, how often its counters are fetched, how long
alerts stay, how much the chart shows, where exports go and how much is logged. What the desk and
its background work need of them are the options.
-/

set_option autoImplicit false

namespace EngineConsole

/-! The standard values of single settings. -/

namespace Settings

def standardBaseUrl : String := "http://127.0.0.1:8080"

def standardInterval : Nat := 1000

def standardOverlap : Overlap := .allow

def standardDirectory : String := "."

end Settings

structure Settings where
  baseUrl : String := Settings.standardBaseUrl
  interval : Nat := Settings.standardInterval
  overlap : Overlap := Settings.standardOverlap
  ttl : Nat := AlertBoard.standardTtl
  capacity : Nat := Chart.standardCapacity
  directory : String := Settings.standardDirectory
  level : LogLevel := .standard
  deriving Repr, DecidableEq

structure Options where
  interval : Nat := 1000
  overlap : Overlap := .allow
  ttl : Nat := AlertBoard.standardTtl
  capacity : Nat := Chart.standardCapacity
  deriving Repr, DecidableEq

/-- The options in settings. The interval is a millisecond at least. -/
def Settings.options (s : Settings) : Options :=
  ⟨max s.interval 1, s.overlap, s.ttl, s.capacity⟩

end EngineConsole
