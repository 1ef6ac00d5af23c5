import EngineConsole.Console.Arguments
import EngineConsole.Console.Workplace
import EngineConsole.Settings.Store

/-!
# Launching

What follows from the arguments: the console is over at once, or its settings are loaded and a
workplace is set up as they describe it.
-/

set_option autoImplicit false

namespace EngineConsole

namespace Launch

def versionText : String := "clientgen-console " ++ Session.version

def helpText : String :=
  "\n".intercalate
    ["Operator console for the clientgen PTP client generator",
      "",
      "Usage: clientgen-console [OPTIONS]",
      "",
      "Options:",
      "  -s, --settings <SETTINGS>    Settings file (created with defaults if missing)",
      "  -b, --backend <BACKEND>      Engine web server base URL, overrides the settings file",
      "      --simulate               Run against an in-process simulated engine",
      "  -l, --log-level <LOG_LEVEL>  Log level (trace, debug, info, warn, error)",
      "      --serialize-polls        Never issue a stats fetch while one is outstanding",
      "  -h, --help                   Print help",
      "  -V, --version                Print version"]

end Launch

namespace Choices

def apply (c : Choices) (s : Settings) : Settings :=
  { s with
    baseUrl := c.server.getD s.baseUrl
    overlap := if c.serialize then .serialize else s.overlap
    level := c.level.getD s.level }

/-- The engine: a simulated one, or else one that is out of reach, since servers are not dealt with
here. -/
def engine (c : Choices) : Engine :=
  { config := Engine.standardConfig, offline := !c.simulate }

def settingsPath (c : Choices) (standardPath : String) : String :=
  c.settings.getD standardPath

def load (c : Choices) (standardPath : String) (disk : Disk) :
    Disk × Except SettingsStore.Problem Settings :=
  let store : SettingsStore := { path := c.settingsPath standardPath }
  let (store, disk, result) := store.loadOrCreate disk {}
  (disk, result.map fun _ => c.apply store.settings)

end Choices

def Engine.form : Form :=
  .ofConfig Engine.standardConfig

def Launch.settingsPath (l : Launch) (standardPath : String) : String :=
  match l with
  | .run choices => choices.settingsPath standardPath
  | _ => standardPath

inductive Beginning where
  | over (printed : String) (exitCode : Nat)
  | ready (settings : Settings) (engine : Engine)

/-- Begin as the arguments ask. Only settings that cannot be loaded stand in the way of those that
are understood. -/
def Launch.begin (l : Launch) (standardPath : String) (disk : Disk) : Disk × Beginning :=
  match l with
  | .refused => (disk, .over "" 2)
  | .tellHelp => (disk, .over (helpText ++ "\n") 0)
  | .tellVersion => (disk, .over (versionText ++ "\n") 0)
  | .run choices =>
    match choices.load standardPath disk with
    | (disk, .error _) => (disk, .over "" 1)
    | (disk, .ok settings) => (disk, .ready settings choices.engine)

namespace Workplace

def begin (station : Station) (s : Settings) (disk : Disk) (printed : List Printed) :
    Workplace where
  session := .start station printed
  disk := disk
  exports := s.directory

end Workplace

end EngineConsole
