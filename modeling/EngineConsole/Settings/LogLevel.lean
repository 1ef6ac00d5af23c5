import EngineConsole.Text.Blank

/-!
# Log levels

How much the console logs. Levels are ordered by severity.
-/

set_option autoImplicit false

namespace EngineConsole

inductive LogLevel where
  | trace
  | debug
  | info
  | warn
  | error
  deriving Repr, DecidableEq

namespace LogLevel

def standard : LogLevel := .info

def all : List LogLevel := [.trace, .debug, .info, .warn, .error]

def name : LogLevel → String
  | .trace => "trace"
  | .debug => "debug"
  | .info => "info"
  | .warn => "warn"
  | .error => "error"

def capitals : LogLevel → String
  | .trace => "TRACE"
  | .debug => "DEBUG"
  | .info => "INFO"
  | .warn => "WARN"
  | .error => "ERROR"

def rank : LogLevel → Nat
  | .trace => 0
  | .debug => 1
  | .info => 2
  | .warn => 3
  | .error => 4

def ofName? (name : String) : Option LogLevel :=
  all.find? fun level => level.name == name

/-- The level of a name in any case; `warning` is a second name of `warn`. -/
def parse? (text : String) : Option LogLevel :=
  let word := Text.lowerAscii text
  if word = "warning" then some .warn else ofName? word

def unknown (text : String) : String :=
  "unknown log level: " ++ Text.lowerAscii text

end LogLevel

end EngineConsole
