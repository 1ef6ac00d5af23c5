import EngineConsole.Text.Blank
import EngineConsole.Text.Quoted

/-!
# Operator commands

A command is one line: a word, and for some words an argument. Blanks around the words do not
matter; those inside an argument do.
-/

set_option autoImplicit false

namespace EngineConsole

inductive Command where
  | help
  | toggle
  | start
  | stop
  | stats
  | chart
  | config
  | set (key value : String)
  | load
  | save
  | exportConfig
  | importConfig (path : String)
  | clear
  | status
  | alerts
  | poll (on : Bool)
  | quit
  deriving Repr, DecidableEq

inductive CommandError where
  | setUsage
  | importUsage
  | pollUsage
  | unknown (word : String)
  deriving Repr, DecidableEq

def CommandError.message : CommandError → String
  | .setUsage => "usage: set <key> <value>"
  | .importUsage => "usage: import <path>"
  | .pollUsage => "usage: poll on|off"
  | .unknown word => "unknown command " ++ Text.quoted word ++ ", try help"

namespace Command

def helpText : String :=
  "\n".intercalate
    ["commands:",
      "  toggle | start | stop   start or stop the engine",
      "  stats                   show counters and system status",
      "  chart                   show the packet chart",
      "  config                  show the config form",
      "  set <key> <value>       edit a form field",
      "  load | save             fetch the config, or submit the form",
      "  export                  write the config to clientgen_config.json",
      "  import <path>           replace the config with a saved document",
      "  clear                   reset the engine counters",
      "  status                  ask the engine whether it is running",
      "  alerts                  list visible alerts",
      "  poll on|off             resume or pause stats polling",
      "  quit"]

def splitWord (cs : List Char) : List Char × List Char :=
  let (word, rest) := Text.splitAtBlank cs
  (word, Text.trim (rest.getD []))

def ofWord (word : String) (rest : List Char) : Except CommandError Command :=
  match word with
  | "help" | "?" => .ok .help
  | "toggle" => .ok .toggle
  | "start" => .ok .start
  | "stop" => .ok .stop
  | "stats" => .ok .stats
  | "chart" => .ok .chart
  | "config" => .ok .config
  | "set" =>
    let (key, value) := splitWord rest
    if key.isEmpty then .error .setUsage else .ok (.set (String.ofList key) (String.ofList value))
  | "load" => .ok .load
  | "save" => .ok .save
  | "export" => .ok .exportConfig
  | "import" =>
    if rest.isEmpty then .error .importUsage else .ok (.importConfig (String.ofList rest))
  | "clear" => .ok .clear
  | "status" => .ok .status
  | "alerts" => .ok .alerts
  | "poll" =>
    if rest = ['o', 'n'] then .ok (.poll true)
    else if rest = ['o', 'f', 'f'] then .ok (.poll false)
    else .error .pollUsage
  | "quit" | "exit" | "q" => .ok .quit
  | other => .error (.unknown other)

def parse (line : String) : Except CommandError (Option Command) :=
  let (word, rest) := splitWord (Text.trim line.toList)
  if word.isEmpty then .ok none else (ofWord (String.ofList word) rest).map some

def isYes (answer : String) : Bool :=
  Text.lowerAscii (Text.trimmed answer) ∈ ["y", "yes"]

end Command

end EngineConsole
