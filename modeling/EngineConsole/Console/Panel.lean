import EngineConsole.Chart.Plot
import EngineConsole.Desk.Effect

/-!
# The panel

What the operator can look at: the gauges, the state, the chart, the alerts and the button. Alerts
and the engine's answers are printed as they arrive; all else is printed on request.
-/

set_option autoImplicit false

namespace EngineConsole

structure Panel where
  gauges : Gauge → Option String := fun _ => none
  state : Option RunState := none
  chart : Option (List Sample) := none
  alerts : List Alert := []
  enabled : Bool := false
  busy : Bool := false
  button : Option Button := none

namespace Panel

def display (p : Panel) : Showing → Panel
  | .gauge g text => { p with gauges := fun h => if h = g then some text else p.gauges h }
  | .state s => { p with state := some s }
  | .engine _ => p
  | .chart (.create _) => { p with chart := some [] }
  | .chart (.redraw samples) => { p with chart := some samples }
  | .alert a => { p with alerts := p.alerts ++ [a] }
  | .alertGone id => { p with alerts := p.alerts.filter fun a => a.id != id }
  | .enabled on => { p with enabled := on }
  | .busy => { p with busy := true }
  | .button b => { p with busy := false, button := some b }

def engineLine (s : EngineStatus) : String :=
  let state := if s.running then "engine is running" else "engine is stopped"
  if s.uptime.isEmpty then state else state ++ " (as of " ++ s.uptime ++ ")"

def printed? : Showing → Option String
  | .alert a => some a.line
  | .engine s => some (engineLine s)
  | _ => none

def captioned (caption : String) (text : String) : List Char :=
  Text.padRight 22 caption.toList ++ text.toList

def control (p : Panel) : String :=
  if p.busy then "working..."
  else
    match p.button with
    | none => "-"
    | some b => if p.enabled then b.label else b.label ++ " (disabled)"

def stats (p : Panel) : String :=
  let state := p.state.toList.map fun s =>
    captioned "System" (String.ofList [RunState.glyph, ' '] ++ s.label)
  let gauges := Gauge.all.map fun g => captioned g.label ((p.gauges g).getD "-")
  String.ofList (Text.joinLines (state ++ gauges ++ [captioned "Control" p.control]))

def plot (p : Panel) : String :=
  match p.chart with
  | some samples => Chart.plot samples
  | none => "no samples yet"

def alertList (p : Panel) : String :=
  if p.alerts.isEmpty then "no alerts"
  else String.ofList (Text.joinLines (p.alerts.map fun a => a.line.toList))

end Panel

end EngineConsole
