import EngineConsole.Counts.Amount
import EngineConsole.Desk.Effect
import EngineConsole.Form.Basic

/-!
# The operator's desk

Everything the console knows: the configuration and the form it is edited in, the state of the
engine, the last counters and their chart, the visible alerts. An operation gives the new desk and
the effects it has outside; what happens in the background comes back as a completion, and only
`handle` applies those.
-/

set_option autoImplicit false

namespace EngineConsole

structure Desk where
  config : Config
  form : Form
  state : RunState
  pending : Bool
  counts : Counts
  chart : Chart
  alerts : AlertBoard

structure Moment where
  now : Nat
  clock : String

namespace Desk

def clearQuestion : String := "Are you sure you want to clear the statistics?"

def exportName : String := "clientgen_config.json"

def fresh (form : Form) (capacity ttl : Nat) : Desk where
  config := .empty
  form
  state := .stopped
  pending := false
  counts := .empty
  chart := .ofCapacity capacity
  alerts := { ttl }

def opening : List Effect :=
  [.show (.button RunState.stopped.button), .show (.enabled true)]

/-! ## Alerts -/

/-- Raise an alert. It is shown now, and its timer begins. -/
def raise (desk : Desk) (m : Moment) (kind : AlertKind) (message : String) : Desk × List Effect :=
  let alert := desk.alerts.upcoming m.now kind message
  ({ desk with alerts := desk.alerts.add alert },
    [.show (.alert alert), .expireAfter desk.alerts.ttl alert.id])

/-- Take an alert away. One that is not visible changes nothing. -/
def expire (desk : Desk) (id : Nat) : Desk × List Effect :=
  if desk.alerts.shows id then
    ({ desk with alerts := desk.alerts.remove id }, [.show (.alertGone id)])
  else (desk, [])

/-! ## Configuration -/

def adopt (desk : Desk) (config : Config) : Desk :=
  { desk with config, form := desk.form.fill config }

/-- Apply a loaded configuration. A refusal is the server's business and raises no alert. -/
def loaded (desk : Desk) (m : Moment) : Except Failure Config → Desk × List Effect
  | .ok config => (desk.adopt config, [])
  | .error (.refused _ _ _) => (desk, [])
  | .error _ => desk.raise m .error "Failed to load configuration"

/-- Apply the end of a save. The form stays as it is. -/
def saved (desk : Desk) (m : Moment) (submitted : Config) :
    Except Failure Unit → Desk × List Effect
  | .ok _ =>
    { desk with config := submitted }.raise m .success "Configuration saved successfully"
  | .error _ => desk.raise m .error "Failed to save configuration"

/-- Import a document. Nothing but an alert comes of one that cannot be read. -/
def imported (desk : Desk) (m : Moment) : Except ImportFailure Config → Desk × List Effect
  | .ok config => (desk.adopt config).raise m .success "Configuration imported successfully"
  | .error _ => desk.raise m .error "Failed to import configuration"

def exported (desk : Desk) (m : Moment) (taken : Bool) : Desk × List Effect :=
  if taken then (desk, []) else desk.raise m .error "Failed to export configuration"

/-! ## Counters -/

/-- Apply fetched counters, showing them beside a state: all gauges, the state, then the chart. A
failed fetch is skipped without a word. -/
def fetched (desk : Desk) (m : Moment) (state : RunState) :
    Except Failure Counts → Desk × List Effect
  | .ok counts =>
    let (chart, calls) := desk.chart.push (.ofCounts m.clock counts)
    ({ desk with counts, chart },
      (Gauge.all.map fun g => .show (.gauge g (Counts.amount (counts.gauge g)))) ++
        .show (.state state) :: calls.map fun call => .show (.chart call))
  | .error _ => (desk, [])

/-- Apply the end of a clearing. Cleared counters are fetched at once. -/
def cleared (desk : Desk) (m : Moment) : Except Failure Unit → Desk × List Effect
  | .ok _ =>
    let (desk, effects) := desk.raise m .success "Statistics cleared"
    (desk, effects ++ [.send .fetchStats])
  | .error _ => desk.raise m .error "Failed to clear statistics"

/-! ## Starting and stopping -/

def requestFor : RunState → Request
  | .running => .start
  | .stopped => .stop

def heedsToggle (desk : Desk) : Bool :=
  !desk.pending

def toggle (desk : Desk) : Desk × List Effect :=
  if desk.pending then (desk, [])
  else
    ({ desk with pending := true },
      [.show (.enabled false), .show .busy, .send (requestFor desk.state.toggled)])

def toggledMessage : RunState → String
  | .running => "System started"
  | .stopped => "System stopped"

def toggled (desk : Desk) (m : Moment) (result : Except Failure Unit) : Desk × List Effect :=
  let (desk, effects) :=
    match result with
    | .ok _ =>
      { desk with pending := false, state := desk.state.toggled }.raise m .success
        (toggledMessage desk.state.toggled)
    | .error _ => { desk with pending := false }.raise m .error "System control failed"
  (desk, effects ++ [.show (.button desk.state.button), .show (.enabled true)])

/-- Apply the engine's answer about its state, which is shown and believed by nobody. -/
def told (desk : Desk) (m : Moment) : Except Failure EngineStatus → Desk × List Effect
  | .ok status => (desk, [.show (.engine status)])
  | .error _ => desk.raise m .error "Failed to query engine status"

/-! ## All together -/

def handle (desk : Desk) (m : Moment) : Completion → Desk × List Effect
  | .configLoaded result => desk.loaded m result
  | .configSaved submitted result => desk.saved m submitted result
  | .statsFetched result => desk.fetched m desk.state result
  | .statsCleared result => desk.cleared m result
  | .toggleFinished result => desk.toggled m result
  | .engineStatus result => desk.told m result
  | .alertExpired id => desk.expire id

/-- What is done when the console begins: load, fetch once, then poll. -/
def startup : List Effect :=
  [.send .loadConfig, .send .fetchStats, .startPolling]

def save (desk : Desk) : List Effect :=
  [.send (.saveConfig desk.form.values)]

def clear (agreed : Bool) : List Effect :=
  if agreed then [.send .clearStats] else []

end Desk

end EngineConsole
