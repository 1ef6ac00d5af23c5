import EngineConsole.Chart.Window
import EngineConsole.Desk.Alerts
import EngineConsole.Engine.Request

/-!
# Effects

What the desk wants done outside itself: showing something, sending a request, starting a timer.
The desk lists its effects in order and performs none of them.
-/

set_option autoImplicit false

namespace EngineConsole

inductive Showing where
  | gauge (g : Gauge) (text : String)
  | state (s : RunState)
  | engine (s : EngineStatus)
  | chart (call : Chart.Call)
  | alert (a : Alert)
  | alertGone (id : Nat)
  | enabled (on : Bool)
  | busy
  | button (b : Button)
  deriving DecidableEq

inductive Effect where
  | show (s : Showing)
  | send (r : Request)
  | expireAfter (ttl : Nat) (id : Nat)
  | startPolling
  | stopPolling
  deriving DecidableEq

end EngineConsole
