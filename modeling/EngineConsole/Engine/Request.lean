import EngineConsole.Config.Basic
import EngineConsole.Counts.Basic
import EngineConsole.RunState

/-!
# Requests to the engine

What the console asks of the engine, where each request is addressed, how it can fail, and what is
reported once it is over.
-/

set_option autoImplicit false

namespace EngineConsole

inductive Endpoint where
  | config
  | stats
  | statsClear
  | start
  | stop
  | status
  deriving Repr, DecidableEq

def Endpoint.path : Endpoint → String
  | .config => "/api/config"
  | .stats => "/api/stats"
  | .statsClear => "/api/stats/clear"
  | .start => "/api/start"
  | .stop => "/api/stop"
  | .status => "/api/status"

inductive Request where
  | loadConfig
  | saveConfig (submitted : Config)
  | fetchStats
  | clearStats
  | start
  | stop
  | askStatus
  deriving DecidableEq

namespace Request

inductive Kind where
  | loadConfig
  | saveConfig
  | fetchStats
  | clearStats
  | start
  | stop
  | askStatus
  deriving Repr, DecidableEq

def kind : Request → Kind
  | .loadConfig => .loadConfig
  | .saveConfig _ => .saveConfig
  | .fetchStats => .fetchStats
  | .clearStats => .clearStats
  | .start => .start
  | .stop => .stop
  | .askStatus => .askStatus

def Kind.endpoint : Kind → Endpoint
  | .loadConfig => .config
  | .saveConfig => .config
  | .fetchStats => .stats
  | .clearStats => .statsClear
  | .start => .start
  | .stop => .stop
  | .askStatus => .status

def endpoint (r : Request) : Endpoint :=
  r.kind.endpoint

end Request

inductive Failure where
  | unreachable (endpoint reason : String)
  | refused (endpoint : String) (status : Nat) (body : String)
  | undecodable (endpoint : String) (flaw : Json.Flaw)
  deriving Repr, DecidableEq

namespace Failure

def endpoint : Failure → String
  | .unreachable endpoint _ => endpoint
  | .refused endpoint _ _ => endpoint
  | .undecodable endpoint _ => endpoint

def heading : Failure → String
  | .unreachable endpoint _ => "transport failure on " ++ endpoint
  | .refused endpoint status _ => "server returned " ++ toString status ++ " for " ++ endpoint
  | .undecodable endpoint _ => "failed to decode response from " ++ endpoint

def cause : Failure → String
  | .unreachable _ reason => reason
  | .refused _ _ body => body
  | .undecodable _ .cutShort => "it ends too early"
  | .undecodable _ .malformed => "it is malformed"
  | .undecodable _ .unfit => "it does not fit"

def message (f : Failure) : String :=
  f.heading ++ ": " ++ f.cause

end Failure

inductive Completion where
  | configLoaded (result : Except Failure Config)
  | configSaved (submitted : Config) (result : Except Failure Unit)
  | statsFetched (result : Except Failure Counts)
  | statsCleared (result : Except Failure Unit)
  | toggleFinished (result : Except Failure Unit)
  | engineStatus (result : Except Failure EngineStatus)
  | alertExpired (id : Nat)

def Completion.name : Completion → String
  | .configLoaded _ => "config_loaded"
  | .configSaved _ _ => "config_saved"
  | .statsFetched _ => "stats_fetched"
  | .statsCleared _ => "stats_cleared"
  | .toggleFinished _ => "toggle_finished"
  | .engineStatus _ => "engine_status"
  | .alertExpired _ => "alert_expired"

namespace Request

def failed (r : Request) (f : Failure) : Completion :=
  match r with
  | .loadConfig => .configLoaded (.error f)
  | .saveConfig submitted => .configSaved submitted (.error f)
  | .fetchStats => .statsFetched (.error f)
  | .clearStats => .statsCleared (.error f)
  | .start => .toggleFinished (.error f)
  | .stop => .toggleFinished (.error f)
  | .askStatus => .engineStatus (.error f)

/-- The completion of a request that was answered with a body. A body that nobody reads is not
looked at; one that cannot be decoded makes the request fail. -/
def answered (r : Request) (body : Json.Input) : Completion :=
  let undecodable (flaw : Json.Flaw) : Failure := .undecodable r.endpoint.path flaw
  match r with
  | .loadConfig => .configLoaded ((Config.read body).mapError undecodable)
  | .saveConfig submitted => .configSaved submitted (.ok ())
  | .fetchStats => .statsFetched ((Counts.read body).mapError undecodable)
  | .clearStats => .statsCleared (.ok ())
  | .start => .toggleFinished (.ok ())
  | .stop => .toggleFinished (.ok ())
  | .askStatus => .engineStatus ((EngineStatus.read body).mapError undecodable)

end Request

end EngineConsole
