import EngineConsole.Engine.Request

/-!
# The simulated engine

An engine that exists only as a value: its configuration, its counters, whether it runs and whether
it can be reached. Counters advance with every reading while it runs, and it refuses to be started
or stopped twice.
-/

set_option autoImplicit false

namespace EngineConsole

structure Engine where
  config : Config
  counts : Counts := .empty
  running : Bool := false
  offline : Bool := false
  seen : List Endpoint := []
  deriving DecidableEq

namespace Engine

def standardNumbers : List (String × Nat) :=
  [("ClientIPStep", 1), ("SoftStartRate", 1000000000000000), ("TimeoutSec", 90),
    ("DurationSec", 5), ("TimeAfterDurationBeforeRestartSec", 1), ("TimeBetweenDelayReqSec", 1),
    ("ClientRetranTimeWhenNoResponseSec", 1), ("NumTXWorkers", 4), ("NumTXTSWorkerPerTx", 3),
    ("NumRXWorkers", 4), ("NumPacketParsers", 4), ("NumPacketProcessors", 4),
    ("NumClientRetransmitProcs", 4), ("NumClientRestartProcs", 4), ("CounterPrintIntervalSecs", 1)]

def standardTexts : List (String × String) :=
  [("Iface", "ens1f0np0"), ("ServerMAC", "0c:42:a1:80:31:66"),
    ("ServerAddress", "2401:db00:eef0:1120:3520:0:1401:eb11"),
    ("ClientIPStart", "2401:db00:eef0:1120:3520:0:1401:eb14"),
    ("ClientIPEnd", "2401:db00:eef0:1120:3520:0:1403:e6e4")]

def standardFlags : List (String × Bool) :=
  [("RestartClientsAfterDuration", true), ("DebugPrint", false), ("DebugLogClient", false),
    ("DebugIoWkrRX", false), ("DebugIoWkrTX", false), ("DebugDetailPerf", false),
    ("DebugRestartProc", false), ("DebugRetransProc", false), ("DebugProfilers", false),
    ("PrintClientReqData", false), ("PrintPerformance", true), ("PrintClientData", true),
    ("PrintTxRxCounts", true), ("PrintLatencyData", true)]

def standardConfig : Config :=
  .ofList <| standardTexts.map (fun e => (e.1, .text e.2)) ++
    standardNumbers.map (fun e => (e.1, .number (.ofNat e.2))) ++
    standardFlags.map (fun e => (e.1, .flag e.2))

def increments : List (Gauge × UInt64) :=
  [(.sent, 100), (.received, 95), (.captureReceived, 95), (.captureSent, 100), (.sync, 10),
    (.announce, 5), (.delayRequests, 20), (.hardwareStamps, 50)]

def startedClients : UInt64 := 1000

def advanced (counts : Counts) : Counts :=
  increments.foldl (fun c e => c.advance e.1.key e.2) counts

def arrive (e : Engine) (endpoint : Endpoint) : Engine :=
  { e with seen := e.seen ++ [endpoint] }

def setCounter (e : Engine) (key : String) (value : UInt64) : Engine :=
  { e with counts := e.counts.insert key value }

def refusal (endpoint : Endpoint) (reason : String) : Failure :=
  .refused endpoint.path 400 reason

def start (e : Engine) : Engine × Except Failure Unit :=
  if e.running then (e, .error (refusal .start "System is already running"))
  else if e.config.isEmpty then (e, .error (refusal .start "No configuration available"))
  else ({ e.setCounter Gauge.clients.key startedClients with running := true }, .ok ())

def stop (e : Engine) : Engine × Except Failure Unit :=
  if e.running then ({ e with running := false }, .ok ())
  else (e, .error (refusal .stop "System is not running"))

def serve (e : Engine) (uptime : String) (r : Request) : Engine × Completion :=
  if e.offline then (e, r.failed (.unreachable r.endpoint.path "connection refused"))
  else
    match r with
    | .loadConfig => (e, .configLoaded (.ok e.config))
    | .saveConfig submitted => ({ e with config := submitted }, .configSaved submitted (.ok ()))
    | .fetchStats =>
      let counts := if e.running then advanced e.counts else e.counts
      ({ e with counts }, .statsFetched (.ok counts))
    | .clearStats => ({ e with counts := .empty }, .statsCleared (.ok ()))
    | .start =>
      let (e, result) := e.start
      (e, .toggleFinished result)
    | .stop =>
      let (e, result) := e.stop
      (e, .toggleFinished result)
    | .askStatus => (e, .engineStatus (.ok ⟨e.running, uptime⟩))

end Engine

end EngineConsole
