/-!
# Gauges

The ten counters that have a place on the dashboard.
-/

set_option autoImplicit false

namespace EngineConsole

inductive Gauge where
  | clients
  | sent
  | received
  | sync
  | announce
  | delayRequests
  | captureReceived
  | captureSent
  | captureDropped
  | hardwareStamps
  deriving Repr, DecidableEq

namespace Gauge

def all : List Gauge :=
  [.clients, .sent, .received, .sync, .announce, .delayRequests, .captureReceived, .captureSent,
    .captureDropped, .hardwareStamps]

def key : Gauge → String
  | .clients => "TotalClients"
  | .sent => "TotalPacketsSent"
  | .received => "TotalPacketsRcvd"
  | .sync => "TotalSyncRcvd"
  | .announce => "TotalAnnounceRcvd"
  | .delayRequests => "TotalDelayReqSent"
  | .captureReceived => "PFRingRXPackets"
  | .captureSent => "PFRingTXPackets"
  | .captureDropped => "PFRingRXDropped"
  | .hardwareStamps => "PFRingHWTimestamps"

def slot : Gauge → String
  | .clients => "total-clients"
  | .sent => "packets-sent"
  | .received => "packets-received"
  | .sync => "total-sync"
  | .announce => "total-announce"
  | .delayRequests => "total-delay-req"
  | .captureReceived => "pfring-rx-packets"
  | .captureSent => "pfring-tx-packets"
  | .captureDropped => "pfring-dropped"
  | .hardwareStamps => "hw-timestamps"

def label : Gauge → String
  | .clients => "Clients"
  | .sent => "Packets sent"
  | .received => "Packets received"
  | .sync => "Sync received"
  | .announce => "Announce received"
  | .delayRequests => "Delay requests sent"
  | .captureReceived => "Capture RX packets"
  | .captureSent => "Capture TX packets"
  | .captureDropped => "Capture RX dropped"
  | .hardwareStamps => "HW timestamps"

theorem mem_all (g : Gauge) : g ∈ all := by
  cases g <;> decide

def ofSlot? (slot : String) : Option Gauge :=
  all.find? fun g => g.slot == slot

end Gauge

end EngineConsole
