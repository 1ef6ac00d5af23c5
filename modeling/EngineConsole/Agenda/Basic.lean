import EngineConsole.Engine.Script
import EngineConsole.Engine.Simulated

/-!
# The agenda

Background work on a clock of whole milliseconds. Work that is ready runs in the order in which it
was spawned or woken; it runs until it has to wait, and takes no time itself. Work that waits for a
moment is woken when the clock gets there, in the order of those moments and, at one moment, in the
order in which it went to sleep. What finishes is queued as a completion in order of finishing.
-/

set_option autoImplicit false

namespace EngineConsole

inductive Overlap where
  | allow
  /-- It waits; ticks missed meanwhile become one. -/
  | serialize
  deriving Repr, DecidableEq

def Overlap.name : Overlap → String
  | .allow => "allow"
  | .serialize => "serialize"

def Overlap.ofName? (name : String) : Option Overlap :=
  [Overlap.allow, .serialize].find? fun o => o.name == name

/-- A piece of work. A request may carry the number of the poll timer that waits for its end. -/
inductive Job where
  | begin (r : Request) (waiter : Option Nat)
  /-- A request after the delay of its script entry. -/
  | proceed (r : Request) (ending : Scripted) (waiter : Option Nat)
  /-- A request that the engine answers now. -/
  | serve (r : Request) (waiter : Option Nat)
  | expiry (ttl : Nat) (id : Nat)
  | expired (id : Nat)
  | pollBegin (timer : Nat)
  | pollTick (timer due : Nat)

def Job.isPoll : Job → Bool
  | .pollBegin _ => true
  | .pollTick _ _ => true
  | _ => false

structure Agenda where
  now : Nat := 0
  ready : List Job := []
  /-- Work that waits, with its moments, in the order in which it will be woken. -/
  sleeping : List (Nat × Job) := []
  arrived : List Completion := []
  begun : List Request.Kind := []
  engine : Engine
  latency : Nat := 0
  script : Script := .empty
  uptime : String := ""
  interval : Nat
  overlap : Overlap
  timer : Option Nat := none
  started : Nat := 0
  /-- A poll timer that waits for its fetch to end, and the moment its next tick is due. -/
  waiting : Option (Nat × Nat) := none

namespace Agenda

def spawn (a : Agenda) (job : Job) : Agenda :=
  { a with ready := a.ready ++ [job] }

/-- Put work to sleep behind all that is woken no later. -/
def insertSleeper (moment : Nat) (job : Job) : List (Nat × Job) → List (Nat × Job)
  | [] => [(moment, job)]
  | (m, j) :: rest =>
    if m ≤ moment then (m, j) :: insertSleeper moment job rest else (moment, job) :: (m, j) :: rest

def sleep (a : Agenda) (moment : Nat) (job : Job) : Agenda :=
  { a with sleeping := insertSleeper moment job a.sleeping }

def post (a : Agenda) (c : Completion) : Agenda :=
  { a with arrived := a.arrived ++ [c] }

/-- A request is over: a poll timer that waits for it goes on. -/
def release (a : Agenda) (waiter : Option Nat) : Agenda :=
  match waiter, a.waiting with
  | some timer, some (waitingTimer, due) =>
    if timer = waitingTimer then { a.spawn (.pollTick timer due) with waiting := none } else a
  | _, _ => a

/-! ## Running work -/

def serve (a : Agenda) (r : Request) (waiter : Option Nat) : Agenda :=
  let (engine, c) := a.engine.serve a.uptime r
  ({ a with engine }.post c).release waiter

def proceed (a : Agenda) (r : Request) (ending : Scripted) (waiter : Option Nat) : Agenda :=
  if ending = .crash then a.release waiter
  else
    match ending.completion? r with
    | some c => (a.post c).release waiter
    | none =>
      let a := { a with engine := a.engine.arrive r.endpoint }
      if a.latency = 0 then a.serve r waiter else a.sleep (a.now + a.latency) (.serve r waiter)

def begin (a : Agenda) (r : Request) (waiter : Option Nat) : Agenda :=
  let (entry, script) := a.script.next r.kind
  let a := { a with script, begun := a.begun ++ [r.kind] }
  if entry.delay = 0 then a.proceed r entry.ending waiter
  else a.sleep (a.now + entry.delay) (.proceed r entry.ending waiter)

/-- How late a tick may be noticed and still count as punctual. -/
def slack : Nat := 5

/-- The tick after one that was due at a moment and is noticed now, under the policy that lets
missed ticks go: the next point of the timer's grid, which a late tick does not shift. -/
def nextSerialized (now due interval : Nat) : Nat :=
  if due + slack < now then now + interval - (now - due) % interval else due + interval

/-- A poll timer looks at its tick. One that is due fetches; under the policy that allows overlaps
every tick that is due does. -/
def tick (a : Agenda) (timer due : Nat) : Agenda :=
  if a.now < due then a.sleep due (.pollTick timer due)
  else
    match a.overlap with
    | .allow =>
      let ticks := (a.now - due) / a.interval + 1
      let next := due + ticks * a.interval
      let a := { a with ready := a.ready ++ List.replicate ticks (Job.begin .fetchStats none) }
      a.sleep next (.pollTick timer next)
    | .serialize =>
      { a.spawn (.begin .fetchStats (some timer)) with
        waiting := some (timer, nextSerialized a.now due a.interval) }

/-- Run a piece of work until it waits. A poll timer without an interval never ticks. -/
def runJob (a : Agenda) : Job → Agenda
  | .begin r waiter => a.begin r waiter
  | .proceed r ending waiter => a.proceed r ending waiter
  | .serve r waiter => a.serve r waiter
  | .expiry ttl id =>
    if ttl = 0 then a.post (.alertExpired id) else a.sleep (a.now + ttl) (.expired id)
  | .expired id => a.post (.alertExpired id)
  | .pollBegin timer =>
    if a.interval = 0 then a
    else a.sleep (a.now + a.interval) (.pollTick timer (a.now + a.interval))
  | .pollTick timer due => a.tick timer due

/-- Run what is ready now; what becomes ready meanwhile is left. -/
def round (a : Agenda) : Agenda :=
  a.ready.foldl runJob { a with ready := [] }

def rounds : Nat → Agenda → Agenda
  | 0, a => a
  | n + 1, a => if a.ready.isEmpty then a else rounds n a.round

/-- Run all that is ready. Of the ticks of a poll timer that fire one after the other at one moment,
all but the first are at most `slack` late, and each is later than the next; a tick takes one round
and its fetch another. One round more comes before them and one after. -/
def runReady (a : Agenda) : Agenda :=
  rounds (2 * (slack + 2) + 2) a

/-! ## Time -/

def nextMoment? (a : Agenda) : Option Nat :=
  a.sleeping.head?.map (·.1)

def wakeAt (a : Agenda) (moment : Nat) : Agenda :=
  { a with
    now := moment
    ready := a.ready ++ (a.sleeping.takeWhile fun s => s.1 ≤ moment).map (·.2)
    sleeping := a.sleeping.dropWhile fun s => s.1 ≤ moment }

def passTurns (limit : Nat) : Nat → Agenda → Agenda
  | 0, a => a
  | turns + 1, a =>
    let a := a.runReady
    match a.nextMoment? with
    | some moment =>
      if a.now < moment ∧ moment ≤ limit then passTurns limit turns (a.wakeAt moment)
      else a.wakeAt limit
    | none => a.wakeAt limit

def pass (a : Agenda) (ms : Nat) : Agenda :=
  passTurns (a.now + ms) (ms + 1) a

/-! ## Polling -/

def isPolling (a : Agenda) : Bool :=
  a.timer.isSome

/-- Stop the poll timer. Fetches it issued go on. -/
def stopPolling (a : Agenda) : Agenda :=
  { a with
    ready := a.ready.filter fun j => !j.isPoll
    sleeping := a.sleeping.filter fun s => !s.2.isPoll
    timer := none
    waiting := none }

def startPolling (a : Agenda) : Agenda :=
  let a := a.stopPolling
  { a.spawn (.pollBegin a.started) with timer := some a.started, started := a.started + 1 }

end Agenda

end EngineConsole
