import EngineConsole.Agenda.Basic
import EngineConsole.Console.Panel
import EngineConsole.Desk.Basic
import EngineConsole.Settings.Basic

/-!
# The station

A desk with its panel and its background work. Here the desk's effects are performed, and queued
completions are applied to it one after the other.
-/

set_option autoImplicit false

namespace EngineConsole

structure Station where
  desk : Desk
  agenda : Agenda
  panel : Panel := {}
  shown : List Showing := []
  clock : String

namespace Station

def ofOptions (form : Form) (o : Options) (engine : Engine) (clock : String) : Station where
  desk := .fresh form o.capacity o.ttl
  agenda := { engine, interval := o.interval, overlap := o.overlap }
  clock := clock

def moment (s : Station) : Moment :=
  ⟨s.agenda.now, s.clock⟩

def performOne (s : Station) : Effect → Station
  | .show showing => { s with panel := s.panel.display showing, shown := s.shown ++ [showing] }
  | .send r => { s with agenda := s.agenda.spawn (.begin r none) }
  | .expireAfter ttl id => { s with agenda := s.agenda.spawn (.expiry ttl id) }
  | .startPolling => { s with agenda := s.agenda.startPolling }
  | .stopPolling => { s with agenda := s.agenda.stopPolling }

def perform (s : Station) (effects : List Effect) : Station :=
  effects.foldl performOne s

/-- Take over the outcome of an operation of the desk. -/
def take (s : Station) (outcome : Desk × List Effect) : Station :=
  { s with desk := outcome.1 }.perform outcome.2

def handle (s : Station) (c : Completion) : Station :=
  s.take (s.desk.handle s.moment c)

/-- Let all that is ready run; completions only queue up. -/
def runReady (s : Station) : Station :=
  { s with agenda := s.agenda.runReady }

def process (s : Station) : Station × Nat :=
  let arrived := s.agenda.arrived
  (arrived.foldl handle { s with agenda := { s.agenda with arrived := [] } }, arrived.length)

def settleTurns : Nat → Station → Station × Nat
  | 0, s => (s, 0)
  | turns + 1, s =>
    let s := s.runReady
    if s.agenda.arrived.isEmpty then (s, 0)
    else
      let (s, applied) := s.process
      let (s, more) := settleTurns turns s
      (s, applied + more)

/-- Run and apply until nothing is left at this moment. A clearing is followed by its alert's expiry
and a fetch, and neither has consequences, so a third turn finds nothing. -/
def settle (s : Station) : Station × Nat :=
  settleTurns 4 s

def advance (s : Station) (ms : Nat) : Station × Nat :=
  { s with agenda := s.agenda.pass ms }.settle

/-- Apply completions as they arrive before a moment, then settle. Every turn applies something or
moves the clock on. -/
def runTurns (limit : Nat) : Nat → Station → Station × Nat
  | 0, s => s.settle
  | turns + 1, s =>
    let (s, applied) := s.settle
    let (s, more) :=
      match s.agenda.nextMoment? with
      | some moment =>
        if s.agenda.now < moment ∧ moment < limit then
          runTurns limit turns { s with agenda := s.agenda.wakeAt moment }
        else { s with agenda := s.agenda.wakeAt limit }.settle
      | none => { s with agenda := s.agenda.wakeAt limit }.settle
    (s, applied + more)

/-- Let time pass, applying completions as they arrive; those that have arrived come first. -/
def run (s : Station) (ms : Nat) : Station × Nat :=
  let (s, applied) := s.process
  let (s, more) := runTurns (s.agenda.now + ms) (ms + 1) s
  (s, applied + more)

def patience : Nat := 3600000

/-- Wait for a completion to arrive before a moment; none if none does by then. What is due at that
very moment is woken and left to run. -/
def awaitTurns (limit : Nat) : Nat → Agenda → Agenda
  | 0, a => a
  | turns + 1, a =>
    if a.arrived.isEmpty then
      let a := a.runReady
      if a.arrived.isEmpty then
        match a.nextMoment? with
        | some moment =>
          if a.now < moment ∧ moment < limit then awaitTurns limit turns (a.wakeAt moment)
          else a.wakeAt limit
        | none => a.wakeAt limit
      else a
    else a

def await? (s : Station) : Station × Option Completion :=
  let agenda := awaitTurns (s.agenda.now + patience) (patience + 1) s.agenda
  match agenda.arrived with
  | [] => ({ s with agenda }, none)
  | c :: rest => ({ s with agenda := { agenda with arrived := rest } }, some c)

def next (s : Station) : Station × Option Completion :=
  match s.await? with
  | (s, none) => (s, none)
  | (s, some c) => (s.handle c, some c)

end Station

end EngineConsole
