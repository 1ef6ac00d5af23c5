import EngineConsole.Console.Command
import EngineConsole.Console.Station
import EngineConsole.Form.Listing

/-!
# Sessions

The operator's side of the console: commands are carried out and texts printed. A command that needs
a file, or one more line, leaves an errand and is finished with what came of it. What a command
starts in the background is left there.
-/

set_option autoImplicit false

namespace EngineConsole

inductive Printed where
  | line (text : String)
  /-- A question that can be agreed to. The line it stands on is left open for the answer. -/
  | question (text : String)
  deriving Repr, DecidableEq

def Printed.text : Printed → String
  | .line text => text ++ "\n"
  | .question text => text ++ " [y/N] "

inductive Errand where
  | ask
  | read (path : String)
  | offer (name contents : String)
  deriving Repr, DecidableEq

inductive Turn where
  | finished
  | unreadable
  | blank
  | refused (e : CommandError)
  | done (errand : Option Errand)
  | quit
  deriving Repr, DecidableEq

def Turn.exitCode? : Turn → Option Nat
  | .finished => some 0
  | .quit => some 0
  | .unreadable => some 1
  | .blank => none
  | .refused _ => none
  | .done _ => none

structure Session where
  station : Station
  printed : List Printed := []

namespace Session

def version : String := "0.1.0"

def banner : String :=
  "clientgen console " ++ version ++ ", type help for commands"

/-! ## Printing -/

def print (s : Session) (text : String) : Session :=
  { s with printed := s.printed ++ [.line text] }

/-- Go on with a station, printing what it showed meanwhile and is printed at once. -/
def follow (s : Session) (station : Station) : Session :=
  let shown := station.shown.drop s.station.shown.length
  { s with
    station
    printed := s.printed ++ (shown.filterMap Panel.printed?).map .line }

/-- Take over the outcome of an operation of the desk. -/
def take (s : Session) (outcome : Desk × List Effect) : Session :=
  s.follow (s.station.take outcome)

def perform (s : Session) (effects : List Effect) : Session :=
  s.follow (s.station.perform effects)

/-- A session at a station, with something printed already: the button is shown, then loading and
polling begin. -/
def start (station : Station) (printed : List Printed) : Session :=
  { station, printed : Session }.perform (Desk.opening ++ Desk.startup)

/-! ## Commands -/

def press (s : Session) : Session :=
  if s.station.desk.heedsToggle then s.take s.station.desk.toggle
  else s.print "a start/stop request is already in flight"

def bring (s : Session) (wanted : RunState) : Session :=
  if s.station.desk.state = wanted then
    s.print ("engine is already " ++ Text.lowerAscii wanted.label)
  else s.press

def edit (s : Session) (key raw : String) : Session :=
  match s.station.desk.form.edit key raw with
  | .ok form => { s with station.desk.form := form }
  | .error e => s.print e.message

def ask (s : Session) : Session :=
  { s with printed := s.printed ++ [Printed.question Desk.clearQuestion] }

/-- Finish a clearing with the answer. Anything but a yes, an input that has ended included, leaves
the counters. -/
def answered (s : Session) (answer : Option String) : Session :=
  s.perform (Desk.clear (answer.any Command.isYes))

def importFile (s : Session) (file : Option (List UInt8)) : Session :=
  s.take (s.station.desk.imported s.station.moment (Config.import? file))

def exported (s : Session) (place : Option String) : Session :=
  match place with
  | some path => s.print ("exported to " ++ path)
  | none => s.take (s.station.desk.exported s.station.moment false)

def carryOut (s : Session) : Command → Session × Option Errand
  | .help => (s.print Command.helpText, none)
  | .toggle => (s.press, none)
  | .start => (s.bring .running, none)
  | .stop => (s.bring .stopped, none)
  | .stats => (s.print s.station.panel.stats, none)
  | .chart => (s.print s.station.panel.plot, none)
  | .config => (s.print (Form.listing s.station.desk.form.entries), none)
  | .set key value => (s.edit key value, none)
  | .load => (s.perform [.send .loadConfig], none)
  | .save => (s.perform s.station.desk.save, none)
  | .exportConfig => (s, some (.offer Desk.exportName s.station.desk.config.document))
  | .importConfig path => (s, some (.read path))
  | .clear => (s.ask, some .ask)
  | .status => (s.perform [.send .askStatus], none)
  | .alerts => (s.print s.station.panel.alertList, none)
  | .poll true => (s.perform [.startPolling], none)
  | .poll false => (s.perform [.stopPolling], none)
  | .quit => (s, none)

def obey (s : Session) (line : String) : Session × Turn :=
  match Command.parse line with
  | .error e => (s, .refused e)
  | .ok none => (s, .blank)
  | .ok (some .quit) => (s, .quit)
  | .ok (some c) =>
    let (s, errand) := s.carryOut c
    (s, .done errand)

def remark (s : Session) : Turn → Session
  | .refused e => s.print e.message
  | _ => s

/-! ## In the background -/

/-- Let what is ready run; what it ends with is left to be applied. -/
def runReady (s : Session) : Session :=
  s.follow s.station.runReady

def settle (s : Session) : Session × Nat :=
  let (station, applied) := s.station.settle
  (s.follow station, applied)

def pass (s : Session) (ms : Nat) : Session × Nat :=
  let (station, applied) := s.station.run ms
  (s.follow station, applied)

end Session

end EngineConsole
