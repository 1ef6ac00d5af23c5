import EngineConsole.Console.Session
import EngineConsole.Disk.Basic

/-!
# Workplaces

A session with what the operator types at it and with a disk, so that the errands of its commands
can be done.
-/

set_option autoImplicit false

namespace EngineConsole

structure Workplace where
  session : Session
  input : List UInt8 := []
  disk : Disk
  exports : String

namespace Workplace

/-! ## Reading -/

/-- The first line of an input and what follows it; none at the end. The last line may lack its
end. -/
def splitLine (input : List UInt8) : Option (List UInt8 × List UInt8) :=
  if input.isEmpty then none
  else
    match input.dropWhile (· != 10) with
    | [] => some (input, [])
    | _ :: rest =>
      let line := input.takeWhile (· != 10)
      some (if line.getLast? = some 13 then line.dropLast else line, rest)

def enter (w : Workplace) (bytes : List UInt8) : Workplace :=
  { w with input := w.input ++ bytes }

/-- Read a line: its text if it is one, none at the end of the input. -/
def readLine (w : Workplace) : Workplace × Option (Option String) :=
  match splitLine w.input with
  | none => (w, none)
  | some (line, rest) => ({ w with input := rest }, some (Text.decode? line))

/-! ## Working -/

def run (w : Workplace) : Errand → Workplace
  | .ask =>
    let (w, answer) := w.readLine
    { w with session := w.session.answered answer.join }
  | .read path => { w with session := w.session.importFile (w.disk.read? path) }
  | .offer name contents =>
    let (disk, place) := w.disk.offer w.exports name contents
    { w with disk, session := w.session.exported place }

def turn (w : Workplace) : Workplace × Turn :=
  match w.readLine with
  | (w, none) => (w, .finished)
  | (w, some none) => (w, .unreadable)
  | (w, some (some line)) =>
    match w.session.obey line with
    | (session, .done (some errand)) => ({ w with session }.run errand, .done (some errand))
    | (session, turn) => ({ w with session }, turn)

def step (w : Workplace) : Workplace × Turn :=
  let (w, turn) := w.turn
  ({ w with session := w.session.remark turn }, turn)

/-- Let what is ready in the background run; what it ends with is left to be applied. -/
def runReady (w : Workplace) : Workplace :=
  { w with session := w.session.runReady }

def settle (w : Workplace) : Workplace × Nat :=
  let (session, applied) := w.session.settle
  ({ w with session }, applied)

def pass (w : Workplace) (ms : Nat) : Workplace × Nat :=
  let (session, applied) := w.session.pass ms
  ({ w with session }, applied)

end Workplace

end EngineConsole
