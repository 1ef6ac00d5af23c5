import EngineConsole.Console.Launch
import EngineConsole.Text.Clock
import Std.Time.DateTime.Timestamp

/-!
# The console program

The outer layer: arguments and the environment are read, files are read and written, lines come from
the standard input and texts go to the standard output. While no line has come, the time that passes
is passed on to the session.
-/

set_option autoImplicit false

namespace EngineConsole

def diskAt (path : String) : IO Disk := do
  try
    let bytes ← IO.FS.readBinFile path
    return .ofFiles [(path, bytes.toList)]
  catch
    | .noFileOrDirectory _ _ _ => return .empty
    | _ => return (Disk.makeDirectory .empty path).1

/-- Write the files of a disk that differ from those of an earlier one, each beside its place and
then into it. -/
def writeChanges (before after : Disk) : IO Unit :=
  after.files.forM fun (path, bytes) => do
    if before.read? path != some bytes then
      let draft := SettingsStore.draftPath { path }
      let directory := Path.parent path
      if directory != "" then IO.FS.createDirAll directory
      IO.FS.writeBinFile draft bytes.toByteArray
      IO.FS.rename draft path

def printAll (s : Session) : IO Session := do
  s.printed.forM fun p => IO.print p.text
  (← IO.getStdout).flush
  return { s with printed := [], station.shown := [], station.agenda.begun := [] }

def passTime (s : Session) (since : Nat) : IO (Session × Nat) := do
  let now ← IO.monoMsNow
  let seconds := (← Std.Time.Timestamp.now).toSecondsSinceUnixEpoch.val.toNat
  let s := { s with
    station.clock := Clock.timeOfDay seconds
    station.agenda.uptime := Clock.timestamp seconds }
  return (← printAll (s.pass (now - since)).1, now)

def readLine : IO String := do
  (← IO.getStdin).getLine

def doErrand (exports : String) (s : Session) : Errand → IO Session
  | .ask => do
    let s ← printAll s
    let line ← try readLine catch _ => pure ""
    return s.answered (some line)
  | .read path => do
    let file ← try some <$> IO.FS.readBinFile path catch _ => pure none
    return s.importFile (file.map ByteArray.toList)
  | .offer name contents => do
    let path := Path.join exports name
    let place ←
      try
        if exports != "" then IO.FS.createDirAll exports
        IO.FS.writeFile path contents
        pure (some path)
      catch _ => pure none
    return s.exported place

partial def converse (exports : String) (s : Session) (since : Nat)
    (line : Task (Except IO.Error String)) : IO UInt32 := do
  let (s, since) ← passTime s since
  if ← IO.hasFinished line then
    let (s, turn) :=
      match line.get with
      | .error _ => (s, Turn.unreadable)
      | .ok text => if text.isEmpty then (s, Turn.finished) else s.obey text
    let s := s.remark turn
    let s ←
      match turn with
      | .done (some errand) => doErrand exports s errand
      | _ => pure s
    let s ← printAll s
    match turn.exitCode? with
    | some code => return code.toUInt32
    | none => converse exports s since (← IO.asTask readLine Task.Priority.dedicated)
  else
    IO.sleep 5
    converse exports s since line

def launch (args : List String) : IO UInt32 := do
  let launch := Launch.ofArguments (← IO.getEnv "CLIENTGEN_SETTINGS")
    (← IO.getEnv "CLIENTGEN_BACKEND") args
  let standardPath := SettingsStore.standardPath (← IO.getEnv "HOME")
    (← IO.getEnv "XDG_CONFIG_HOME") none
  let disk ← diskAt (launch.settingsPath standardPath)
  let (after, beginning) := launch.begin standardPath disk
  match beginning with
  | .over text code =>
    IO.print text
    return code.toUInt32
  | .ready settings engine =>
    writeChanges disk after
    let station := Station.ofOptions Engine.form settings.options engine ""
    let session := Session.start station [.line Session.banner]
    converse settings.directory session (← IO.monoMsNow)
      (← IO.asTask readLine Task.Priority.dedicated)

end EngineConsole

def main (args : List String) : IO UInt32 := do
  try EngineConsole.launch args
  catch e =>
    IO.eprintln (toString e)
    return 1
