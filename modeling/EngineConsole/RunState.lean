import EngineConsole.Json.Reader
import EngineConsole.Json.Writer

/-!
# Running or not

Whether the engine runs as far as the console knows, how that is shown, and what the engine itself
answers when it is asked.
-/

set_option autoImplicit false

namespace EngineConsole

inductive RunState where
  | stopped
  | running
  deriving Repr, DecidableEq

inductive ButtonStyle where
  | success
  | danger
  deriving Repr, DecidableEq

structure Button where
  label : String
  style : ButtonStyle
  deriving Repr, DecidableEq

namespace RunState

def toggled : RunState → RunState
  | .stopped => .running
  | .running => .stopped

def isRunning : RunState → Bool
  | .stopped => false
  | .running => true

def ofRunning (running : Bool) : RunState :=
  if running then .running else .stopped

def glyph : Char := '●'

def label : RunState → String
  | .stopped => "Stopped"
  | .running => "Running"

def button : RunState → Button
  | .stopped => ⟨"▶ Start", .success⟩
  | .running => ⟨"⏹ Stop", .danger⟩

@[simp] theorem isRunning_toggled (s : RunState) : s.toggled.isRunning = !s.isRunning := by
  cases s <;> rfl

end RunState

structure EngineStatus where
  running : Bool
  uptime : String
  deriving Repr, DecidableEq

namespace EngineStatus

open Json (Flaw Input)

structure Draft where
  running : Option Bool := none
  uptime : Option String := none

def readFlag (input : Input) : Except Flaw (Bool × Input) := do
  let (t, rest) ← Json.token input
  match t with
  | .scalar (.flag b) => .ok (b, rest)
  | _ => .error .unfit

def readText (input : Input) : Except Flaw (String × Input) := do
  let (t, rest) ← Json.token input
  match t with
  | .scalar (.text cs) => .ok (String.ofList cs, rest)
  | _ => .error .unfit

/-- Read a member. A known name may come once; an unknown one is passed over with its value. -/
def member (d : Draft) (key : String) (input : Input) : Except Flaw (Draft × Input) :=
  if key = "running" then
    if d.running.isSome then .error .unfit
    else do
      let (b, rest) ← readFlag (← Json.colon input)
      .ok (⟨some b, d.uptime⟩, rest)
  else if key = "uptime" then
    if d.uptime.isSome then .error .unfit
    else do
      let (s, rest) ← readText (← Json.colon input)
      .ok (⟨d.running, some s⟩, rest)
  else do
    let rest ← Json.passValue .form (← Json.colon input)
    .ok (d, rest)

/-- A status without an uptime has an empty one; it cannot be without its state. -/
def ofDraft (d : Draft) : Except Flaw EngineStatus :=
  match d.running with
  | some running => .ok ⟨running, d.uptime.getD ""⟩
  | none => .error .unfit

def listed (input : Input) : Except Flaw (EngineStatus × Input) := do
  match Json.skipSpace input with
  | [] => .error .cutShort
  | .char ']' :: _ => .error .unfit
  | _ =>
    let (running, rest) ← readFlag input
    match Json.skipSpace rest with
    | [] => .error .cutShort
    | .char ']' :: rest => .ok (⟨running, ""⟩, rest)
    | .char ',' :: rest =>
      match Json.skipSpace rest with
      | [] => .error .cutShort
      | .char ']' :: _ => .error .malformed
      | _ =>
        let (uptime, rest) ← readText rest
        match Json.skipSpace rest with
        | [] => .error .cutShort
        | .char ']' :: rest => .ok (⟨running, uptime⟩, rest)
        | _ => .error .malformed
    | _ => .error .malformed

/-- Read a status, which is an object or a list. An object that lacks the state is unfit whatever
follows it. -/
def read (input : Input) : Except Flaw EngineStatus := do
  let (t, rest) ← Json.token input
  match t with
  | .opening .object =>
    let (d, rest) ← Json.members member {} .opened rest
    let status ← ofDraft d
    Json.finish (.ok (status, rest))
  | .opening .list => Json.finish (listed rest)
  | .scalar _ => .error .unfit

def parse (text : String) : Except Flaw EngineStatus :=
  read (Text.glyphs text)

def compact (s : EngineStatus) : String :=
  String.ofList <| Json.writeObject Json.compact
    [("running", Json.writeFlag s.running), ("uptime", Json.writeString s.uptime.toList)]

end EngineStatus

end EngineConsole
