import EngineConsole.Settings.LogLevel

/-!
# Arguments

The console is launched with arguments, read from left to right. Options are set once at most; a
value stands behind its option, after an equals sign or as the next argument. The first argument
that cannot be understood, or that asks for help or for the release, decides.
-/

set_option autoImplicit false

namespace EngineConsole

structure Choices where
  settings : Option String := none
  server : Option String := none
  simulate : Bool := false
  level : Option LogLevel := none
  serialize : Bool := false
  deriving Repr, DecidableEq

inductive Launch where
  | run (choices : Choices)
  | tellHelp
  | tellVersion
  | refused
  deriving Repr, DecidableEq

namespace Launch

inductive Switch where
  | settings
  | server
  | level
  | simulate
  | serialize
  | help
  | version
  deriving Repr, DecidableEq

def Switch.names : List (String × Switch) :=
  [("settings", .settings), ("backend", .server), ("simulate", .simulate), ("log-level", .level),
    ("serialize-polls", .serialize), ("help", .help), ("version", .version)]

def Switch.ofLetter? : Char → Option Switch
  | 's' => some .settings
  | 'b' => some .server
  | 'l' => some .level
  | 'h' => some .help
  | 'V' => some .version
  | _ => none

def Switch.hasValue : Switch → Bool
  | .settings | .server | .level => true
  | .simulate | .serialize | .help | .version => false

/-- Set an option that has a value, none if it was set before or the value does not suit it. -/
def choose (c : Choices) (switch : Switch) (value : String) : Option Choices :=
  match switch with
  | .settings =>
    if c.settings.isSome ∨ value.isEmpty then none else some { c with settings := some value }
  | .server => if c.server.isSome then none else some { c with server := some value }
  | .level =>
    match c.level, LogLevel.parse? value with
    | none, some level => some { c with level := some level }
    | _, _ => none
  | _ => none

/-- What an option without a value does: it sets something, none if it was set before, or it
decides. -/
def flip (c : Choices) (switch : Switch) : Except Launch Choices :=
  match switch with
  | .simulate => if c.simulate then .error .refused else .ok { c with simulate := true }
  | .serialize => if c.serialize then .error .refused else .ok { c with serialize := true }
  | .help => .error .tellHelp
  | .version => .error .tellVersion
  | _ => .error .refused

def isValue (arg : List Char) : Bool :=
  arg.head? != some '-' || arg == ['-']

def attached (cs : List Char) : List Char :=
  if cs.head? = some '=' then cs.tail else cs

/-- What an argument of letters says: all without a value up to the first that has one, and that
one with what is attached to it. -/
def letters (c : Choices) : List Char → Except Launch (Choices × Option (Switch × List Char))
  | [] => .ok (c, none)
  | letter :: rest =>
    match Switch.ofLetter? letter with
    | none => .error .refused
    | some switch =>
      if switch.hasValue then .ok (c, some (switch, rest))
      else do
        let c ← flip c switch
        letters c rest

inductive Argument where
  | complete (c : Choices)
  | expects (c : Choices) (switch : Switch)

def set (c : Choices) (switch : Switch) (value : List Char) : Except Launch Argument :=
  match choose c switch (String.ofList value) with
  | some c => .ok (.complete c)
  | none => .error .refused

def argument (c : Choices) : List Char → Except Launch Argument
  | '-' :: '-' :: name =>
    let value := name.dropWhile (· != '=')
    match Switch.names.lookup (String.ofList (name.takeWhile (· != '='))) with
    | none => .error .refused
    | some switch =>
      if switch.hasValue then
        if value.isEmpty then .ok (.expects c switch) else set c switch value.tail
      else if value.isEmpty then return .complete (← flip c switch)
      else .error .refused
  | '-' :: cs =>
    if cs.isEmpty then .error .refused
    else
      match letters c cs with
      | .error launch => .error launch
      | .ok (c, none) => .ok (.complete c)
      | .ok (c, some (switch, [])) => .ok (.expects c switch)
      | .ok (c, some (switch, value)) => set c switch (attached value)
  | _ => .error .refused

/-- Understand arguments from left to right. Two hyphens alone end the options, and nothing may
follow them. -/
def arguments (c : Choices) : List (List Char) → Except Launch Choices
  | [] => .ok c
  | [['-', '-']] => .ok c
  | arg :: rest => do
    match ← argument c arg with
    | .complete c => arguments c rest
    | .expects c switch =>
      match rest with
      | [] => .error .refused
      | value :: rest =>
        if isValue value then
          match choose c switch (String.ofList value) with
          | some c => arguments c rest
          | none => .error .refused
        else .error .refused

/-- What arguments ask for, given the settings file and the server of the environment, which stand
in for arguments that are not there. An engine cannot be simulated and be at a server. -/
def ofArguments (settings server : Option String) (args : List String) : Launch :=
  match arguments {} (args.map String.toList) with
  | .error launch => launch
  | .ok c =>
    if c.settings = none ∧ settings = some "" then .refused
    else
      let c := { c with
        settings := c.settings.or settings
        server := c.server.or server }
      if c.simulate ∧ c.server.isSome then .refused else .run c

end Launch

end EngineConsole
