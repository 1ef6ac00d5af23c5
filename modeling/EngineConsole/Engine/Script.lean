import EngineConsole.Engine.Request

/-!
# Scripted answers

A script holds answers for requests in advance, a list for each kind of request. Each request takes
the next entry of its kind; when the list is used up, the engine answers.
-/

set_option autoImplicit false

namespace EngineConsole

inductive Scripted where
  | crash
  | fail (f : Failure)
  | answer (body : String)
  | engine
  deriving Repr, DecidableEq

structure ScriptEntry where
  /-- How long the request takes before it ends, or before the engine sees it. -/
  delay : Nat
  ending : Scripted
  deriving Repr, DecidableEq

/-- The entries that are left for each kind of request. -/
abbrev Script := Request.Kind → List ScriptEntry

namespace Script

def empty : Script := fun _ => []

/-- The next entry for a kind of request, and the script without it. Past the end the engine answers
at once. -/
def next (s : Script) (kind : Request.Kind) : ScriptEntry × Script :=
  match s kind with
  | [] => (⟨0, .engine⟩, s)
  | entry :: rest => (entry, fun k => if k = kind then rest else s k)

end Script

def Scripted.completion? (s : Scripted) (r : Request) : Option Completion :=
  match s with
  | .fail f => some (r.failed f)
  | .answer body =>
    match r with
    | .loadConfig | .fetchStats | .askStatus => some (r.answered (Text.glyphs body))
    | .saveConfig _ | .clearStats | .start | .stop => none
  | .crash => none
  | .engine => none

end EngineConsole
