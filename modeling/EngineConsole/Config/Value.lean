import EngineConsole.Decimal.Layout
import EngineConsole.Json.Writer

/-!
# Option values

An engine option holds a truth value, a number or a text.
-/

set_option autoImplicit false

namespace EngineConsole

inductive Value where
  | flag (value : Bool)
  | number (value : Double)
  | text (value : String)
  deriving DecidableEq

namespace Value

/-- Whether a value ticks a checkbox: a true flag, a number that is neither zero nor undefined, a
text that is not empty. -/
def truthy : Value → Bool
  | .flag b => b
  | .number x => !x.isZero && x != .nan
  | .text s => !s.isEmpty

def display : Value → String
  | .flag b => if b then "true" else "false"
  | .number x => x.display
  | .text s => s

def json : Value → List Char
  | .flag b => Json.writeFlag b
  | .number x => Json.writeDouble x
  | .text s => Json.writeString s.toList

/-- Equality of values, numbers being compared as numbers. -/
def same : Value → Value → Bool
  | .number x, .number y => x.same y
  | v, w => v == w

def isFinite : Value → Bool
  | .number x => x.isFinite
  | _ => true

def flag? : Value → Option Bool
  | .flag b => some b
  | _ => none

def number? : Value → Option Double
  | .number x => some x
  | _ => none

def text? : Value → Option String
  | .text s => some s
  | _ => none

end Value

end EngineConsole
