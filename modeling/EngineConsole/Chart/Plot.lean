import EngineConsole.Chart.Window
import EngineConsole.Decimal.Arithmetic
import EngineConsole.Text.Column

/-!
# The chart as text

A heading, then one row per sample: its time, and for each of the two counts the number and a bar
in proportion to the largest count of all.
-/

set_option autoImplicit false

namespace EngineConsole.Chart

def barWidth : Nat := 30

/-- The length of a bar: the quotient by the largest count times the width, each a rounded double,
rounded to a whole number. -/
def barLength (value largest : UInt64) : Nat :=
  if largest = 0 then 0
  else
    Double.round
      (Double.mul (Double.div (.ofNat value.toNat) (.ofNat largest.toNat)) (.ofNat barWidth))

def bar (value largest : UInt64) (mark : Char) : List Char :=
  List.replicate (barLength value largest) mark

def largest (samples : List Sample) : UInt64 :=
  samples.foldl (fun m s => max m (max s.sent s.received)) 0

def row (label sent sentBar received receivedBar : List Char) : List Char :=
  Text.padRight 10 label ++ Text.padLeft 12 sent ++ ' ' :: Text.padRight barWidth sentBar ++
    ' ' :: Text.padLeft 12 received ++ ' ' :: receivedBar

def heading : List Char :=
  row "time".toList "sent".toList [] "received".toList []

def sampleRow (largest : UInt64) (s : Sample) : List Char :=
  row s.label.toList (Decimal.digits s.sent.toNat) (bar s.sent largest '#')
    (Decimal.digits s.received.toNat) (bar s.received largest '=')

def plot (samples : List Sample) : String :=
  String.ofList (Text.joinLines (heading :: samples.map (sampleRow (largest samples))))

end EngineConsole.Chart
