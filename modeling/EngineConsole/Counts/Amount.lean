import EngineConsole.Decimal.Arithmetic

/-!
# Short amounts

How a gauge shows a count: as it is below a thousand, else in thousands or millions with one
decimal. The quotient is a double, and its decimal is rounded from the exact value of that double.
-/

set_option autoImplicit false

namespace EngineConsole.Counts

def inUnits (value unit : Nat) (mark : Char) : List Char :=
  let tenths := Double.tenths (Double.div (.ofNat value) (.ofNat unit))
  Decimal.digits (tenths / 10) ++ ['.'] ++ Decimal.digits (tenths % 10) ++ [mark]

def amount (value : UInt64) : String :=
  let n := value.toNat
  String.ofList <|
    if 1000000 ≤ n then inUnits n 1000000 'M'
    else if 1000 ≤ n then inUnits n 1000 'K'
    else Decimal.digits n

end EngineConsole.Counts
