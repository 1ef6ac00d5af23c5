import EngineConsole.Decimal.Binary

/-!
# Arithmetic on doubles

Quotients and products of nonnegative finite doubles, each rounded once, and the two ways in which
a double is turned into an integer: tenths with ties to even, and whole numbers with ties up.
-/

set_option autoImplicit false

namespace EngineConsole.Double

/-- The units of a finite double; none for the others. -/
def units : Double → Nat
  | .finite _ rank => BinaryFormat.double.units rank
  | _ => 0

def div (x y : Double) : Double :=
  .ofRatio false (units x) (units y)

def mul (x y : Double) : Double :=
  .ofRatio false (units x * units y) (BinaryFormat.double.one * BinaryFormat.double.one)

/-- A quotient rounded to the nearest integer, from halfway to the even one. -/
def roundEven (num den : Nat) : Nat :=
  let low := num / den
  let twice := 2 * (num % den)
  if den < twice ∨ (twice = den ∧ low % 2 = 1) then low + 1 else low

def tenths (x : Double) : Nat :=
  roundEven (10 * units x) BinaryFormat.double.one

/-- The nearest integer to a nonnegative double, a tie going up. -/
def round (x : Double) : Nat :=
  (2 * units x + BinaryFormat.double.one) / (2 * BinaryFormat.double.one)

end EngineConsole.Double
