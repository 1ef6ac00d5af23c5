import EngineConsole.Decimal.Arithmetic

/-!
# The doubles of numbers

A number of a document is turned into a double in three roundings: as many of its digits as 64 bits
hold become one double, a power of ten becomes another, and the two are multiplied or divided. What
comes of it is near the number, and not always nearest to it.
-/

set_option autoImplicit false

namespace EngineConsole.Json

def significandBound : Nat := 0xFFFFFFFFFFFFFFFF

/-- Add digits to a significand as long as it fits in 64 bits, and give back those that are left. -/
def gather (significand : Nat) : List Char → Nat × List Char
  | [] => (significand, [])
  | c :: more =>
    let next := 10 * significand + Decimal.digitValue c
    if next ≤ significandBound then gather next more else (significand, c :: more)

/-- The significand and the exponent of a numeral. Digits before the point that do not fit any more
are only counted. Those after it are tried again, and dropped if they do not fit. -/
def parts (n : Numeral) : Nat × Int :=
  let (whole, counted) := gather 0 n.whole
  let (significand, dropped) := gather whole n.fraction
  (significand, n.exponent + counted.length - ((n.fraction.length - dropped.length : Nat) : Int))

/-- The largest power of ten that is a double. -/
def largestPower : Nat := 308

def power (e : Nat) : Double :=
  .ofNat (Nat.pow 10 e)

/-- Divide by the largest power of ten a number of times, or until nothing is left, and then by a
smaller one. -/
def divided (x : Double) (rest : Nat) : Nat → Double
  | 0 => x.div (power rest)
  | times + 1 => if x.isZero then x else divided (x.div (power largestPower)) rest times

/-- A significand scaled by a power of ten, infinite if that is too large. -/
def scaled (significand : Nat) : Int → Double
  | .ofNat e =>
    if e ≤ largestPower then Double.mul (.ofNat significand) (power e)
    else if significand = 0 then .ofNat 0
    else .infinite false
  | .negSucc e => divided (.ofNat significand) (e % largestPower + 1) (e / largestPower)

/-- The double that a numeral of a document is read as; none if the numeral is too large. -/
def double? (n : Numeral) : Option Double :=
  let (significand, exponent) := parts n
  match scaled significand exponent with
  | .finite _ rank => some (.finite n.negative rank)
  | _ => none

end EngineConsole.Json
