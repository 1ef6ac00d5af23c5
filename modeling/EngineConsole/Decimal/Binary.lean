import EngineConsole.Decimal.Numeral

/-!
# Binary floating numbers

The finite magnitudes of a binary format, in ascending order from zero, are numbered by their
*rank*. Every magnitude is a whole number of *units*, the smallest positive magnitude, so values are
compared and rounded in exact integer arithmetic. Rounding goes to the nearest magnitude, and from
halfway to the one of even rank.
-/

set_option autoImplicit false

namespace EngineConsole

structure BinaryFormat where
  fractionBits : Nat
  /-- The smallest positive magnitude is `2 ^ -scale`. -/
  scale : Nat
  /-- Exponents of finite magnitudes, the subnormal one included. -/
  binades : Nat

namespace BinaryFormat

def double : BinaryFormat := ⟨52, 1074, 2047⟩

def single : BinaryFormat := ⟨23, 149, 255⟩

variable (f : BinaryFormat)

def step : Nat := 1 <<< f.fractionBits

def ranks : Nat := f.binades * f.step

def one : Nat := 1 <<< f.scale

def units (rank : Nat) : Nat :=
  if rank < f.step then rank else (f.step + rank % f.step) <<< (rank / f.step - 1)

/-- The rank nearest to a quotient of units, of two equally near the even one. -/
def nearestRank (num den : Nat) : Nat :=
  let shift := (num / den).log2 - f.fractionBits
  let den := den <<< shift
  let low := shift * f.step + num / den
  let twice := 2 * (num % den)
  if den < twice ∨ (twice = den ∧ low % 2 = 1) then low + 1 else low

end BinaryFormat

inductive Binary (f : BinaryFormat) where
  | nan
  | infinite (negative : Bool)
  | finite (negative : Bool) (rank : Fin f.ranks)
  deriving DecidableEq

abbrev Double := Binary .double

abbrev Single := Binary .single

namespace Binary

variable {f : BinaryFormat}

/-- The number of a rank, infinite from the first rank that is not finite. -/
def ofRank (negative : Bool) (rank : Nat) : Binary f :=
  if h : rank < f.ranks then .finite negative ⟨rank, h⟩ else .infinite negative

def ofRatio (negative : Bool) (num den : Nat) : Binary f :=
  ofRank negative (f.nearestRank (num * f.one) den)

def ofNat (n : Nat) : Binary f :=
  ofRatio false n 1

/-- The number nearest to a decimal. A coefficient with an exponent past all binades is infinite,
and one that stays below a tenth of a unit is zero, whatever its other digits. -/
def ofDecimal (d : Decimal) : Binary f :=
  match d.exponent with
  | .ofNat e =>
    if d.coefficient = 0 then ofRank d.negative 0
    else if f.binades < e then .infinite d.negative
    else ofRatio d.negative (d.coefficient * Nat.pow 10 e) 1
  | .negSucc e =>
    if d.coefficient.log2 + 1 + f.scale < e then ofRank d.negative 0
    else ofRatio d.negative d.coefficient (Nat.pow 10 (e + 1))

def isFinite : Binary f → Bool
  | .finite _ _ => true
  | _ => false

def isZero : Binary f → Bool
  | .finite _ rank => rank.val == 0
  | _ => false

/-- Equality of numbers: both zeros are equal, and an undefined number equals none. -/
def same (x y : Binary f) : Bool :=
  match x, y with
  | .nan, _ => false
  | _, .nan => false
  | x, y => x == y || (x.isZero && y.isZero)

def wholeUpTo? (bound : Nat) : Binary f → Option (Bool × Nat)
  | .finite negative rank =>
    let units := f.units rank
    if units % f.one = 0 ∧ units / f.one ≤ bound then some (negative, units / f.one) else none
  | _ => none

end Binary

end EngineConsole
