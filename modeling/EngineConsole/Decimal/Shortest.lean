import EngineConsole.Decimal.Binary

/-!
# Shortest decimals

The fewest decimal digits that read back as the same binary number, and of those the nearest. One
count of digits after the other is tried: a value has two neighbours on the grid of that many
digits, and the first grid on which a neighbour reads back decides.
-/

set_option autoImplicit false

namespace EngineConsole.Decimal

/-- Which neighbour is taken when a value lies halfway between two that both read back. -/
inductive Halfway where
  | up
  | even
  deriving DecidableEq

def digitCount (n : Nat) : Nat :=
  (digits n).length

def magnitude (num den : Nat) : Int :=
  if den ≤ num then digitCount (num / den) else 1 - (digitCount ((den - 1) / num) : Int)

def inSteps (num den : Nat) : Int → Nat × Nat
  | .ofNat e => (num, den * Nat.pow 10 e)
  | .negSucc e => (num * Nat.pow 10 (e + 1), den)

/-- The neighbour of a value on the grid of one power of ten that reads back as the value's rank, if
one does; of two the nearer. -/
def onGrid? (f : BinaryFormat) (halfway : Halfway) (rank : Nat) (exponent : Int) : Option Nat :=
  let (num, den) := inSteps (f.units rank) f.one exponent
  let low := num / den
  let readsBack (n : Nat) : Bool :=
    (Binary.ofDecimal ⟨false, n, exponent⟩ : Binary f) = Binary.ofRank false rank
  let twice := 2 * (num % den)
  let upper := den < twice || (twice == den && (halfway == .up || low % 2 == 1))
  if readsBack low then
    if upper && readsBack (low + 1) then some (low + 1) else some low
  else if readsBack (low + 1) then some (low + 1)
  else none

/-- Try the grids of `count + 1`, `count + 2`, … digits, `more` of them. -/
def firstGrid? (f : BinaryFormat) (halfway : Halfway) (rank : Nat) (magnitude : Int) (count : Nat) :
    Nat → Option (Nat × Int)
  | 0 => none
  | more + 1 =>
    let exponent := magnitude - (count + 1)
    match onGrid? f halfway rank exponent with
    | some n => some (n, exponent)
    | none => firstGrid? f halfway rank magnitude (count + 1) more

/-- The value of a rank, digit for digit: a number of units, each `5 ^ scale` of the `scale`-th
decimal place. -/
def exactly (f : BinaryFormat) (rank : Nat) : Nat × Int :=
  (f.units rank * Nat.pow 5 f.scale, -(f.scale : Int))

def stripZeros (coefficient : Nat) (exponent : Int) : Nat × Int :=
  if h : coefficient ≠ 0 ∧ coefficient % 10 = 0 then stripZeros (coefficient / 10) (exponent + 1)
  else (coefficient, exponent)
termination_by coefficient
decreasing_by omega

/-- The shortest decimal of a positive rank as a coefficient and an exponent. Seventeen digits are
enough for either format; past them the exact value would be given. -/
def shortest (f : BinaryFormat) (halfway : Halfway) (rank : Nat) : Nat × Int :=
  let found := firstGrid? f halfway rank (magnitude (f.units rank) f.one) 0 17
  let (coefficient, exponent) := found.getD (exactly f rank)
  stripZeros coefficient exponent

end EngineConsole.Decimal
