import EngineConsole.Decimal.Shortest

/-!
# Layouts of numbers

How chosen digits are written: positionally, or with one digit before the point and an exponent.
What distinguishes one notation from another is a record of its decisions.
-/

set_option autoImplicit false

namespace EngineConsole.Decimal

def positional (ds : List Char) (first : Int) : List Char × List Char :=
  match first with
  | .ofNat p =>
    (ds.take (p + 1) ++ List.replicate (p + 1 - ds.length) '0', ds.drop (p + 1))
  | .negSucc p => (['0'], List.replicate p '0' ++ ds)

/-- A whole part and a fraction; an empty fraction is written as the notation says. -/
def withPoint (parts : List Char × List Char) (emptyFraction : List Char) : List Char :=
  if parts.2.isEmpty then parts.1 ++ emptyFraction else parts.1 ++ '.' :: parts.2

def signed : Int → List Char
  | .ofNat n => '+' :: digits n
  | .negSucc n => '-' :: digits (n + 1)

structure Notation where
  isPositional : Int → Bool
  emptyFraction : List Char
  halfway : Halfway

def Notation.magnitude (style : Notation) (f : BinaryFormat) (rank : Nat) : List Char :=
  let (coefficient, exponent) := shortest f style.halfway rank
  let ds := digits coefficient
  let first := exponent + ds.length - 1
  if style.isPositional first then withPoint (positional ds first) style.emptyFraction
  else withPoint (ds.take 1, ds.drop 1) [] ++ 'e' :: signed first

def Notation.finite (style : Notation) (f : BinaryFormat) (negative : Bool) (rank : Nat) :
    List Char :=
  (if negative then ['-'] else []) ++
    if rank = 0 then '0' :: style.emptyFraction else style.magnitude f rank

/-- How numbers are shown to the operator: always positionally, a whole number without a point. -/
def shown : Notation := ⟨fun _ => true, [], .up⟩

end EngineConsole.Decimal

namespace EngineConsole.Binary

def display {f : BinaryFormat} : Binary f → String
  | .nan => "NaN"
  | .infinite negative => if negative then "-inf" else "inf"
  | .finite negative rank => String.ofList (Decimal.shown.finite f negative rank)

/-- The number written as a numeral with nothing after it, or as one of the three words of
`display`. -/
def read? {f : BinaryFormat} (s : String) : Option (Binary f) :=
  if s = "NaN" then some .nan
  else if s = "inf" then some (.infinite false)
  else if s = "-inf" then some (.infinite true)
  else
    match Numeral.scan? s.toList with
    | some (numeral, []) => some (.ofDecimal numeral.value)
    | _ => none

end EngineConsole.Binary
