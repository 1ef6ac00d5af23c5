/-!
# Numerals

A numeral is a number as it is written: a sign, digits with an optional fraction, and an optional
exponent. Its value is a whole coefficient times a power of ten, kept exact whatever its length.
-/

set_option autoImplicit false

namespace EngineConsole

/-- A decimal number: `coefficient * 10 ^ exponent`, negated if `negative`. Zero keeps its sign. -/
structure Decimal where
  negative : Bool
  coefficient : Nat
  exponent : Int
  deriving Repr, DecidableEq

namespace Decimal

def digitValue (c : Char) : Nat :=
  c.toNat - '0'.toNat

def ofDigits (digits : List Char) : Nat :=
  digits.foldl (fun n c => 10 * n + digitValue c) 0

def digits (n : Nat) : List Char :=
  Nat.toDigits 10 n

end Decimal

structure Numeral where
  negative : Bool
  whole : List Char
  fraction : List Char
  exponent : Int
  plain : Bool
  deriving Repr, DecidableEq

namespace Numeral

def value (n : Numeral) : Decimal :=
  ⟨n.negative, Decimal.ofDigits (n.whole ++ n.fraction), n.exponent - n.fraction.length⟩

def takeDigits (cs : List Char) : List Char × List Char :=
  (cs.takeWhile Char.isDigit, cs.dropWhile Char.isDigit)

def takeSign : List Char → Bool × List Char
  | '+' :: rest => (false, rest)
  | '-' :: rest => (true, rest)
  | cs => (false, cs)

/-- The fraction at the head of a text: a point and any digits after it. -/
def takeFraction : List Char → Option (List Char) × List Char
  | '.' :: rest =>
    let (digits, after) := takeDigits rest
    (some digits, after)
  | cs => (none, cs)

/-- The exponent at the head of a text, which must have a digit to count as one. -/
def takeExponent : List Char → Option Int × List Char
  | [] => (none, [])
  | c :: rest =>
    if c = 'e' ∨ c = 'E' then
      let (negative, unsigned) := takeSign rest
      let (digits, after) := takeDigits unsigned
      if digits.isEmpty then (none, c :: rest)
      else
        let size : Int := Decimal.ofDigits digits
        (some (if negative then -size else size), after)
    else (none, c :: rest)

/-- The longest numeral at the head of a text, and what follows it: an optional sign, digits with an
optional fraction or a fraction alone, at least one digit in all, and an optional exponent. -/
def scan? (cs : List Char) : Option (Numeral × List Char) :=
  let (negative, cs) := takeSign cs
  let (whole, cs) := takeDigits cs
  let (fraction, cs) := takeFraction cs
  if whole.isEmpty && (fraction.getD []).isEmpty then none
  else
    let (exponent, cs) := takeExponent cs
    some (⟨negative, whole, fraction.getD [], exponent.getD 0,
      fraction.isNone && exponent.isNone⟩, cs)

end Numeral

end EngineConsole
