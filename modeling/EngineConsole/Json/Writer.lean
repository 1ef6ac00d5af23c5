import EngineConsole.Decimal.Layout

/-!
# Writing JSON

Objects of scalars, either compact or with each member on a line of its own. Strings escape the
quote, the backslash and the controls; numbers use the fewest digits that read back.
-/

set_option autoImplicit false

namespace EngineConsole.Json

def hexPair (n : Nat) : List Char :=
  [Nat.digitChar (n / 16), Nat.digitChar (n % 16)]

def writeChar (c : Char) : List Char :=
  if c = '"' then ['\\', '"']
  else if c = '\\' then ['\\', '\\']
  else if c.toNat < 0x20 then
    if c = '\x08' then ['\\', 'b']
    else if c = '\x0c' then ['\\', 'f']
    else if c = '\n' then ['\\', 'n']
    else if c = '\r' then ['\\', 'r']
    else if c = '\t' then ['\\', 't']
    else ['\\', 'u', '0', '0'] ++ hexPair c.toNat
  else [c]

def writeString (cs : List Char) : List Char :=
  '"' :: (cs.flatMap writeChar ++ ['"'])

def writeFlag (b : Bool) : List Char :=
  if b then ['t', 'r', 'u', 'e'] else ['f', 'a', 'l', 's', 'e']

/-- How doubles are written: positionally from `0.00001` to below ten to the sixteenth, a whole
number with one zero after its point. -/
def numbers : Decimal.Notation := ⟨fun first => -5 ≤ first && first ≤ 15, ['.', '0'], .even⟩

/-- Whole numbers up to this magnitude are written as integers: two to the 53rd. -/
def wholeBound : Nat := 9007199254740992

/-- A double: a whole number up to the bound as an integer, without a sign if it is zero; what is
not finite as null. -/
def writeDouble (x : Double) : List Char :=
  match x.wholeUpTo? wholeBound with
  | some (negative, n) =>
    if negative ∧ n ≠ 0 then '-' :: Decimal.digits n else Decimal.digits n
  | none =>
    match x with
    | .finite negative rank => numbers.finite .double negative rank
    | _ => ['n', 'u', 'l', 'l']

structure Spacing where
  beforeMember : List Char
  afterColon : List Char
  beforeEnd : List Char

def compact : Spacing := ⟨[], [], []⟩

def pretty : Spacing := ⟨['\n', ' ', ' '], [' '], ['\n']⟩

def writeMember (s : Spacing) (key : String) (value : List Char) : List Char :=
  s.beforeMember ++ writeString key.toList ++ ':' :: (s.afterColon ++ value)

def writeMembers (s : Spacing) : List (String × List Char) → List Char
  | [] => []
  | [(key, value)] => writeMember s key value
  | (key, value) :: more => writeMember s key value ++ ',' :: writeMembers s more

def writeObject (s : Spacing) (members : List (String × List Char)) : List Char :=
  if members.isEmpty then ['\x7b', '\x7d']
  else '\x7b' :: (writeMembers s members ++ s.beforeEnd ++ ['\x7d'])

end EngineConsole.Json
