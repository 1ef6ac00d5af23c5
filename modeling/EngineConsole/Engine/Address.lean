import EngineConsole.Decimal.Numeral
import EngineConsole.Text.Utf8

/-!
# Web addresses

What a server is asked for when a request is sent to an address, told by the text that follows the
server's name in it. A path is asked for with its dots resolved and a query as it stands, both with
the characters encoded that may not stand in them; a fragment is kept back.
-/

set_option autoImplicit false

namespace EngineConsole.Address

/-! ## Characters -/

def isDropped (c : Char) : Bool :=
  c == '\t' || c == '\n' || c == '\r'

def isSlash (c : Char) : Bool :=
  c == '/' || c == '\\'

def endsPath (c : Char) : Bool :=
  c == '?' || c == '#'

def isPlainBut (reserved : String) (c : Char) : Bool :=
  0x21 ≤ c.toNat && c.toNat ≤ 0x7E && !reserved.toList.contains c

def isPathChar (c : Char) : Bool :=
  isPlainBut "\"#<>?\x60\x7b\x7d" c

def isQueryChar (c : Char) : Bool :=
  isPlainBut "\"#<>'" c

/-- A byte by its number: a percent sign and two hexadecimal digits. -/
def encodeByte (b : UInt8) : List Char :=
  let digit (n : Nat) : Char := (Nat.digitChar n).toUpper
  ['%', digit (b.toNat / 16), digit (b.toNat % 16)]

def encode (isAllowed : Char → Bool) (cs : List Char) : List Char :=
  cs.flatMap fun c =>
    if isAllowed c then [c] else (Text.encode (String.singleton c)).flatMap encodeByte

/-! ## Paths -/

def segments : List Char → List (List Char)
  | [] => [[]]
  | c :: rest =>
    if isSlash c then [] :: segments rest
    else
      match segments rest with
      | [] => [[c]]
      | segment :: more => (c :: segment) :: more

def decodePoints : List Char → List Char
  | '%' :: '2' :: 'e' :: rest => '.' :: decodePoints rest
  | '%' :: '2' :: 'E' :: rest => '.' :: decodePoints rest
  | c :: rest => c :: decodePoints rest
  | [] => []

/-- Whether a segment names a drive, which no path leads out of. -/
def isDrive : List Char → Bool
  | [letter, mark] => letter.isAlpha && (mark == ':' || mark == '|')
  | _ => false

/-- Segments without their last one, of which the last comes first. -/
def leave : List (List Char) → List (List Char)
  | [] => []
  | last :: before => if isDrive last then last :: before else before

/-- Segments behind others, of which the last comes first, with those resolved that stand for the
same place or for the one above. A path that ends in such a segment ends in a slash. -/
def resolve (before : List (List Char)) : List (List Char) → List (List Char)
  | [] => before.reverse
  | segment :: more =>
    let close (before : List (List Char)) := if more.isEmpty then [] :: before else before
    if decodePoints segment = ['.'] then resolve (close before) more
    else if decodePoints segment = ['.', '.'] then resolve (close (leave before)) more
    else resolve (segment :: before) more

/-- A path as it is asked for. It begins with a slash even if there is none. -/
def path (cs : List Char) : List Char :=
  '/' :: encode isPathChar (['/'].intercalate (resolve [] (segments (cs.drop 1))))

/-! ## Hosts -/

def isHostChar (c : Char) : Bool :=
  c.isAlphanum || 0x80 ≤ c.toNat || "-._~!$&'()*+,;=".toList.contains c

/-- Whether a text names a port: nothing, or a number below 65536. -/
def isPort (cs : List Char) : Bool :=
  cs.all Char.isDigit && Decimal.ofDigits cs < 65536

/-- Whether a text may follow the name of a server before any path: more of its name, the name of
another server after an account, and a port. -/
def canFollowHost (cs : List Char) : Bool :=
  let host := (cs.reverse.takeWhile (· != '@')).reverse
  let name := host.takeWhile (· != ':')
  let hasAccount := cs.contains '@'
  name.all isHostChar && !(hasAccount && name.isEmpty) &&
    isPort ((host.dropWhile (· != ':')).drop 1)

/-! ## Requests -/

/-- What a server is asked for at an address that goes on after the server's name with a text; none
if no server can be at such an address. -/
def target? (text : String) : Option String :=
  let cs := text.toList.filter (!isDropped ·)
  let isBeyond (c : Char) : Bool := isSlash c || endsPath c
  let rest := cs.dropWhile (!isBeyond ·)
  let query := (rest.dropWhile (!endsPath ·)).takeWhile (· != '#')
  if canFollowHost (cs.takeWhile (!isBeyond ·)) then
    some (String.ofList (path (rest.takeWhile (!endsPath ·)) ++ encode isQueryChar query))
  else none

end EngineConsole.Address
