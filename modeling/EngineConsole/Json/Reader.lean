import EngineConsole.Json.Number
import EngineConsole.Text.Utf8

/-!
# Reading JSON

A document is read from left to right, and the first flaw found is the answer. The reader works on
glyphs, so that bytes which are no text are found where they stand: outside a string they fit
nowhere, and a string that holds them is malformed once it is closed.

Only flat documents are of interest. A list or object in place of a scalar is passed over, not
built; it still has to be well formed to the depth that documents may have.
-/

set_option autoImplicit false

namespace EngineConsole.Json

open Text (Glyph)

inductive Flaw where
  | cutShort
  | malformed
  /-- It is JSON so far, and not what was asked for. -/
  | unfit
  deriving Repr, DecidableEq

abbrev Input := List Glyph

def isSpace (c : Char) : Bool :=
  c == ' ' || c == '\t' || c == '\n' || c == '\r'

def skipSpace : Input → Input
  | .char c :: rest => if isSpace c then skipSpace rest else .char c :: rest
  | input => input

def word : List Char → Input → Except Flaw Input
  | [], rest => .ok rest
  | _ :: _, [] => .error .cutShort
  | c :: cs, g :: rest => if g = .char c then word cs rest else .error .malformed

/-! ## Strings -/

def hexValue? (c : Char) : Option Nat :=
  if c.isDigit then some (c.toNat - '0'.toNat)
  else if 'a' ≤ c ∧ c ≤ 'f' then some (c.toNat - 'a'.toNat + 10)
  else if 'A' ≤ c ∧ c ≤ 'F' then some (c.toNat - 'A'.toNat + 10)
  else none

def hasBytes (n : Nat) : Input → Bool
  | [] => n == 0
  | g :: rest => n == 0 || hasBytes (n - g.width) rest

def hexQuad (input : Input) : Except Flaw Nat :=
  if hasBytes 4 input then
    match (input.take 4).mapM fun g => g.char?.bind hexValue? with
    | some [a, b, c, d] => .ok (((a * 16 + b) * 16 + c) * 16 + d)
    | _ => .error .malformed
  else .error .cutShort

/-- Read the rest of an escape by number, after its `u`: the character and how many glyphs it took.
A code point past U+FFFF is given by two surrogates, and neither surrogate may stand alone. -/
def escapedCode (input : Input) : Except Flaw (Char × Nat) := do
  let high ← hexQuad input
  if 0xDC00 ≤ high ∧ high ≤ 0xDFFF then .error .malformed
  else if high < 0xD800 ∨ 0xDBFF < high then .ok (Char.ofNat high, 4)
  else
    let rest ← word ['\\', 'u'] (input.drop 4)
    let low ← hexQuad rest
    if low < 0xDC00 ∨ 0xDFFF < low then .error .malformed
    else .ok (Char.ofNat ((high - 0xD800) * 0x400 + (low - 0xDC00) + 0x10000), 10)

def escapedLetter? : Char → Option Char
  | '"' => some '"'
  | '\\' => some '\\'
  | '/' => some '/'
  | 'b' => some '\x08'
  | 'f' => some '\x0c'
  | 'n' => some '\n'
  | 'r' => some '\r'
  | 't' => some '\t'
  | _ => none

/-- Read the rest of an escape: the character and how many glyphs it took. -/
def escape : Input → Except Flaw (Char × Nat)
  | [] => .error .cutShort
  | .stray _ :: _ => .error .malformed
  | .char c :: rest =>
    if c = 'u' then do
      let (decoded, taken) ← escapedCode rest
      .ok (decoded, taken + 1)
    else
      match escapedLetter? c with
      | some decoded => .ok (decoded, 1)
      | none => .error .malformed

def string (input : Input) : Except Flaw (List Char × Input) :=
  match input with
  | [] => .error .cutShort
  | .stray _ :: rest => do
    let _ ← string rest
    .error .malformed
  | .char c :: rest =>
    if c = '"' then .ok ([], rest)
    else if c = '\\' then do
      let (decoded, taken) ← escape rest
      let (cs, after) ← string (rest.drop taken)
      .ok (decoded :: cs, after)
    else if c.toNat < 0x20 then .error .malformed
    else do
      let (cs, after) ← string rest
      .ok (c :: cs, after)
termination_by input.length
decreasing_by all_goals (simp only [List.length_cons, List.length_drop]; omega)

/-- Pass over the rest of a string that nobody asked for: only the form of its escapes counts. -/
def passString (input : Input) : Except Flaw Input :=
  match input with
  | [] => .error .cutShort
  | .stray _ :: rest => passString rest
  | .char c :: rest =>
    if c = '"' then .ok rest
    else if c = '\\' then
      match rest with
      | .char 'u' :: more => do
        let _ ← hexQuad more
        passString (more.drop 4)
      | .char e :: more => if (escapedLetter? e).isSome then passString more else .error .malformed
      | .stray _ :: _ => .error .malformed
      | [] => .error .cutShort
    else if c.toNat < 0x20 then .error .malformed
    else passString rest
termination_by input.length
decreasing_by all_goals (simp only [List.length_cons, List.length_drop]; omega)

/-! ## Numbers -/

def takeDigits : Input → List Char × Input
  | .char c :: rest =>
    if c.isDigit then
      let (digits, after) := takeDigits rest
      (c :: digits, after)
    else ([], .char c :: rest)
  | input => ([], input)

def someDigits (input : Input) : Except Flaw (List Char × Input) :=
  match takeDigits input with
  | ([], []) => .error .cutShort
  | ([], _ :: _) => .error .malformed
  | (digits, rest) => .ok (digits, rest)

def fraction : Input → Except Flaw (Option (List Char) × Input)
  | .char '.' :: rest => do
    let (digits, after) ← someDigits rest
    .ok (some digits, after)
  | input => .ok (none, input)

def takeSign : Input → Bool × Input
  | .char '+' :: rest => (false, rest)
  | .char '-' :: rest => (true, rest)
  | input => (false, input)

def exponent : Input → Except Flaw (Option Int × Input)
  | .char c :: rest =>
    if c = 'e' ∨ c = 'E' then do
      let (negative, unsigned) := takeSign rest
      let (digits, after) ← someDigits unsigned
      let size : Int := Decimal.ofDigits digits
      .ok (some (if negative then -size else size), after)
    else .ok (none, .char c :: rest)
  | input => .ok (none, input)

def takeMinus : Input → Bool × Input
  | .char '-' :: rest => (true, rest)
  | input => (false, input)

/-- Read a number: a minus sign or none, a whole part without extra zeros, and any fraction and
exponent. -/
def numeral (input : Input) : Except Flaw (Numeral × Input) := do
  let (negative, input) := takeMinus input
  let (whole, input) ← someDigits input
  if whole.head? = some '0' ∧ whole.length ≠ 1 then .error .malformed
  else
    let (fraction, input) ← fraction input
    let (exponent, input) ← exponent input
    .ok (⟨negative, whole, fraction.getD [], exponent.getD 0,
      fraction.isNone && exponent.isNone⟩, input)

/-! ## Tokens -/

inductive Scalar where
  | null
  | flag (value : Bool)
  | number (value : Numeral)
  | text (value : List Char)
  deriving Repr, DecidableEq

inductive Bracket where
  | list
  | object
  deriving Repr, DecidableEq

def Bracket.closing : Bracket → Char
  | .list => ']'
  | .object => '}'

/-- The beginning of a value: all of a scalar, or an opening bracket. -/
inductive Token where
  | scalar (value : Scalar)
  | opening (bracket : Bracket)
  deriving Repr, DecidableEq

/-- Read a number that has a double; one that is too large is malformed. -/
def number (input : Input) : Except Flaw (Token × Input) := do
  let (n, rest) ← numeral input
  if (double? n).isSome then .ok (.scalar (.number n), rest) else .error .malformed

def token (input : Input) : Except Flaw (Token × Input) :=
  match skipSpace input with
  | [] => .error .cutShort
  | .stray _ :: _ => .error .malformed
  | .char c :: rest =>
    match c with
    | '{' => .ok (.opening .object, rest)
    | '[' => .ok (.opening .list, rest)
    | '"' => do
      let (cs, after) ← string rest
      .ok (.scalar (.text cs), after)
    | 'n' => do
      let after ← word ['u', 'l', 'l'] rest
      .ok (.scalar .null, after)
    | 't' => do
      let after ← word ['r', 'u', 'e'] rest
      .ok (.scalar (.flag true), after)
    | 'f' => do
      let after ← word ['a', 'l', 's', 'e'] rest
      .ok (.scalar (.flag false), after)
    | c => if c = '-' ∨ c.isDigit then number (.char c :: rest) else .error .malformed

def colon (input : Input) : Except Flaw Input :=
  match skipSpace input with
  | [] => .error .cutShort
  | g :: rest => if g = .char ':' then .ok rest else .error .malformed

/-! ## Passing over nested values -/

inductive Care where
  /-- As if it were read: strings must decode, numbers must fit, brackets must not be too many. -/
  | full
  | form
  deriving Repr, DecidableEq

/-- How many brackets may be open at once in a document that is read. -/
def depthLimit : Nat := 127

/-- The beginning of a value that is passed over: an opening bracket, or none after a scalar. -/
def passToken (care : Care) (input : Input) : Except Flaw (Option Bracket × Input) :=
  match care with
  | .full => do
    let (t, rest) ← token input
    match t with
    | .scalar _ => .ok (none, rest)
    | .opening bracket => .ok (some bracket, rest)
  | .form =>
    match skipSpace input with
    | .char '"' :: rest => do
      let after ← passString rest
      .ok (none, after)
    | .char c :: rest =>
      if c = '-' ∨ c.isDigit then
        match numeral (.char c :: rest) with
        | .ok (_, after) => .ok (none, after)
        | .error _ => .error .malformed
      else do
        let (t, rest) ← token (.char c :: rest)
        match t with
        | .scalar _ => .ok (none, rest)
        | .opening bracket => .ok (some bracket, rest)
    | [] => .error .cutShort
    | .stray _ :: _ => .error .malformed

def passKey (care : Care) (input : Input) : Except Flaw Input :=
  match skipSpace input with
  | [] => .error .cutShort
  | g :: rest =>
    if g = .char '"' then
      match care with
      | .full => do
        let (_, after) ← string rest
        colon after
      | .form => do
        let after ← passString rest
        colon after
    else .error .malformed

inductive Spot where
  | opened
  | next
  | done
  deriving Repr, DecidableEq

def passRest (care : Care) (spot : Spot) (stack : List Bracket) (input : Input) :
    Except Flaw Input :=
  match stack with
  | [] => .ok input
  | bracket :: outer =>
    match skipSpace input with
    | [] => .error .cutShort
    | g :: rest =>
      if g = .char bracket.closing ∧ spot ≠ .next then
        if rest.length < input.length then passRest care .done outer rest else .error .malformed
      else if spot = .done then
        if g = .char ',' then
          if rest.length < input.length then passRest care .next stack rest else .error .malformed
        else .error .malformed
      else do
        let item ← match bracket with
          | .list => .ok (g :: rest)
          | .object => passKey care (g :: rest)
        let (nested, after) ← passToken care item
        if after.length < input.length then
          match nested with
          | none => passRest care .done stack after
          | some inner =>
            if care = .full ∧ depthLimit ≤ stack.length + 1 then .error .malformed
            else passRest care .opened (inner :: stack) after
        else .error .malformed
termination_by input.length

def passValue (care : Care) (input : Input) : Except Flaw Input := do
  let (nested, rest) ← passToken care input
  match nested with
  | none => .ok rest
  | some bracket => passRest care .opened [bracket] rest

/-- Read a value completely; a list or object is passed over and gives none. -/
def scalar (input : Input) : Except Flaw (Option Scalar × Input) := do
  let (t, rest) ← token input
  match t with
  | .scalar s => .ok (some s, rest)
  | .opening bracket => do
    let rest ← passRest .full .opened [bracket] rest
    .ok (none, rest)

/-! ## Documents -/

/-- Read the members of an object whose brace is open, from first to last, carrying a state along.
The reader of a member begins after the key. -/
def members {σ : Type} (member : σ → String → Input → Except Flaw (σ × Input)) (state : σ)
    (spot : Spot) (input : Input) : Except Flaw (σ × Input) :=
  match skipSpace input with
  | [] => .error .cutShort
  | g :: rest =>
    if g = .char '}' ∧ spot ≠ .next then .ok (state, rest)
    else if spot = .done then
      if g = .char ',' then
        if rest.length < input.length then members member state .next rest else .error .malformed
      else .error .malformed
    else if g = .char '"' then do
      let (key, after) ← string rest
      let (state, after) ← member state (String.ofList key) after
      if after.length < input.length then members member state .done after else .error .malformed
    else .error .malformed
termination_by input.length

def finish {α : Type} (result : Except Flaw (α × Input)) : Except Flaw α := do
  let (a, rest) ← result
  if (skipSpace rest).isEmpty then .ok a else .error .malformed

/-- Read an object; anything else is unfit as soon as its beginning shows it. -/
def object {σ : Type} (member : σ → String → Input → Except Flaw (σ × Input)) (state : σ)
    (input : Input) : Except Flaw σ := do
  let (t, rest) ← token input
  match t with
  | .opening .object => finish (members member state .opened rest)
  | _ => .error .unfit

end EngineConsole.Json
