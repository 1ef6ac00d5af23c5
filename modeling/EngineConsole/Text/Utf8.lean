/-!
# Bytes and characters

Decoding of UTF-8. Bytes that are no part of a well-formed character are kept as *strays*: each
stray is a longest run that could have begun a character, so a reader can still tell where the
text is sound, and a lossy reading has one replacement character for each of them.
-/

set_option autoImplicit false

namespace EngineConsole.Text

inductive Glyph where
  | char (c : Char)
  /-- A number of bytes that together begin no character. -/
  | stray (bytes : Nat)
  deriving Repr, DecidableEq

namespace Glyph

def width : Glyph → Nat
  | .char c => c.utf8Size
  | .stray bytes => bytes

def shown : Glyph → Char
  | .char c => c
  | .stray _ => '\uFFFD'

def char? : Glyph → Option Char
  | .char c => some c
  | .stray _ => none

end Glyph

def glyphs (s : String) : List Glyph :=
  s.toList.map .char

/-- What the first byte of a longer character promises: its own share of the code point, how many
bytes follow, and the range of the first of them. The range excludes overlong forms, surrogates
and code points past U+10FFFF. -/
structure Lead where
  value : Nat
  more : Nat
  low : Nat
  high : Nat

def lead? (b : Nat) : Option Lead :=
  if 0xC2 ≤ b ∧ b ≤ 0xDF then some ⟨b - 0xC0, 1, 0x80, 0xBF⟩
  else if b = 0xE0 then some ⟨0, 2, 0xA0, 0xBF⟩
  else if b = 0xED then some ⟨0xD, 2, 0x80, 0x9F⟩
  else if 0xE1 ≤ b ∧ b ≤ 0xEF then some ⟨b - 0xE0, 2, 0x80, 0xBF⟩
  else if b = 0xF0 then some ⟨0, 3, 0x90, 0xBF⟩
  else if 0xF1 ≤ b ∧ b ≤ 0xF3 then some ⟨b - 0xF0, 3, 0x80, 0xBF⟩
  else if b = 0xF4 then some ⟨4, 3, 0x80, 0x8F⟩
  else none

/-- Take up to `more` following bytes. The result is the code point if all were there, else none,
and how many were taken. -/
def follow (value more low high : Nat) (bytes : List UInt8) : Option Nat × Nat :=
  match more, bytes with
  | 0, _ => (some value, 0)
  | _ + 1, [] => (none, 0)
  | more + 1, b :: rest =>
    if low ≤ b.toNat ∧ b.toNat ≤ high then
      let (code, taken) := follow (value * 64 + (b.toNat - 0x80)) more 0x80 0xBF rest
      (code, taken + 1)
    else (none, 0)

def decode (bytes : List UInt8) : List Glyph :=
  match bytes with
  | [] => []
  | b :: rest =>
    if b.toNat < 0x80 then .char (Char.ofNat b.toNat) :: decode rest
    else
      match lead? b.toNat with
      | none => .stray 1 :: decode rest
      | some lead =>
        match follow lead.value lead.more lead.low lead.high rest with
        | (some code, taken) => .char (Char.ofNat code) :: decode (rest.drop taken)
        | (none, taken) => .stray (taken + 1) :: decode (rest.drop taken)
termination_by bytes.length
decreasing_by
  · exact Nat.lt_succ_self rest.length
  · exact Nat.lt_succ_self rest.length
  · simp only [List.length_drop, List.length_cons]
    omega
  · simp only [List.length_drop, List.length_cons]
    omega

def decode? (bytes : List UInt8) : Option String :=
  ((decode bytes).mapM Glyph.char?).map String.ofList

def decodeLossy (bytes : List UInt8) : String :=
  String.ofList ((decode bytes).map Glyph.shown)

def encode (s : String) : List UInt8 :=
  s.toUTF8.toList

end EngineConsole.Text
