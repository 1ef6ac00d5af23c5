/-!
# Writing TOML strings

A string is written in the plainest form that holds it: between double quotes, or between single
quotes if it holds a double quote or a backslash. Where neither will do it takes one of the forms
of several lines, and escapes are the last resort.
-/

set_option autoImplicit false

namespace EngineConsole.Toml

/-- The most marks in a row in a text, given how many were met just before it. -/
def longestRun (mark : Char) : Nat → List Char → Nat
  | run, [] => run
  | run, c :: rest =>
    if c = mark then longestRun mark (run + 1) rest else max run (longestRun mark 0 rest)

def isControl (c : Char) : Bool :=
  (c.toNat < 0x20 || c.toNat == 0x7F) && c != '\t' && c != '\n'

def hexQuad (n : Nat) : List Char :=
  let digits := (Nat.toDigits 16 n).map Char.toUpper
  List.replicate (4 - digits.length) '0' ++ digits

def escaped? (c : Char) : Option (List Char) :=
  if c = '\x08' then some ['\\', 'b']
  else if c = '\t' then some ['\\', 't']
  else if c = '\x0c' then some ['\\', 'f']
  else if c = '\r' then some ['\\', 'r']
  else if c = '\\' then some ['\\', '\\']
  else if isControl c then some ('\\' :: 'u' :: hexQuad c.toNat)
  else none

def escapeLine : List Char → List Char
  | [] => []
  | c :: rest =>
    (if c = '"' then ['\\', '"']
      else if c = '\n' then ['\\', 'n']
      else (escaped? c).getD [c]) ++ escapeLine rest

/-- The text between three double quotes on either side, of which it may hold two in a row; given
how many were met just before it. -/
def escapeLines : Nat → List Char → List Char
  | _, [] => []
  | run, c :: rest =>
    if c = '"' then
      if run < 2 then c :: escapeLines (run + 1) rest else ['\\', '"'] ++ escapeLines 0 rest
    else (escaped? c).getD [c] ++ escapeLines 0 rest

def firstBreak (cs : List Char) : List Char :=
  if cs.contains '\n' then ['\n'] else []

def writeBasic (cs : List Char) : List Char :=
  '"' :: (escapeLine cs ++ ['"'])

def writeLiteral (cs : List Char) : List Char :=
  '\'' :: (cs ++ ['\''])

def writeBasicLines (cs : List Char) : List Char :=
  ['"', '"', '"'] ++ firstBreak cs ++ escapeLines 0 cs ++ ['"', '"', '"']

def writeLiteralLines (cs : List Char) : List Char :=
  ['\'', '\'', '\''] ++ firstBreak cs ++ cs ++ ['\'', '\'', '\'']

def writeString (cs : List Char) : List Char :=
  let hasControl := cs.any isControl
  let hasBackslash := cs.contains '\\'
  let hasBreak := cs.contains '\n'
  let doubles := longestRun '"' 0 cs
  let singles := longestRun '\'' 0 cs
  if !hasControl && !hasBackslash && doubles == 0 && !hasBreak then writeBasic cs
  else if !hasControl && singles == 0 && !hasBreak then writeLiteral cs
  else if !hasControl && !hasBackslash && doubles ≤ 2 then writeBasicLines cs
  else if !hasControl && singles ≤ 2 then writeLiteralLines cs
  else if hasBreak then writeBasicLines cs
  else writeBasic cs

end EngineConsole.Toml
