import EngineConsole.Json.Reader
import EngineConsole.Toml.Value

/-!
# Reading TOML

A document is read line by line: headers open tables, the other lines give values to keys. A
document that breaks a rule anywhere has no reading at all.
-/

set_option autoImplicit false

namespace EngineConsole.Toml

/-! ## Blanks and comments -/

def isSpace (c : Char) : Bool :=
  c == ' ' || c == '\t'

def skipSpace (cs : List Char) : List Char :=
  cs.dropWhile isSpace

def isPlain (c : Char) : Bool :=
  c == '\t' || (0x20 ≤ c.toNat && c.toNat != 0x7F)

def lineBreak : List Char → Option (List Char)
  | [] => some []
  | '\n' :: rest => some rest
  | '\r' :: '\n' :: rest => some rest
  | _ => none

def skipComment : List Char → List Char
  | '#' :: rest => rest.dropWhile isPlain
  | cs => cs

/-- Read what may follow a value or a header: blanks, a comment and the end of the line. -/
def lineEnd (cs : List Char) : Option (List Char) :=
  lineBreak (skipComment (skipSpace cs))

def skipLines : Nat → List Char → Option (List Char)
  | 0, cs => some (skipSpace cs)
  | lines + 1, cs =>
    match skipSpace cs with
    | '\n' :: rest => skipLines lines rest
    | '\r' :: '\n' :: rest => skipLines lines rest
    | '#' :: rest =>
      match lineBreak (rest.dropWhile isPlain) with
      | none => none
      | some after => skipLines lines after
    | cs => some cs

/-! ## Strings -/

def hexNumber? (digits : List Char) : Option Nat :=
  digits.foldlM (fun n c => (Json.hexValue? c).map (n * 16 + ·)) 0

def coded (count : Nat) (cs : List Char) : Option (Char × Nat) := do
  let digits := cs.take count
  if digits.length = count then
    let n ← hexNumber? digits
    if n < 0xD800 ∨ (0xDFFF < n ∧ n < 0x110000) then some (Char.ofNat n, count + 1) else none
  else none

/-- Read the rest of an escape: its character and how many characters it took. -/
def escape : List Char → Option (Char × Nat)
  | 'b' :: _ => some ('\x08', 1)
  | 'e' :: _ => some ('\x1b', 1)
  | 't' :: _ => some ('\t', 1)
  | 'n' :: _ => some ('\n', 1)
  | 'f' :: _ => some ('\x0c', 1)
  | 'r' :: _ => some ('\r', 1)
  | '"' :: _ => some ('"', 1)
  | '\\' :: _ => some ('\\', 1)
  | 'x' :: rest => coded 2 rest
  | 'u' :: rest => coded 4 rest
  | 'U' :: rest => coded 8 rest
  | _ => none

def basic (cs : List Char) : Option (List Char × List Char) :=
  match cs with
  | [] => none
  | c :: rest =>
    if c = '"' then some ([], rest)
    else if c = '\\' then do
      let (decoded, taken) ← escape rest
      let (text, after) ← basic (rest.drop taken)
      some (decoded :: text, after)
    else if isPlain c then do
      let (text, after) ← basic rest
      some (c :: text, after)
    else none
termination_by cs.length
decreasing_by all_goals (simp only [List.length_cons, List.length_drop]; omega)

def literal : List Char → Option (List Char × List Char)
  | [] => none
  | c :: rest =>
    if c = '\'' then some ([], rest)
    else if isPlain c then (literal rest).map fun r => (c :: r.1, r.2)
    else none

/-- Read the three quotes that end a string of several lines. One or two more belong to its text. -/
def closing (quote : Char) (cs : List Char) : Option (List Char × List Char) :=
  let quotes := (cs.takeWhile (· == quote)).take 5
  if 3 ≤ quotes.length then some (quotes.drop 3, cs.drop quotes.length) else none

def skipFirstBreak : List Char → List Char
  | '\n' :: rest => rest
  | '\r' :: '\n' :: rest => rest
  | cs => cs

/-- What follows a backslash at the end of a line: all blanks and ends of lines up to the next
other character. -/
def skipBreaks : List Char → List Char
  | '\n' :: rest => skipBreaks rest
  | '\r' :: '\n' :: rest => skipBreaks rest
  | c :: rest => if isSpace c then skipBreaks rest else c :: rest
  | [] => []

theorem length_skipBreaks (cs : List Char) : (skipBreaks cs).length ≤ cs.length := by
  fun_induction skipBreaks cs <;> simp_all <;> omega

def endsLine (cs : List Char) : Bool :=
  match skipSpace cs with
  | '\n' :: _ => true
  | '\r' :: '\n' :: _ => true
  | _ => false

def multiline (quote : Char) (cs : List Char) : Option (List Char × List Char) :=
  match closing quote cs with
  | some (text, after) => some (text, after)
  | none =>
    match cs with
    | [] => none
    | c :: rest =>
      if c = '\\' ∧ quote = '"' then
        if endsLine rest then multiline quote (skipBreaks rest)
        else do
          let (decoded, taken) ← escape rest
          let (text, after) ← multiline quote (rest.drop taken)
          some (decoded :: text, after)
      else if isPlain c ∨ c = '\n' ∨ (c = '\r' ∧ rest.head? = some '\n') then do
        let (text, after) ← multiline quote rest
        some (c :: text, after)
      else none
termination_by cs.length
decreasing_by
  · exact Nat.lt_succ_of_le (length_skipBreaks rest)
  all_goals (simp only [List.length_cons, List.length_drop]; omega)

def string : List Char → Option (List Char × List Char)
  | '"' :: '"' :: '"' :: rest => multiline '"' (skipFirstBreak rest)
  | '\'' :: '\'' :: '\'' :: rest => multiline '\'' (skipFirstBreak rest)
  | '"' :: rest => basic rest
  | '\'' :: rest => literal rest
  | _ => none

/-! ## Keys -/

def isBare (c : Char) : Bool :=
  c.isAlphanum || c == '_' || c == '-'

def keyPart : List Char → Option (String × List Char)
  | '"' :: rest => (basic rest).map fun r => (String.ofList r.1, r.2)
  | '\'' :: rest => (literal rest).map fun r => (String.ofList r.1, r.2)
  | cs =>
    let part := cs.takeWhile isBare
    if part.isEmpty then none else some (String.ofList part, cs.dropWhile isBare)

/-- Read a key of at most so many parts: the parts before its last, and the last. -/
def keyParts : Nat → List Char → Option ((List String × String) × List Char)
  | 0, _ => none
  | parts + 1, cs => do
    let (part, rest) ← keyPart (skipSpace cs)
    match skipSpace rest with
    | '.' :: more =>
      let ((path, last), after) ← keyParts parts more
      some ((part :: path, last), after)
    | after => some (([], part), after)

/-- How many parts a key may have, and how deep lists and tables may be nested. -/
def depthLimit : Nat := 80

def key (cs : List Char) : Option ((List String × String) × List Char) :=
  keyParts depthLimit cs

/-! ## Numbers and times -/

def ungroup (isDigit : Char → Bool) : List Char → Option (List Char)
  | [] => none
  | [c] => if isDigit c then some [c] else none
  | c :: '_' :: rest => if isDigit c then (ungroup isDigit rest).map (c :: ·) else none
  | c :: rest => if isDigit c then (ungroup isDigit rest).map (c :: ·) else none

def inBase (base : Nat) (isDigit : Char → Bool) (digits : List Char) : Option Nat := do
  let digits ← ungroup isDigit digits
  digits.foldlM (fun n c => (Json.hexValue? c).map (n * base + ·)) 0

def decimal (digits : List Char) : Option Nat :=
  if digits.head? = some '0' ∧ digits.length ≠ 1 then none
  else inBase 10 Char.isDigit digits

def takeSign : List Char → Bool × List Char
  | '-' :: rest => (true, rest)
  | '+' :: rest => (false, rest)
  | cs => (false, cs)

def integer? (word : List Char) : Option Int :=
  match word with
  | '0' :: 'x' :: digits => (inBase 16 (fun c => (Json.hexValue? c).isSome) digits).map Int.ofNat
  | '0' :: 'o' :: digits => (inBase 8 (fun c => '0' ≤ c && c ≤ '7') digits).map Int.ofNat
  | '0' :: 'b' :: digits => (inBase 2 (fun c => c == '0' || c == '1') digits).map Int.ofNat
  | word =>
    let (negative, digits) := takeSign word
    (decimal digits).map fun n => if negative then -n else n

/-- Whether an integer is within those of 128 bits, with a sign or without. -/
def integerFits (n : Int) : Bool :=
  -0x80000000000000000000000000000000 ≤ n && n ≤ 0xFFFFFFFFFFFFFFFFFFFFFFFFFFFFFFFF

/-- Whether the number in a word, digits being set apart by underscores, is within the doubles. What
is no number of digits is none that could be beyond them. -/
def floatFits (word : List Char) : Bool :=
  match Numeral.scan? (word.filter (· != '_')) with
  | some (numeral, _) => Binary.isFinite (.ofDecimal numeral.value : Double)
  | none => true

/-- Whether a word is a number with a fraction or an exponent, or names an infinity or what is no
number. -/
def isFloat (word : List Char) : Bool :=
  let unsigned := (takeSign word).2
  if unsigned = ['i', 'n', 'f'] ∨ unsigned = ['n', 'a', 'n'] then true
  else
    let isMark (c : Char) : Bool := c == 'e' || c == 'E'
    let mantissa := unsigned.takeWhile fun c => !isMark c
    let exponent := unsigned.dropWhile fun c => !isMark c
    let whole := mantissa.takeWhile (· != '.')
    let fraction := mantissa.dropWhile (· != '.')
    let exponentFits :=
      exponent.isEmpty || (inBase 10 Char.isDigit (takeSign (exponent.drop 1)).2).isSome
    let fractionFits := fraction.isEmpty || (inBase 10 Char.isDigit (fraction.drop 1)).isSome
    !(exponent.isEmpty && fraction.isEmpty) && (decimal whole).isSome && exponentFits &&
      fractionFits

def digitsOf? (count : Nat) (cs : List Char) : Option Nat :=
  if cs.length = count ∧ cs.all Char.isDigit then some (Decimal.ofDigits cs) else none

def daysIn (year month : Nat) : Nat :=
  if month = 2 then
    if year % 4 = 0 ∧ (year % 100 ≠ 0 ∨ year % 400 = 0) then 29 else 28
  else if month ∈ [4, 6, 9, 11] then 30
  else 31

def isDate (word : List Char) : Bool :=
  match digitsOf? 4 (word.take 4), digitsOf? 2 ((word.drop 5).take 2),
    digitsOf? 2 (word.drop 8) with
  | some year, some month, some day =>
    word[4]? == some '-' && word[7]? == some '-' && 1 ≤ month && month ≤ 12 && 1 ≤ day &&
      day ≤ daysIn year month
  | _, _, _ => false

/-- Whether the rest of a time of day is nothing, or its seconds with any fraction of them. -/
def isSeconds : List Char → Bool
  | [] => true
  | ':' :: word =>
    match digitsOf? 2 (word.take 2), word.drop 2 with
    | some second, [] => second ≤ 60
    | some second, '.' :: fraction =>
      second ≤ 60 && !fraction.isEmpty && fraction.all Char.isDigit
    | _, _ => false
  | _ => false

/-- Whether a word is a time of day. It may leave out its seconds. -/
def isTime (word : List Char) : Bool :=
  match digitsOf? 2 (word.take 2), digitsOf? 2 ((word.drop 3).take 2) with
  | some hour, some minute =>
    word[2]? == some ':' && hour ≤ 23 && minute ≤ 59 && isSeconds (word.drop 5)
  | _, _ => false

def isZonedTime (word : List Char) : Bool :=
  let isZone (c : Char) : Bool := c == 'Z' || c == 'z' || c == '+' || c == '-'
  let zone := word.dropWhile fun c => !isZone c
  let zoneFits :=
    match zone with
    | [] => true
    | 'Z' :: rest => rest.isEmpty
    | 'z' :: rest => rest.isEmpty
    | _ :: offset =>
      match digitsOf? 2 (offset.take 2), digitsOf? 2 (offset.drop 3) with
      | some hour, some minute => offset[2]? == some ':' && hour ≤ 23 && minute ≤ 59
      | _, _ => false
  isTime (word.takeWhile fun c => !isZone c) && zoneFits

def isDateTime (word : List Char) : Bool :=
  isDate word || isTime word ||
    (isDate (word.take 10) && (word[10]? == some 'T' || word[10]? == some 't') &&
      isZonedTime (word.drop 11))

def isWordChar (c : Char) : Bool :=
  isBare c || c == '+' || c == '.' || c == ':'

/-- Read a value that is a single word. A date may be followed by a blank and a time. -/
def wordValue (cs : List Char) : Option (Item × List Char) :=
  let word := cs.takeWhile isWordChar
  let rest := cs.dropWhile isWordChar
  if word = "true".toList then some (.flag true, rest)
  else if word = "false".toList then some (.flag false, rest)
  else
    match integer? word with
    | some n => some (if integerFits n then .integer n else .overflow, rest)
    | none =>
      if isFloat word then some (if floatFits word then .float else .overflow, rest)
      else
        match isDate word, rest with
        | true, ' ' :: more =>
          let time := more.takeWhile isWordChar
          if isZonedTime time then some (.dateTime, more.dropWhile isWordChar)
          else some (.dateTime, rest)
        | _, _ => if isDateTime word then some (.dateTime, rest) else none

/-! ## Values -/

def listItems (value : List Char → Option (Item × List Char)) :
    Nat → List Char → Option (List Item × List Char)
  | 0, _ => none
  | items + 1, cs => do
    match ← skipLines cs.length cs with
    | ']' :: rest => some ([], rest)
    | cs =>
      let (item, rest) ← value cs
      match ← skipLines rest.length rest with
      | ']' :: rest => some ([item], rest)
      | ',' :: rest =>
        let (more, after) ← listItems value items rest
        some (item :: more, after)
      | _ => none

/-- Read the rest of a table whose brace is open, of at most so many entries beside those that have
been read. Only a key with several parts has to stay on one line. -/
def braceEntries (value : List Char → Option (Item × List Char)) :
    Nat → Entries → List Char → Option (Entries × List Char)
  | 0, _, _ => none
  | more + 1, entries, cs => do
    match ← skipLines cs.length cs with
    | '\x7d' :: rest => some (entries, rest)
    | cs =>
      let ((path, last), rest) ← key cs
      match ← skipLines rest.length rest with
      | '=' :: rest =>
        let (item, rest) ← value (← skipLines rest.length rest)
        let entries ← addValue path last item .braces entries
        match ← skipLines rest.length rest with
        | '\x7d' :: rest => some (entries, rest)
        | ',' :: rest => braceEntries value more entries rest
        | _ => none
      | _ => none

def value (depth : Nat) (cs : List Char) : Option (Item × List Char) :=
  match cs, depth with
  | '"' :: _, _ => (string cs).map fun r => (.text (String.ofList r.1), r.2)
  | '\'' :: _, _ => (string cs).map fun r => (.text (String.ofList r.1), r.2)
  | '[' :: rest, depth + 1 =>
    (listItems (value depth) (rest.length + 1) rest).map fun r => (.list r.1, r.2)
  | '\x7b' :: rest, depth + 1 =>
    (braceEntries (value depth) (rest.length + 1) [] rest).map fun r => (.table .braces r.1, r.2)
  | _, _ => wordValue cs

/-! ## Documents -/

/-- What has been read of a document: its tables, and the path of the table that lines add to. -/
structure Draft where
  root : Entries := []
  path : List String := []

def Draft.add (d : Draft) (path : List String) (last : String) (item : Item) : Option Draft := do
  let root ← alter false (addValue path last item) d.path .header d.root
  some { d with root }

def line (d : Draft) (cs : List Char) : Option (Draft × List Char) := do
  match cs with
  | '[' :: '[' :: rest =>
    let ((path, last), rest) ← key rest
    match rest with
    | ']' :: ']' :: rest =>
      let root ← openNext path last d.root
      some (⟨root, path ++ [last]⟩, ← lineEnd rest)
    | _ => none
  | '[' :: rest =>
    let ((path, last), rest) ← key rest
    match rest with
    | ']' :: rest =>
      let root ← openTable path last d.root
      some (⟨root, path ++ [last]⟩, ← lineEnd rest)
    | _ => none
  | cs =>
    let ((path, last), rest) ← key cs
    match rest with
    | '=' :: rest =>
      let (item, rest) ← value depthLimit (skipSpace rest)
      some (← d.add path last item, ← lineEnd rest)
    | _ => none

def lines : Nat → Draft → List Char → Option Draft
  | 0, _, _ => none
  | more + 1, d, cs => do
    match ← skipLines cs.length cs with
    | [] => some d
    | cs =>
      let (d, rest) ← line d cs
      lines more d rest

/-- Read a document, whose first character may be a byte order mark. -/
def parse (text : String) : Option Entries :=
  let cs := match text.toList with
    | '\uFEFF' :: rest => rest
    | cs => cs
  (lines (cs.length + 1) {} cs).map (·.root)

end EngineConsole.Toml
