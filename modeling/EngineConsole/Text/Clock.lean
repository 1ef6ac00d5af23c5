/-!
# Times as text

A moment is counted in seconds since the beginning of 1970. Days begin at multiples of 86400 of
them, and years follow the Gregorian rule.
-/

set_option autoImplicit false

namespace EngineConsole.Clock

def twoDigits (n : Nat) : List Char :=
  if n < 10 then ['0', Nat.digitChar n] else Nat.toDigits 10 n

def day : Nat := 86400

def timeOfDay (seconds : Nat) : String :=
  let s := seconds % day
  String.ofList (twoDigits (s / 3600) ++ ':' :: twoDigits (s / 60 % 60) ++ ':' ::
    twoDigits (s % 60))

/-- Year, month and day of the month of a day, counted from the beginning of 1970. Years are taken
to begin in March, so that a leap day ends one: the fifth month after it then begins 153 days after
the first. -/
def date (days : Nat) : Nat × Nat × Nat :=
  let d := days + 719468
  let era := d / 146097
  let inEra := d % 146097
  let yearOfEra := (inEra - inEra / 1460 + inEra / 36524 - inEra / 146096) / 365
  let inYear := inEra - (365 * yearOfEra + yearOfEra / 4 - yearOfEra / 100)
  let march := (5 * inYear + 2) / 153
  let month := if march < 10 then march + 3 else march - 9
  (yearOfEra + era * 400 + (if month ≤ 2 then 1 else 0), month,
    inYear - (153 * march + 2) / 5 + 1)

def timestamp (seconds : Nat) : String :=
  let (year, month, dayOfMonth) := date (seconds / day)
  toString year ++ String.ofList ('-' :: twoDigits month ++ '-' :: twoDigits dayOfMonth) ++ "T" ++
    timeOfDay seconds ++ "+00:00"

end EngineConsole.Clock
