import EngineConsole.Catalog
import EngineConsole.Counts.Gauge
import EngineConsole.Json.Reader
import EngineConsole.Json.Writer

/-!
# Counter readings

What the engine's counters stood at when they were read. Counters are words of 64 bits; one that is
not listed stands at zero. As a document a reading is a JSON object of nonnegative integers, which
are read exactly.
-/

set_option autoImplicit false

namespace EngineConsole

abbrev Counts := Catalog UInt64

namespace Counts

open Json (Flaw Input)

def count (c : Counts) (key : String) : UInt64 :=
  (c.get? key).getD 0

def gauge (c : Counts) (g : Gauge) : UInt64 :=
  c.count g.key

def largest : Nat := 0xFFFFFFFFFFFFFFFF

/-- A sum that stays at the largest count once it would pass it. -/
def addUpTo (a b : UInt64) : UInt64 :=
  if a.toNat + b.toNat ≤ largest then a + b else UInt64.ofNat largest

def advance (c : Counts) (key : String) (step : UInt64) : Counts :=
  c.insert key (addUpTo (c.count key) step)

def compact (c : Counts) : String :=
  String.ofList
    (Json.writeObject Json.compact (c.entries.map fun e => (e.1, Decimal.digits e.2.toNat)))

/-- The counter that a number stands for: a whole number in plain digits, without a sign, that fits
a word. -/
def wordOf? (n : Numeral) : Option UInt64 :=
  let value := Decimal.ofDigits n.whole
  if n.plain ∧ ¬n.negative ∧ value ≤ largest then some (UInt64.ofNat value) else none

def member (c : Counts) (key : String) (input : Input) : Except Flaw (Counts × Input) := do
  let input ← Json.colon input
  let (t, rest) ← Json.token input
  match t with
  | .scalar (.number n) =>
    match wordOf? n with
    | some value => .ok (c.insert key value, rest)
    | none => .error .unfit
  | _ => .error .unfit

def read (input : Input) : Except Flaw Counts :=
  Json.object member .empty input

def parse (text : String) : Except Flaw Counts :=
  read (Text.glyphs text)

theorem toNat_addUpTo (a b : UInt64) :
    (addUpTo a b).toNat = min largest (a.toNat + b.toNat) := by
  unfold addUpTo
  have ha := a.toNat_lt
  have hb := b.toNat_lt
  split
  case isTrue bounded =>
    rw [UInt64.toNat_add]
    simp only [largest] at bounded ⊢
    omega
  case isFalse beyond =>
    exact (Nat.min_eq_left (Nat.le_of_not_le beyond)).symm

end Counts

end EngineConsole
