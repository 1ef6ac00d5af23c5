import EngineConsole.Proofs.Decimal.Shortest

/-!
# Spellings of numbers

The texts that are numerals, told apart from any reader of them: a sign, digits, a fraction and an
exponent. A spelling that is not empty of digits may be typed by an operator; one in a document has
digits wherever there is room for some, no plus sign in front, and no extra zero.
-/

set_option autoImplicit false

namespace EngineConsole.Numeral

open Decimal (AreDigits Layout)

/-- A sign that may be there or not, and is negative or positive if it is. -/
def signText (sign : Option Bool) : List Char :=
  sign.elim [] fun negative => if negative then ['-'] else ['+']

structure Power where
  letter : Char
  sign : Option Bool
  digits : List Char

namespace Power

def text (p : Power) : List Char :=
  p.letter :: (signText p.sign ++ p.digits)

def value (p : Power) : Int :=
  if p.sign = some true then -(Decimal.ofDigits p.digits : Int) else Decimal.ofDigits p.digits

structure Sound (p : Power) : Prop where
  letter : p.letter = 'e' ∨ p.letter = 'E'
  digits : p.digits ≠ [] ∧ AreDigits p.digits

end Power

structure Spelling where
  sign : Option Bool
  whole : List Char
  /-- The digits after the point, if there is a point. -/
  fraction : Option (List Char)
  power : Option Power

namespace Spelling

def text (s : Spelling) : List Char :=
  signText s.sign ++ (s.whole ++ (s.fraction.elim [] ('.' :: ·) ++ s.power.elim [] Power.text))

def numeral (s : Spelling) : Numeral :=
  ⟨s.sign == some true, s.whole, s.fraction.getD [], (s.power.map Power.value).getD 0,
    s.fraction.isNone && s.power.isNone⟩

/-- A numeral as it may be typed: `[+-]? ( D+ ( . D* )? | . D+ ) ( [eE] [+-]? D+ )?`. -/
structure Sound (s : Spelling) : Prop where
  anyDigit : s.whole ≠ [] ∨ s.fraction.getD [] ≠ []
  whole : AreDigits s.whole
  fraction : ∀ ds, s.fraction = some ds → AreDigits ds
  power : ∀ p, s.power = some p → p.Sound

/-- A numeral as documents have it: `-? ( 0 | [1-9] D* ) ( . D+ )? ( [eE] [+-]? D+ )?`. -/
structure Strict (s : Spelling) : Prop where
  sign : s.sign ≠ some false
  whole : s.whole ≠ [] ∧ AreDigits s.whole
  noExtraZero : s.whole.head? = some '0' → s.whole.length = 1
  fraction : ∀ ds, s.fraction = some ds → ds ≠ [] ∧ AreDigits ds
  power : ∀ p, s.power = some p → p.Sound

theorem Strict.integer {s : Spelling} (strict : s.Strict) : Strict ⟨s.sign, s.whole, none, none⟩ :=
  ⟨strict.sign, strict.whole, strict.noExtraZero, nofun, nofun⟩

theorem Strict.sound {s : Spelling} (strict : s.Strict) : s.Sound :=
  ⟨.inl strict.whole.1, strict.whole.2, fun ds same => (strict.fraction ds same).2, strict.power⟩

end Spelling

/-! ## Layouts are spellings -/

theorem signText_append_digits (e : Int) :
    signText (some (decide (e < 0))) ++ Decimal.digits e.natAbs = Decimal.signed e := by
  cases e with
  | ofNat n => rfl
  | negSucc n => simp [signText, Decimal.signed, Int.negSucc_lt_zero]

end Numeral

namespace Decimal.Layout

def spelling (l : Layout) : Numeral.Spelling where
  sign := if l.negative then some true else none
  whole := l.whole
  fraction := l.fraction
  power := l.exponent.map fun e => ⟨'e', some (decide (e < 0)), digits e.natAbs⟩

theorem text_spelling (l : Layout) : l.spelling.text = l.chars := by
  obtain ⟨negative, whole, fraction, exponent⟩ := l
  have sign : Numeral.signText (if negative then some true else none) =
      if negative then ['-'] else [] := by
    cases negative <;> rfl
  cases exponent with
  | none => simp only [Numeral.Spelling.text, spelling, chars, sign]; rfl
  | some e =>
      simp only [Numeral.Spelling.text, spelling, chars, sign, Option.map_some, Option.elim_some,
        Numeral.Power.text, Numeral.signText_append_digits]

theorem numeral_spelling (l : Layout) : l.spelling.numeral = l.numeral := by
  obtain ⟨negative, whole, fraction, exponent⟩ := l
  have sign : ((if negative then some true else none) == some true) = negative := by
    cases negative <;> rfl
  have value (e : Int) : Numeral.Power.value ⟨'e', some (decide (e < 0)), digits e.natAbs⟩ = e := by
    simp only [Numeral.Power.value, ofDigits_digits, Option.some.injEq, decide_eq_true_eq]
    split <;> omega
  cases exponent with
  | none => simp only [Numeral.Spelling.numeral, spelling, numeral, sign]; rfl
  | some e => simp [Numeral.Spelling.numeral, spelling, numeral, sign, value]

theorem Sound.strict {l : Layout} (sound : l.Sound) : l.spelling.Strict := by
  refine ⟨?_, sound.whole, sound.noExtraZero, sound.fraction, ?_⟩
  · change (if l.negative then some true else none) ≠ some false
    cases l.negative <;> simp
  · intro p same
    obtain ⟨e, -, rfl⟩ := Option.map_eq_some_iff.mp same
    exact ⟨.inl rfl, digits_ne_nil _, areDigits_digits _⟩

end Decimal.Layout

end EngineConsole
