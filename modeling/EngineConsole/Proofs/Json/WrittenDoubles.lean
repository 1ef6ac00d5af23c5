import EngineConsole.Json.Writer
import EngineConsole.Proofs.Decimal.Scanning
import EngineConsole.Proofs.Json.Doubles
import EngineConsole.Proofs.Json.Objects

/-!
# Doubles written and read again

A finite double is written as a short numeral that it is nearest to, and the numeral is read with
more than one rounding: it is never too large, but what comes of it may be another double. Whole
numbers up to a bound and numerals of few digits do come back.
-/

set_option autoImplicit false

namespace EngineConsole

namespace Binary

variable {f : BinaryFormat}

/-- A number as documents have it: there is only one zero. -/
def restored (x : Binary f) : Binary f :=
  if x.isZero then .ofRank false 0 else x

theorem isFinite_ofRank_zero (x : Double) (zero : x.isZero = true) :
    (ofRank false 0 : Double) = .finite false ⟨0, by decide⟩ ∧
      ∃ negative, x = .finite negative ⟨0, by decide⟩ := by
  cases x with
  | finite negative rank =>
      obtain ⟨rank, small⟩ := rank
      obtain rfl : rank = 0 := by simpa [isZero] using zero
      exact ⟨ofRank_of_lt _, negative, rfl⟩
  | nan | infinite => cases zero

theorem restored_finite (negative : Bool) (rank : Fin BinaryFormat.double.ranks) :
    ∃ negative', (finite negative rank : Double).restored = .finite negative' rank := by
  unfold restored
  split
  next zero =>
    obtain ⟨plain, _, same⟩ := isFinite_ofRank_zero _ zero
    cases same
    exact ⟨false, plain⟩
  next => exact ⟨negative, rfl⟩

end Binary

/-- A whole number is some number of ones. -/
def Double.IsWhole (x : Double) (negative : Bool) (n : Nat) : Prop :=
  ∃ rank, x = .finite negative rank ∧
    BinaryFormat.double.units rank = n * BinaryFormat.double.one

namespace Json

open Decimal (Layout ofDigits)

/-- What the text of a double is read as; none if it is too large. -/
def reread? (x : Double) : Option Double :=
  match numeral ((writeDouble x).map .char) with
  | .ok (n, _) => double? n
  | .error _ => none

/-- A double is written as an integer. -/
def IsInteger (x : Double) : Prop :=
  (x.wholeUpTo? wholeBound).isSome = true

instance (x : Double) : Decidable (IsInteger x) :=
  inferInstanceAs (Decidable (_ = true))

/-- The text of a double has digits that make a double, and a power of ten that is one. -/
def IsShort (x : Double) : Prop :=
  ∃ s : Numeral.Spelling, s.text = writeDouble x ∧ s.Strict ∧
    s.numeral.value.coefficient ≤ 2 ^ 53 ∧ s.numeral.value.exponent.natAbs ≤ exactPower

theorem writeDouble_whole {x : Double} {negative : Bool} {n : Nat} (whole : x.IsWhole negative n)
    (small : n ≤ wholeBound) :
    writeDouble x = (if negative ∧ n ≠ 0 then ['-'] else []) ++ Decimal.digits n := by
  obtain ⟨rank, rfl, units⟩ := whole
  have one := BinaryFormat.double.one_pos
  have found : Binary.wholeUpTo? wholeBound (.finite negative rank : Double) =
      some (negative, n) := by
    unfold Binary.wholeUpTo?
    dsimp only
    rw [units, Nat.mul_mod_left, Nat.mul_div_cancel _ one, if_pos ⟨rfl, small⟩]
  unfold writeDouble
  rw [found]
  dsimp only
  split <;> rfl

theorem isWhole_of_isInteger {x : Double} (integer : IsInteger x) :
    ∃ negative n, x.IsWhole negative n ∧ n ≤ wholeBound := by
  cases x with
  | nan | infinite => cases integer
  | finite negative rank =>
      unfold IsInteger Binary.wholeUpTo? at integer
      dsimp only at integer
      split at integer
      next whole =>
        obtain ⟨n, units⟩ := Nat.dvd_of_mod_eq_zero whole.1
        rw [Nat.mul_comm] at units
        have small := whole.2
        rw [units, Nat.mul_div_cancel _ BinaryFormat.double.one_pos] at small
        exact ⟨negative, n, ⟨rank, rfl, units⟩, small⟩
      next => cases integer

theorem isInteger_of_isZero {x : Double} (zero : x.isZero = true) : IsInteger x := by
  obtain ⟨-, negative, rfl⟩ := Binary.isFinite_ofRank_zero x zero
  cases negative <;> decide

theorem ofDecimal_of_isWhole {x : Double} {negative : Bool} {n : Nat}
    (whole : x.IsWhole negative n) :
    (Binary.ofDecimal ⟨decide (negative = true ∧ n ≠ 0), n, 0⟩ : Double) = x.restored := by
  obtain ⟨⟨rank, finite⟩, rfl, units⟩ := whole
  dsimp only at units
  rw [Binary.ofDecimal_whole BinaryFormat.normal_double units]
  have zero_units : BinaryFormat.double.units 0 = 0 := by decide
  by_cases none : rank = 0
  · subst none
    obtain rfl : n = 0 := by
      rw [zero_units] at units
      exact (Nat.mul_eq_zero.mp units.symm).resolve_right BinaryFormat.double.one_pos.ne'
    simp [Binary.restored, Binary.isZero]
  · have positive : n ≠ 0 := by
      rintro rfl
      have back := BinaryFormat.double.nearestRank_units rank
      rw [units, Nat.zero_mul, BinaryFormat.nearestRank_zero] at back
      exact none back.symm
    rw [Binary.ofRank_of_lt finite]
    simp [Binary.restored, Binary.isZero, none, positive]

/-- A numeral that a double is written as. It is nearest to the double, but for the sign of a zero,
and its digits before the point fit. -/
structure Spells (s : Numeral.Spelling) (x : Double) : Prop where
  text : s.text = writeDouble x
  strict : s.Strict
  fits : ofDigits s.whole ≤ significandBound
  nearest : (Binary.ofDecimal s.numeral.value : Double) = x.restored

theorem Spells.of_layout {l : Layout} {x : Double} (chars : l.chars = writeDouble x)
    (sound : l.Sound) (fits : ofDigits l.whole ≤ significandBound)
    (nearest : (Binary.ofDecimal l.numeral.value : Double) = x.restored) :
    Spells l.spelling x where
  text := l.text_spelling.trans chars
  strict := sound.strict
  fits := fits
  nearest := by rwa [l.numeral_spelling]

theorem exists_spelling_of_isInteger {x : Double} (integer : IsInteger x) :
    ∃ s, Spells s x ∧ s.numeral.value.coefficient ≤ 2 ^ 53 ∧ s.numeral.value.exponent = 0 := by
  obtain ⟨negative, n, whole, small⟩ := isWhole_of_isInteger integer
  have digits := Decimal.ofDigits_digits n
  let l : Layout := ⟨decide (negative = true ∧ n ≠ 0), Decimal.digits n, none, none⟩
  have value : l.numeral.value = ⟨decide (negative = true ∧ n ≠ 0), n, 0⟩ := by
    simp [l, Layout.numeral, Numeral.value, digits]
  have spells : Spells l.spelling x := by
    refine .of_layout ?_ (Decimal.Layout.sound_digits _ n) ?_ ?_
    · rw [writeDouble_whole whole small]
      simp [l, Layout.chars]
    · exact digits.trans_le (small.trans (by decide))
    · rw [value, ofDecimal_of_isWhole whole]
  refine ⟨l.spelling, spells, ?_⟩
  rw [l.numeral_spelling, value]
  exact ⟨small, rfl⟩

/-- At most 16 digits stand before the point. -/
theorem exists_spelling_of_not_isInteger {x : Double} (finite : x.isFinite = true)
    (other : ¬IsInteger x) : ∃ s, Spells s x := by
  cases x with
  | nan | infinite => cases finite
  | finite negative rank =>
      obtain ⟨rank, inRange⟩ := rank
      have decent : numbers.Decent := .inr rfl
      obtain ⟨l, chars, sound, reads, first, place, long⟩ :=
        decent.finite_reads BinaryFormat.normal_double inRange negative
      refine ⟨l.spelling, .of_layout (chars.trans ?_) sound ?_ (reads.trans ?_)⟩
      · have absent : Binary.wholeUpTo? wholeBound (.finite negative ⟨rank, inRange⟩ : Double) =
            none := Option.not_isSome_iff_eq_none.mp other
        unfold writeDouble
        rw [absent]
      · have few : l.whole.length ≤ 16 := by
          rcases place with positional | rfl
          · have bounds := (Bool.and_eq_true _ _).mp positional
            have last : first ≤ 15 := of_decide_eq_true bounds.2
            omega
          · exact long.trans (by decide)
        have below := Decimal.ofDigits_lt sound.whole.2
        have power : 10 ^ l.whole.length ≤ 10 ^ 16 := Nat.pow_le_pow_right (by decide) few
        have bound : 10 ^ 16 ≤ significandBound := by decide
        omega
      · have positive : ¬Binary.isZero (.finite negative ⟨rank, inRange⟩ : Double) = true :=
          fun zero => other (isInteger_of_isZero zero)
        rw [Binary.restored, if_neg positive]

theorem exists_spelling {x : Double} (finite : x.isFinite = true) : ∃ s, Spells s x := by
  by_cases integer : IsInteger x
  · obtain ⟨s, spells, -⟩ := exists_spelling_of_isInteger integer
    exact ⟨s, spells⟩
  · exact exists_spelling_of_not_isInteger finite integer

/-! ## Reading again -/

theorem reread_of_text {x : Double} {s : Numeral.Spelling} (strict : s.Strict)
    (text : s.text = writeDouble x) : reread? x = double? s.numeral := by
  have read := numeral_text strict ends_nil
  rw [List.append_nil, text] at read
  unfold reread?
  rw [read]

theorem isFinite_of_isInteger {x : Double} (integer : IsInteger x) : x.isFinite = true := by
  obtain ⟨negative, n, ⟨rank, rfl, -⟩, -⟩ := isWhole_of_isInteger integer
  rfl

theorem isShort_of_isInteger {x : Double} (integer : IsInteger x) : IsShort x := by
  obtain ⟨s, spells, coefficient, exponent⟩ := exists_spelling_of_isInteger integer
  have within : s.numeral.value.exponent.natAbs ≤ exactPower := by
    rw [exponent]
    decide
  exact ⟨s, spells.text, spells.strict, coefficient, within⟩

/-- A double of a short text comes back, but for the sign of a zero. -/
theorem reread_of_isShort {x : Double} (finite : x.isFinite = true) (short : IsShort x) :
    reread? x = some x.restored := by
  obtain ⟨s, text, strict, coefficient, exponent⟩ := short
  obtain ⟨s', spells⟩ := exists_spelling finite
  have same : s.numeral = s'.numeral :=
    strict.sound.numeral_eq spells.strict.sound (text.trans spells.text.symm)
  rw [reread_of_text strict text, double_eq_ofDecimal coefficient exponent, same, spells.nearest]

theorem reread_of_isInteger {x : Double} (integer : IsInteger x) : reread? x = some x.restored :=
  reread_of_isShort (isFinite_of_isInteger integer) (isShort_of_isInteger integer)

theorem restored_of_not_isInteger {x : Double} (other : ¬IsInteger x) : x.restored = x :=
  if_neg fun zero => other (isInteger_of_isZero zero)

theorem size_le_safeBound {d : Decimal} {negative : Bool} {rank : Fin BinaryFormat.double.ranks}
    (nearest : (Binary.ofDecimal d : Double) = .finite negative rank)
    (below : rank + 3 < BinaryFormat.double.ranks) : d.size ≤ safeBound := by
  have rising := BinaryFormat.double.strictMono_size
  have units : BinaryFormat.double.units (BinaryFormat.double.ranks - 3) =
      safeBound * BinaryFormat.double.one := by decide +kernel
  have bound : BinaryFormat.double.size (BinaryFormat.double.ranks - 3) = safeBound := by
    have one : (BinaryFormat.double.one : ℚ) ≠ 0 := mod_cast BinaryFormat.double.one_pos.ne'
    rw [BinaryFormat.size, units, Nat.cast_mul, mul_div_cancel_right₀ _ one]
  obtain ⟨rank', near, same⟩ := Binary.rounds_ofDecimal BinaryFormat.normal_double d
  obtain rfl := Binary.rank_of_ofRank (same.symm.trans nearest)
  by_contra above
  have later := (isNearest_self rising _).mono rising near (bound.le.trans (not_le.mp above).le)
  omega

/-- The text of a finite double is not too large. -/
theorem exists_reread {x : Double} (finite : x.isFinite = true) : ∃ y, reread? x = some y := by
  rw [← Option.isSome_iff_exists]
  cases x with
  | nan | infinite => cases finite
  | finite negative rank =>
      rcases Nat.lt_or_ge (rank + 3) BinaryFormat.double.ranks with below | last
      · obtain ⟨s, spells⟩ := exists_spelling finite
        obtain ⟨_, restored⟩ := Binary.restored_finite negative rank
        rw [reread_of_text spells.strict spells.text]
        exact isSome_double_of_size spells.fits
          (size_le_safeBound (spells.nearest.trans restored) below)
      · have all : ∀ negative, ∀ k : Fin 3, (reread? (Binary.ofRank negative
            (BinaryFormat.double.ranks - 3 + k))).isSome = true := by
          decide +kernel
        have some : 3 ≤ BinaryFormat.double.ranks := by decide
        obtain ⟨rank, small⟩ := rank
        rw [← Binary.ofRank_of_lt small]
        obtain ⟨k, rfl⟩ : ∃ k, rank = BinaryFormat.double.ranks - 3 + k :=
          Nat.exists_eq_add_of_le (Nat.sub_le_of_le_add last)
        exact all negative ⟨k, by omega⟩

/-- The text of a double is read as a number. -/
theorem token_writeDouble {x : Double} (finite : x.isFinite = true) {rest : Input}
    (ends : Ends rest) : ∃ n, double? n = reread? x ∧
      token ((writeDouble x).map .char ++ rest) = .ok (.scalar (.number n), rest) := by
  obtain ⟨s, spells⟩ := exists_spelling finite
  obtain ⟨y, again⟩ := exists_reread finite
  have same := reread_of_text spells.strict spells.text
  have read := token_numeral spells.strict ends
  rw [spells.text, ← same, again] at read
  exact ⟨s.numeral, same.symm, read⟩

end Json

end EngineConsole
