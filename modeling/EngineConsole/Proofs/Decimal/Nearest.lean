import EngineConsole.Proofs.Decimal.Rounding
import Mathlib.Algebra.Order.Field.Rat
import Mathlib.Algebra.Order.AbsoluteValue.Basic
import Mathlib.Algebra.Field.Rat
import Mathlib.Data.Rat.Cast.Order
import Mathlib.Order.Monotone.Basic
import Mathlib.Tactic.Linarith
import Mathlib.Tactic.FieldSimp
import Mathlib.Tactic.Positivity

/-!
# The nearest number

What rounding promises, told without an algorithm: of all magnitudes of a format the one that is
nearest to a value, and of two that are equally near the one of even rank. There is exactly one such
magnitude, it grows with the value, and it is the one that decimals are read as.
-/

set_option autoImplicit false

namespace EngineConsole

/-! ## The nearest of a rising sequence -/

section

variable {u : Nat → ℚ} {value other : ℚ} {rank : Nat}

/-- No other member is as near to the value, unless the rank is even and it is no nearer. -/
def IsNearest (u : Nat → ℚ) (value : ℚ) (rank : Nat) : Prop :=
  ∀ other, other ≠ rank → |u rank - value| < |u other - value| ∨
    |u rank - value| = |u other - value| ∧ rank % 2 = 0

theorem IsNearest.le (nearest : IsNearest u value rank) (other : Nat) :
    |u rank - value| ≤ |u other - value| := by
  by_cases same : other = rank
  · rw [same]
  · rcases nearest other same with nearer | ⟨equal, -⟩
    · exact nearer.le
    · exact equal.le

section

variable (rising : StrictMono u)

include rising

/-- Of the two members around a value the lower one is nearest. -/
theorem isNearest_lower {low : Nat} (above : u low ≤ value) (below : value ≤ u (low + 1))
    (near : value - u low < u (low + 1) - value ∨
      value - u low = u (low + 1) - value ∧ low % 2 = 0) : IsNearest u value low := by
  intro other different
  have distance : |u low - value| = value - u low := by
    rw [abs_sub_comm, abs_of_nonneg (by linarith)]
  rw [distance]
  rcases Nat.lt_or_gt_of_ne different with before | after
  · have less := rising before
    left
    rw [abs_sub_comm, abs_of_nonneg (by linarith)]
    linarith
  · have more : u (low + 1) ≤ u other := rising.monotone after
    rw [abs_of_nonneg (by linarith)]
    rcases near with nearer | ⟨equal, even⟩
    · left
      linarith
    · rcases (by linarith : value - u low ≤ u other - value).lt_or_eq with nearer | equal
      · exact .inl nearer
      · exact .inr ⟨equal, even⟩

theorem isNearest_upper {low : Nat} (above : u low ≤ value) (below : value ≤ u (low + 1))
    (near : u (low + 1) - value < value - u low ∨
      u (low + 1) - value = value - u low ∧ low % 2 = 1) : IsNearest u value (low + 1) := by
  intro other different
  have distance : |u (low + 1) - value| = u (low + 1) - value := abs_of_nonneg (by linarith)
  rw [distance]
  rcases Nat.lt_or_gt_of_ne different with before | after
  · have less : u other ≤ u low := rising.monotone (Nat.le_of_lt_succ before)
    rw [abs_sub_comm, abs_of_nonneg (by linarith)]
    rcases near with nearer | ⟨equal, odd⟩
    · left
      linarith
    · rcases (by linarith : u (low + 1) - value ≤ value - u other).lt_or_eq with nearer | equal
      · exact .inl nearer
      · exact .inr ⟨equal, by omega⟩
  · have more := rising after
    left
    rw [abs_of_nonneg (by linarith)]
    linarith

/-- A member before the nearest one is as far away at least: the value lies past the middle of the
two, or in it. -/
theorem IsNearest.past_middle {before : Nat} (nearest : IsNearest u value rank)
    (less : before < rank) : u before + u rank ≤ 2 * value := by
  have apart := rising less
  have near := nearest.le before
  by_contra short
  have left : |u before - value| < |u rank - value| := by
    rw [abs_lt]
    have size := le_abs_self (u rank - value)
    constructor <;> linarith
  exact absurd near (not_le.mpr left)

theorem IsNearest.before_middle {after : Nat} (nearest : IsNearest u value rank)
    (more : rank < after) : 2 * value ≤ u rank + u after := by
  have apart := rising more
  have near := nearest.le after
  by_contra past
  have right : |u after - value| < |u rank - value| := by
    rw [abs_lt]
    have size := neg_le_abs (u rank - value)
    constructor <;> linarith
  exact absurd near (not_le.mpr right)

/-- The nearest member grows with the value. One in the middle of two members has an odd one between
them, which is nearer. -/
theorem IsNearest.mono {rank' : Nat} (nearest : IsNearest u value rank)
    (nearest' : IsNearest u other rank') (le : value ≤ other) : rank ≤ rank' := by
  by_contra more
  have less : rank' < rank := Nat.lt_of_not_le more
  have past := nearest.past_middle rising less
  have before := nearest'.before_middle rising less
  obtain rfl : value = other := le_antisymm le (by linarith)
  have middle : 2 * value = u rank' + u rank := le_antisymm before past
  have apart := rising less
  have distance : |u rank' - value| = |u rank - value| := by
    rw [abs_sub_comm, abs_of_nonneg (by linarith), abs_of_nonneg (by linarith)]
    linarith
  have even : rank % 2 = 0 := ((nearest rank' less.ne).resolve_left distance.not_gt).2
  have even' : rank' % 2 = 0 := ((nearest' rank less.ne').resolve_left distance.symm.not_gt).2
  have between := rising (show rank' < rank' + 1 by omega)
  have between' := rising (show rank' + 1 < rank by omega)
  have far := nearest.le (rank' + 1)
  have near : |u (rank' + 1) - value| < |u rank - value| := by
    rw [abs_of_nonneg (by linarith : 0 ≤ u rank - value), abs_lt]
    constructor <;> linarith
  exact absurd far (not_le.mpr near)

theorem IsNearest.unique {rank' : Nat} (nearest : IsNearest u value rank)
    (nearest' : IsNearest u value rank') : rank = rank' :=
  Nat.le_antisymm (nearest.mono rising nearest' le_rfl) (nearest'.mono rising nearest le_rfl)

end

end

/-! ## Magnitudes -/

namespace BinaryFormat

variable (f : BinaryFormat)

theorem units_eq (shift k : Nat) (normal : shift = 0 ∨ f.step ≤ k) (small : k ≤ 2 * f.step) :
    f.units (shift * f.step + k) = k * 2 ^ shift := by
  have step := f.step_pos
  unfold units
  rcases Nat.lt_or_ge k f.step with below | above
  · obtain rfl := normal.resolve_right (Nat.not_le.mpr below)
    rw [Nat.zero_mul, Nat.zero_add, if_pos below, Nat.pow_zero, Nat.mul_one]
  · rw [if_neg (by nlinarith), Nat.shiftLeft_eq]
    rcases Nat.lt_or_ge k (2 * f.step) with inside | last
    · obtain ⟨rest, rfl⟩ := Nat.exists_eq_add_of_le above
      have place : shift * f.step + (f.step + rest) = rest + f.step * (shift + 1) := by ring
      rw [place, Nat.add_mul_mod_self_left, Nat.add_mul_div_left _ _ step,
        Nat.mod_eq_of_lt (by omega), Nat.div_eq_of_lt (by omega)]
      simp
    · obtain rfl : k = 2 * f.step := Nat.le_antisymm small last
      have place : shift * f.step + 2 * f.step = f.step * (shift + 2) := by ring
      rw [place, Nat.mul_mod_right, Nat.mul_div_cancel_left _ step]
      have power : shift + 2 - 1 = shift + 1 := rfl
      rw [power]
      ring

theorem units_succ (rank : Nat) : f.units (rank + 1) = f.units rank + 2 ^ (rank / f.step - 1) := by
  have step := f.step_pos
  have parts : rank / f.step * f.step + rank % f.step = rank := Nat.div_add_mod' rank f.step
  have below : rank % f.step < f.step := Nat.mod_lt _ step
  generalize rank / f.step = binade at parts ⊢
  cases binade with
  | zero =>
      have low := f.units_eq 0 rank (.inl rfl) (by omega)
      have high := f.units_eq 0 (rank + 1) (.inl rfl) (by omega)
      simp only [Nat.zero_mul, Nat.zero_add, Nat.pow_zero, Nat.mul_one] at low high
      rw [low, high]
      rfl
  | succ shift =>
      have place : shift * f.step + (f.step + rank % f.step) = rank := by
        rw [← Nat.add_assoc, ← Nat.succ_mul]
        exact parts
      have low := f.units_eq shift (f.step + rank % f.step) (.inr (by omega))
        (by omega)
      have high := f.units_eq shift (f.step + rank % f.step + 1) (.inr (by omega))
        (by omega)
      rw [← Nat.add_assoc, place] at high
      rw [place] at low
      rw [low, high, Nat.add_sub_cancel]
      ring

/-- The size of a finite number. -/
def size (rank : Nat) : ℚ :=
  f.units rank / f.one

theorem strictMono_size : StrictMono f.size := by
  refine strictMono_nat_of_lt_succ fun rank => ?_
  have one : (0 : ℚ) < f.one := by exact_mod_cast f.one_pos
  have more : f.units rank < f.units (rank + 1) := by
    rw [units_succ]
    exact Nat.lt_add_of_pos_right (Nat.two_pow_pos _)
  exact (div_lt_div_iff_of_pos_right one).mpr (by exact_mod_cast more)

/-- Scaled down, a number of units has all its bits, or is subnormal and was not scaled. -/
theorem scaled_in_binade (n : Nat) {shift : Nat} (shifted : n.log2 - f.fractionBits = shift) :
    (shift = 0 ∨ f.step ≤ n / 2 ^ shift) ∧ n / 2 ^ shift < 2 * f.step := by
  rw [step_eq, ← Nat.pow_succ']
  constructor
  · by_cases none : n = 0
    · left
      rw [← shifted, none, Nat.log2_zero, Nat.zero_sub]
    · rw [or_iff_not_imp_left]
      intro scaled
      rw [Nat.le_div_iff_mul_le (Nat.two_pow_pos shift), ← Nat.pow_add]
      exact (Nat.le_log2 none).mp (by omega)
  · rw [Nat.div_lt_iff_lt_mul (Nat.two_pow_pos shift), ← Nat.pow_add]
    exact Nat.lt_log2_self.trans_le (Nat.pow_le_pow_right (by decide) (by omega))

/-- How far a quotient lies from the magnitudes around it. -/
theorem size_gaps {num den k rem shift rank : Nat} (positive : 0 < den)
    (parts : den * 2 ^ shift * k + rem = num) (low : f.units rank = k * 2 ^ shift)
    (high : f.units (rank + 1) = (k + 1) * 2 ^ shift) :
    (num : ℚ) / (den * f.one) - f.size rank = rem / (den * f.one) ∧
      f.size (rank + 1) - num / (den * f.one) = (den * 2 ^ shift - rem) / (den * f.one) := by
  have one : (0 : ℚ) < f.one := by exact_mod_cast f.one_pos
  have whole : (0 : ℚ) < den := by exact_mod_cast positive
  have value : (num : ℚ) = den * 2 ^ shift * k + rem := by exact_mod_cast parts.symm
  constructor
  · rw [size, low, value]
    push_cast
    field_simp
    ring
  · rw [size, high, value]
    push_cast
    field_simp
    ring

/-- Rounding a quotient of units takes the nearest magnitude. -/
theorem isNearest_nearestRank (num : Nat) {den : Nat} (positive : 0 < den) :
    IsNearest f.size (num / (den * f.one)) (f.nearestRank num den) := by
  have step := f.step_pos
  unfold nearestRank
  generalize shifted : (num / den).log2 - f.fractionBits = shift
  dsimp only
  rw [Nat.shiftLeft_eq]
  have divisor : 0 < den * 2 ^ shift := Nat.mul_pos positive (Nat.two_pow_pos shift)
  have parts : den * 2 ^ shift * (num / (den * 2 ^ shift)) + num % (den * 2 ^ shift) = num :=
    Nat.div_add_mod _ _
  have rest : num % (den * 2 ^ shift) < den * 2 ^ shift := Nat.mod_lt _ divisor
  obtain ⟨normal, small⟩ := f.scaled_in_binade (num / den) shifted
  rw [Nat.div_div_eq_div_mul] at normal small
  generalize num / (den * 2 ^ shift) = k at parts normal small ⊢
  generalize num % (den * 2 ^ shift) = rem at parts rest ⊢
  have low := f.units_eq shift k normal small.le
  have high := f.units_eq shift (k + 1) (normal.imp_right Nat.le_succ_of_le) small
  rw [← Nat.add_assoc] at high
  generalize shift * f.step + k = rank at low high ⊢
  obtain ⟨past, ahead⟩ := f.size_gaps positive parts low high
  have one : (0 : ℚ) < f.one := by exact_mod_cast f.one_pos
  have whole : (0 : ℚ) < den * f.one := mul_pos (by exact_mod_cast positive) one
  have bound : (rem : ℚ) < den * 2 ^ shift := by exact_mod_cast rest
  have above : f.size rank ≤ num / (den * f.one) := by
    have := div_nonneg (Nat.cast_nonneg (α := ℚ) rem) whole.le
    linarith
  have below : (num : ℚ) / (den * f.one) ≤ f.size (rank + 1) := by
    have := div_nonneg (sub_nonneg.mpr bound.le) whole.le
    linarith
  split
  next up =>
    refine isNearest_upper f.strictMono_size above below ?_
    rw [past, ahead, div_lt_div_iff_of_pos_right whole, div_left_inj' whole.ne']
    rcases up with more | ⟨equal, odd⟩
    · have : (den * 2 ^ shift : ℚ) < 2 * rem := by exact_mod_cast more
      left
      linarith
    · have : (2 * rem : ℚ) = den * 2 ^ shift := by exact_mod_cast equal
      exact .inr ⟨by linarith, odd⟩
  next down =>
    refine isNearest_lower f.strictMono_size above below ?_
    rw [past, ahead, div_lt_div_iff_of_pos_right whole, div_left_inj' whole.ne']
    obtain ⟨less, tie⟩ := not_or.mp down
    rcases Nat.lt_or_eq_of_le (Nat.le_of_not_lt less) with less | equal
    · have : (2 * rem : ℚ) < den * 2 ^ shift := by exact_mod_cast less
      left
      linarith
    · have : (2 * rem : ℚ) = den * 2 ^ shift := by exact_mod_cast equal
      exact .inr ⟨by linarith, by omega⟩

end BinaryFormat

/-! ## Decimals -/

namespace Decimal

/-- The size of a decimal. -/
def size (d : Decimal) : ℚ :=
  d.coefficient * 10 ^ d.exponent

theorem size_eq (d : Decimal) : d.size =
    (d.coefficient * 10 ^ d.exponent.toNat : Nat) / (10 ^ (-d.exponent).toNat : Nat) := by
  obtain ⟨negative, coefficient, exponent⟩ := d
  unfold size
  cases exponent with
  | ofNat e => simp
  | negSucc e =>
      simp [zpow_negSucc, div_eq_mul_inv]

end Decimal

namespace Binary

variable {f : BinaryFormat}

/-- A number is what a decimal is rounded to: of the decimal's sign and of the magnitude that is
nearest to it, which is infinite past the last finite one. -/
def Rounds (x : Binary f) (d : Decimal) : Prop :=
  ∃ rank, IsNearest f.size d.size rank ∧ x = ofRank d.negative rank

section

variable (normal : f.Normal)

include normal

theorem rounds_ofDecimal (d : Decimal) : (ofDecimal d : Binary f).Rounds d := by
  refine ⟨_, ?_, ofDecimal_eq normal d⟩
  have positive : 0 < 10 ^ (-d.exponent).toNat := Nat.pow_pos (by decide)
  have nearest := f.isNearest_nearestRank (d.coefficient * 10 ^ d.exponent.toNat * f.one) positive
  have one : (f.one : ℚ) ≠ 0 := by exact_mod_cast f.one_pos.ne'
  rwa [Nat.cast_mul, mul_div_mul_right _ _ one, ← d.size_eq] at nearest

theorem rounds_iff {x : Binary f} {d : Decimal} : x.Rounds d ↔ x = ofDecimal d := by
  constructor
  · rintro ⟨rank, nearest, rfl⟩
    obtain ⟨other, nearest', same⟩ := rounds_ofDecimal normal d
    rw [same, nearest.unique f.strictMono_size nearest']
  · rintro rfl
    exact rounds_ofDecimal normal d

/-- What is no larger than a decimal with a finite number has one itself. -/
theorem isFinite_ofDecimal_mono {d e : Decimal} (le : d.size ≤ e.size)
    (finite : (ofDecimal e : Binary f).isFinite = true) :
    (ofDecimal d : Binary f).isFinite = true := by
  obtain ⟨rank, nearest, same⟩ := rounds_ofDecimal normal d
  obtain ⟨rank', nearest', same'⟩ := rounds_ofDecimal normal e
  have less := nearest.mono f.strictMono_size nearest' le
  rw [same'] at finite
  rcases Nat.lt_or_ge rank' f.ranks with small | large
  · rw [same, ofRank_of_lt (less.trans_lt small)]
    rfl
  · rw [ofRank_of_le large] at finite
    cases finite

end

end Binary

end EngineConsole
