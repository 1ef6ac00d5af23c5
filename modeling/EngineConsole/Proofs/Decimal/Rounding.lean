import EngineConsole.Decimal.Binary
import Mathlib.Tactic.Ring

/-!
# Rounding decimals

The number nearest to a decimal depends on nothing but the decimal's value: it is found by one
rounding of an exact quotient, whatever the size of the decimal and however many zeros its
coefficient ends with. A magnitude of the format is nearest to itself.
-/

set_option autoImplicit false

namespace EngineConsole

namespace BinaryFormat

variable (f : BinaryFormat)

/-- One has all its fraction bits. -/
def Normal : Prop :=
  f.fractionBits ≤ f.scale

theorem normal_double : BinaryFormat.double.Normal := by
  unfold Normal
  decide

theorem step_eq : f.step = 2 ^ f.fractionBits :=
  Nat.one_shiftLeft _

theorem one_eq : f.one = 2 ^ f.scale :=
  Nat.one_shiftLeft _

theorem step_pos : 0 < f.step := by
  rw [step_eq]
  exact Nat.two_pow_pos _

theorem one_pos : 0 < f.one := by
  rw [one_eq]
  exact Nat.two_pow_pos _

/-! ## The nearest rank -/

/-- Rounding looks at the quotient only. -/
theorem nearestRank_mul (num den : Nat) {k : Nat} (positive : 0 < k) :
    f.nearestRank (num * k) (den * k) = f.nearestRank num den := by
  have quotient (a b : Nat) : a * k / (b * k) = a / b := Nat.mul_div_mul_right a b positive
  unfold nearestRank
  rw [quotient]
  generalize (num / den).log2 - f.fractionBits = shift
  have scaled : (den * k) <<< shift = (den <<< shift) * k := by
    rw [Nat.shiftLeft_eq, Nat.shiftLeft_eq, Nat.mul_right_comm]
  have above : den <<< shift * k < 2 * (num % den <<< shift * k) ↔
      den <<< shift < 2 * (num % den <<< shift) := by
    rw [← Nat.mul_assoc, Nat.mul_lt_mul_right positive]
  have halfway : 2 * (num % den <<< shift * k) = den <<< shift * k ↔
      2 * (num % den <<< shift) = den <<< shift := by
    rw [← Nat.mul_assoc, Nat.mul_left_inj positive.ne']
  dsimp only
  rw [scaled, quotient, Nat.mul_mod_mul_right]
  simp only [above, halfway]

theorem log2_mul_two_pow {n : Nat} (positive : n ≠ 0) (k : Nat) :
    (n * 2 ^ k).log2 = n.log2 + k := by
  induction k with
  | zero => simp
  | succ k ih =>
      have twice : n * 2 ^ (k + 1) = 2 * (n * 2 ^ k) := by ring
      rw [twice, Nat.log2_two_mul (Nat.mul_ne_zero positive (Nat.two_pow_pos k).ne'), ih]
      rfl

/-- Nothing is left over of a unit, so that the quotient is its rank. -/
theorem nearestRank_units (rank : Nat) : f.nearestRank (f.units rank) 1 = rank := by
  have step := f.step_pos
  unfold nearestRank units
  simp only [Nat.div_one]
  by_cases subnormal : rank < f.step
  · have noShift : rank.log2 - f.fractionBits = 0 := by
      by_cases zero : rank = 0
      · simp [zero]
      · have log := (Nat.log2_lt zero).2 (f.step_eq ▸ subnormal)
        omega
    simp [subnormal, noShift, Nat.mod_one]
  · obtain ⟨binade, binades⟩ : ∃ binade, rank / f.step = binade + 1 := by
      have first := (Nat.one_le_div_iff step).2 (not_lt.1 subnormal)
      exact ⟨rank / f.step - 1, by omega⟩
    have below : rank % f.step < f.step := Nat.mod_lt _ step
    have log : (f.step + rank % f.step).log2 = f.fractionBits := by
      rw [Nat.log2_eq_iff (by omega), Nat.pow_succ, ← step_eq]
      omega
    have shift : ((f.step + rank % f.step) <<< (rank / f.step - 1)).log2 - f.fractionBits =
        binade := by
      rw [Nat.shiftLeft_eq, binades, Nat.add_sub_cancel, log2_mul_two_pow (by omega), log]
      exact Nat.add_sub_cancel_left _ _
    have parts : f.step * (rank / f.step) + rank % f.step = rank := Nat.div_add_mod _ _
    rw [binades, Nat.mul_add, Nat.mul_one, Nat.mul_comm] at parts
    simp only [subnormal, if_false, shift]
    simp only [binades, Nat.add_sub_cancel, Nat.shiftLeft_eq, Nat.one_mul]
    rw [Nat.mul_div_cancel _ (Nat.two_pow_pos _), Nat.mul_mod_left]
    have unit := Nat.two_pow_pos binade
    rw [if_neg (by omega)]
    omega

theorem nearestRank_units_mul (rank : Nat) {k : Nat} (positive : 0 < k) :
    f.nearestRank (f.units rank * k) k = rank := by
  have same := f.nearestRank_mul (f.units rank) 1 positive
  rw [Nat.one_mul] at same
  exact same.trans (f.nearestRank_units rank)

theorem nearestRank_zero (den : Nat) : f.nearestRank 0 den = 0 := by
  simp [nearestRank]

/-- Less than half a unit is nearest to none. -/
theorem nearestRank_of_lt {num den : Nat} (small : 2 * num < den) :
    f.nearestRank num den = 0 := by
  have none : num / den = 0 := Nat.div_eq_of_lt (by omega)
  have rest : num % den = num := Nat.mod_eq_of_lt (by omega)
  simp only [nearestRank, none, Nat.log2_zero, Nat.zero_sub, Nat.shiftLeft_zero, rest,
    Nat.zero_mul, Nat.add_zero]
  rw [if_neg (by omega)]

theorem shift_le_nearestRank (num den : Nat) :
    ((num / den).log2 - f.fractionBits) * f.step ≤ f.nearestRank num den := by
  have low : ((num / den).log2 - f.fractionBits) * f.step ≤
      ((num / den).log2 - f.fractionBits) * f.step +
        num / (den <<< ((num / den).log2 - f.fractionBits)) := Nat.le_add_right _ _
  unfold nearestRank
  dsimp only
  split
  · exact low.trans (Nat.le_succ _)
  · exact low

end BinaryFormat

namespace Binary

variable {f : BinaryFormat}

theorem ofRank_of_le {negative : Bool} {rank : Nat} (high : f.ranks ≤ rank) :
    (ofRank negative rank : Binary f) = .infinite negative :=
  dif_neg (Nat.not_lt.mpr high)

theorem ofRank_of_lt {negative : Bool} {rank : Nat} (finite : rank < f.ranks) :
    (ofRank negative rank : Binary f) = .finite negative ⟨rank, finite⟩ :=
  dif_pos finite

theorem rank_of_ofRank {negative negative' : Bool} {rank' : Nat} {rank : Fin f.ranks}
    (same : (ofRank negative rank' : Binary f) = .finite negative' rank) : rank' = rank := by
  unfold ofRank at same
  split at same
  next =>
    injection same with _ equal
    exact congrArg Fin.val equal
  next => cases same

theorem ofRank_inj {negative : Bool} {rank other : Nat} (finite : rank < f.ranks)
    (same : (ofRank negative other : Binary f) = ofRank negative rank) : other = rank := by
  rw [ofRank_of_lt finite] at same
  exact rank_of_ofRank same

/-! ## The number nearest to a decimal -/

section

variable (normal : f.Normal)

include normal

/-- A decimal is rounded once. What is answered early because of its size is what rounding would
have given. -/
theorem ofDecimal_eq (d : Decimal) :
    (ofDecimal d : Binary f) = ofRank d.negative (f.nearestRank
      (d.coefficient * 10 ^ d.exponent.toNat * f.one) (10 ^ (-d.exponent).toNat)) := by
  obtain ⟨negative, coefficient, exponent⟩ := d
  cases exponent with
  | ofNat e =>
      have whole : (-Int.ofNat e).toNat = 0 := by simp
      rw [whole, Nat.pow_zero]
      unfold ofDecimal
      dsimp only
      split
      next zero => simp [zero, BinaryFormat.nearestRank_zero]
      next positive =>
        split
        next beyond =>
          have large : 2 ^ (e + f.scale) ≤ coefficient * 10 ^ e * f.one := by
            rw [Nat.pow_add, f.one_eq]
            have grown : 2 ^ e ≤ 10 ^ e := Nat.pow_le_pow_left (by decide) e
            refine Nat.mul_le_mul_right _ (grown.trans ?_)
            exact Nat.le_mul_of_pos_left _ (Nat.pos_of_ne_zero positive)
          have log := (Nat.le_log2 ((Nat.two_pow_pos _).trans_le large).ne').2 large
          have binades : f.binades ≤ (coefficient * 10 ^ e * f.one).log2 - f.fractionBits := by
            unfold BinaryFormat.Normal at normal
            omega
          have rank := f.shift_le_nearestRank (coefficient * 10 ^ e * f.one) 1
          rw [Nat.div_one] at rank
          exact (ofRank_of_le ((Nat.mul_le_mul_right f.step binades).trans rank)).symm
        next => rfl
  | negSucc e =>
      unfold ofDecimal
      dsimp only
      split
      next under =>
        have log : coefficient < 2 ^ (coefficient.log2 + 1) := Nat.lt_log2_self
        have scaled := Nat.mul_lt_mul_of_pos_right log f.one_pos
        have small : 2 * (coefficient * f.one) < 10 ^ (e + 1) :=
          calc 2 * (coefficient * f.one)
            _ < 2 * (2 ^ (coefficient.log2 + 1) * f.one) := by omega
            _ = 2 ^ (coefficient.log2 + 1 + f.scale + 1) := by
              rw [f.one_eq, ← Nat.pow_add, Nat.pow_succ, Nat.mul_comm]
            _ ≤ 2 ^ (e + 1) := Nat.pow_le_pow_right (by decide) (by omega)
            _ ≤ 10 ^ (e + 1) := Nat.pow_le_pow_left (by decide) _
        simp only [Int.toNat_negSucc, Nat.pow_zero, Nat.mul_one]
        exact congrArg _ (f.nearestRank_of_lt small).symm
      next => simp [ofRatio]

theorem ofDecimal_zero (negative : Bool) (exponent : Int) :
    (ofDecimal ⟨negative, 0, exponent⟩ : Binary f) = ofRank negative 0 := by
  rw [ofDecimal_eq normal]
  simp [BinaryFormat.nearestRank_zero]

/-- Zeros at the end of a coefficient make no difference. -/
theorem ofDecimal_shift (negative : Bool) (coefficient zeros : Nat) (exponent : Int) :
    (ofDecimal ⟨negative, coefficient * 10 ^ zeros, exponent - zeros⟩ : Binary f) =
      ofDecimal ⟨negative, coefficient, exponent⟩ := by
  rw [ofDecimal_eq normal, ofDecimal_eq normal]
  dsimp only
  obtain ⟨more, below⟩ : ∃ more, (-(exponent - zeros)).toNat = (-exponent).toNat + more :=
    ⟨_, (Nat.add_sub_cancel' (by omega)).symm⟩
  have above : zeros + (exponent - zeros).toNat = exponent.toNat + more := by omega
  have num : coefficient * 10 ^ zeros * 10 ^ (exponent - zeros).toNat * f.one =
      coefficient * 10 ^ exponent.toNat * f.one * 10 ^ more := by
    rw [Nat.mul_assoc coefficient, ← Nat.pow_add, above, Nat.pow_add, ← Nat.mul_assoc,
      Nat.mul_right_comm]
  rw [num, below, Nat.pow_add, f.nearestRank_mul _ _ (Nat.pow_pos (by decide))]

/-- What reads back without a sign does so with either sign. -/
theorem ofDecimal_signed {coefficient rank : Nat} {exponent : Int} (finite : rank < f.ranks)
    (reads : (ofDecimal ⟨false, coefficient, exponent⟩ : Binary f) = ofRank false rank)
    (negative : Bool) :
    (ofDecimal ⟨negative, coefficient, exponent⟩ : Binary f) = ofRank negative rank := by
  rw [ofDecimal_eq normal] at reads ⊢
  exact congrArg _ (ofRank_inj finite reads)

/-- A whole number that is a magnitude is read as that magnitude. -/
theorem ofDecimal_whole {rank n : Nat} (whole : f.units rank = n * f.one) (negative : Bool) :
    (ofDecimal ⟨negative, n, 0⟩ : Binary f) = ofRank negative rank := by
  rw [ofDecimal_eq normal]
  simp only [Int.neg_zero, Int.toNat_zero, Nat.pow_zero, Nat.mul_one, ← whole]
  exact congrArg _ (f.nearestRank_units rank)

end

end Binary

end EngineConsole
