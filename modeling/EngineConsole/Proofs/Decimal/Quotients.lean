import EngineConsole.Decimal.Arithmetic
import EngineConsole.Proofs.Decimal.Nearest
import Mathlib.Algebra.Order.Floor.Semifield
import Mathlib.Data.Rat.Floor
import Mathlib.Tactic.NormNum

/-!
# Rounded quotients

What one operation on doubles gives, for values far from the largest finite one: the double nearest
to the exact result. A result that is a double itself is met, and any other one is missed by half
the distance between two doubles of its size at most.
-/

set_option autoImplicit false

namespace EngineConsole

/-! ## Nearest members -/

section

variable {u : Nat → ℚ} {value : ℚ} {rank : Nat}

theorem isNearest_self (rising : StrictMono u) (rank : Nat) : IsNearest u (u rank) rank := by
  intro other different
  left
  rw [sub_self, abs_zero, abs_pos, sub_ne_zero]
  exact rising.injective.ne different

/-- A value between two whole numbers is at most half a unit from one of them. -/
theorem exists_nat_near {value : ℚ} (nonneg : 0 ≤ value) :
    ∃ n : Nat, (n : ℚ) ≤ value + 1 / 2 ∧ |(n : ℚ) - value| ≤ 1 / 2 := by
  have below : ((⌊value + 1 / 2⌋₊ : Nat) : ℚ) ≤ value + 1 / 2 := Nat.floor_le (by linarith)
  have above : value + 1 / 2 < (⌊value + 1 / 2⌋₊ : Nat) + 1 := Nat.lt_floor_add_one _
  refine ⟨_, below, abs_le.mpr ⟨?_, ?_⟩⟩ <;> linarith

theorem IsNearest.whole_within_half (nearest : IsNearest (Nat.cast : Nat → ℚ) value rank)
    (nonneg : 0 ≤ value) : |(rank : ℚ) - value| ≤ 1 / 2 := by
  obtain ⟨n, -, near⟩ := exists_nat_near nonneg
  exact (nearest.le n).trans near

end

/-! ## Doubles and others of their kind -/

namespace BinaryFormat

variable (f : BinaryFormat)

/-- A whole number with no more bits than a fraction has, and one in front, is a magnitude at every
scale. -/
theorem exists_units_eq {n : Nat} (small : n ≤ 2 * f.step) (shift : Nat) :
    ∃ rank, f.units rank = n * 2 ^ shift := by
  induction shift generalizing n with
  | zero =>
      refine ⟨n, ?_⟩
      have units := f.units_eq 0 n (.inl rfl) small
      rwa [Nat.zero_mul, Nat.zero_add] at units
  | succ shift ih =>
      rcases Nat.lt_or_ge n f.step with few | all
      · obtain ⟨rank, units⟩ := ih (show 2 * n ≤ 2 * f.step by omega)
        exact ⟨rank, by rw [units]; ring⟩
      · exact ⟨_, f.units_eq (shift + 1) n (.inr all) small⟩

theorem exists_size_eq {n : Nat} (small : n ≤ 2 * f.step) {k : Nat} (within : k ≤ f.scale) :
    ∃ rank, f.size rank = n / 2 ^ k := by
  obtain ⟨rank, units⟩ := f.exists_units_eq small (f.scale - k)
  refine ⟨rank, ?_⟩
  have parts : (2 : ℚ) ^ f.scale = 2 ^ (f.scale - k) * 2 ^ k := by
    rw [← pow_add, Nat.sub_add_cancel within]
  rw [size, units, one_eq]
  push_cast
  rw [parts]
  field_simp

/-- Where magnitudes are no further apart than `1 / 2 ^ k`, rounding misses by half of that. -/
theorem size_near {value : ℚ} {rank : Nat} (nearest : IsNearest f.size value rank)
    (nonneg : 0 ≤ value) {k : Nat} (within : k ≤ f.scale) (bound : value * 2 ^ k ≤ 2 * f.step) :
    |f.size rank - value| ≤ 1 / 2 ^ (k + 1) := by
  have power : (0 : ℚ) < 2 ^ k := by positivity
  obtain ⟨n, low, near⟩ := exists_nat_near (mul_nonneg nonneg power.le)
  have small : n ≤ 2 * f.step := by
    have below : (n : ℚ) < (2 * f.step + 1 : Nat) := by
      push_cast
      linarith
    exact Nat.le_of_lt_succ (by exact_mod_cast below)
  obtain ⟨other, size⟩ := f.exists_size_eq small within
  calc |f.size rank - value|
    _ ≤ |f.size other - value| := nearest.le other
    _ = |(n : ℚ) - value * 2 ^ k| / 2 ^ k := by
      rw [size, ← abs_of_pos power, ← abs_div, abs_of_pos power, sub_div,
        mul_div_cancel_right₀ _ power.ne']
    _ ≤ 1 / 2 / 2 ^ k := by gcongr
    _ = 1 / 2 ^ (k + 1) := by rw [pow_succ]; field_simp

end BinaryFormat

namespace Double

/-- The value of a finite double without its sign. -/
def value (x : Double) : ℚ :=
  units x / BinaryFormat.double.one

/-- A double is what a value is rounded to, and is neither negative nor infinite. -/
def NearestTo (x : Double) (value : ℚ) : Prop :=
  ∃ rank : Fin BinaryFormat.double.ranks,
    IsNearest BinaryFormat.double.size value rank ∧ x = .finite false rank

section

variable {x y : Double} {v w : ℚ}

theorem value_finite (negative : Bool) (rank : Fin BinaryFormat.double.ranks) :
    value (.finite negative rank) = BinaryFormat.double.size rank :=
  rfl

theorem value_nonneg (x : Double) : 0 ≤ x.value := by
  unfold value
  positivity

/-! ## What rounding keeps -/

theorem NearestTo.mono (nearestTo : NearestTo x v) (nearestTo' : NearestTo y w) (le : v ≤ w) :
    x.value ≤ y.value := by
  have rising := BinaryFormat.double.strictMono_size
  obtain ⟨rank, nearest, rfl⟩ := nearestTo
  obtain ⟨rank', nearest', rfl⟩ := nearestTo'
  exact rising.monotone (nearest.mono rising nearest' le)

/-! The doubles up to `2 ^ 64` have these ranks, all of them finite. -/

theorem exists_size_eq_bound : ∃ top < BinaryFormat.double.ranks,
    BinaryFormat.double.size top = 2 ^ 64 := by
  have units := BinaryFormat.double.units_eq 1086 _ (.inr le_rfl)
    (Nat.le_mul_of_pos_left _ Nat.two_pos)
  refine ⟨1086 * BinaryFormat.double.step + BinaryFormat.double.step, ?_, ?_⟩
  · unfold BinaryFormat.ranks BinaryFormat.step
    decide
  · rw [BinaryFormat.size, units, BinaryFormat.one_eq, BinaryFormat.step_eq]
    simp only [Nat.cast_mul, Nat.cast_pow, Nat.cast_ofNat]
    rw [div_eq_iff (by positivity), ← pow_add, ← pow_add]
    rfl

theorem lt_ranks_of_isNearest {rank : Nat} (nearest : IsNearest BinaryFormat.double.size v rank)
    (bound : v ≤ 2 ^ 64) : rank < BinaryFormat.double.ranks := by
  have rising := BinaryFormat.double.strictMono_size
  obtain ⟨top, finite, size⟩ := exists_size_eq_bound
  exact (nearest.mono rising (isNearest_self rising top) (bound.trans_eq size.symm)).trans_lt finite

theorem NearestTo.value_le (nearestTo : NearestTo x v) (bound : v ≤ 2 ^ 64) : x.value ≤ 2 ^ 64 := by
  have rising := BinaryFormat.double.strictMono_size
  obtain ⟨rank, nearest, rfl⟩ := nearestTo
  obtain ⟨top, -, size⟩ := exists_size_eq_bound
  rw [value_finite, ← size]
  exact rising.monotone (nearest.mono rising (isNearest_self rising top) (bound.trans_eq size.symm))

theorem nearestTo_of_isNearest {rank : Nat} (nearest : IsNearest BinaryFormat.double.size v rank)
    (bound : v ≤ 2 ^ 64) : NearestTo (Binary.ofRank false rank) v :=
  ⟨⟨rank, lt_ranks_of_isNearest nearest bound⟩, nearest, Binary.ofRank_of_lt _⟩

/-- What is a double already is rounded to itself. -/
theorem NearestTo.value_eq (nearestTo : NearestTo x v) {n k : Nat} (small : n ≤ 2 ^ 53)
    (within : k ≤ 1074) (same : v = n / 2 ^ k) : x.value = v := by
  have rising := BinaryFormat.double.strictMono_size
  obtain ⟨rank, nearest, rfl⟩ := nearestTo
  obtain ⟨rank', size⟩ := BinaryFormat.double.exists_size_eq small within
  rw [← same] at size
  rw [← size] at nearest ⊢
  rw [value_finite, nearest.unique rising (isNearest_self rising rank')]

theorem NearestTo.near (nearestTo : NearestTo x v) (nonneg : 0 ≤ v) {k : Nat} (within : k ≤ 1074)
    (bound : v * 2 ^ k ≤ 2 ^ 53) : |x.value - v| ≤ 1 / 2 ^ (k + 1) := by
  obtain ⟨rank, nearest, rfl⟩ := nearestTo
  refine BinaryFormat.double.size_near nearest nonneg within (bound.trans_eq ?_)
  rw [BinaryFormat.step_eq]
  norm_num [BinaryFormat.double]

/-! ## Operations round once -/

theorem nearestTo_ofRatio (num : Nat) {den : Nat} (positive : 0 < den)
    (bound : (num : ℚ) / den ≤ 2 ^ 64) : NearestTo (.ofRatio false num den) (num / den) := by
  have nearest := BinaryFormat.double.isNearest_nearestRank (num * BinaryFormat.double.one) positive
  have one : (BinaryFormat.double.one : ℚ) ≠ 0 := by
    exact_mod_cast BinaryFormat.double.one_pos.ne'
  rw [Nat.cast_mul, mul_div_mul_right _ _ one] at nearest
  exact nearestTo_of_isNearest nearest bound

theorem nearestTo_ofNat {n : Nat} (bound : n ≤ 2 ^ 64) : NearestTo (.ofNat n) n := by
  have nearest := nearestTo_ofRatio n Nat.one_pos
  rw [Nat.cast_one, div_one] at nearest
  exact nearest (by exact_mod_cast bound)

theorem value_ofNat {n : Nat} (small : n ≤ 2 ^ 53) : value (.ofNat n) = n :=
  (nearestTo_ofNat (small.trans (by decide))).value_eq small (Nat.zero_le _) (by simp)

theorem nearestTo_div (positive : 0 < y.value) (bound : x.value / y.value ≤ 2 ^ 64) :
    NearestTo (x.div y) (x.value / y.value) := by
  have one : (BinaryFormat.double.one : ℚ) ≠ 0 := by
    exact_mod_cast BinaryFormat.double.one_pos.ne'
  have quotient : x.value / y.value = units x / units y := div_div_div_cancel_right₀ one _ _
  rw [quotient] at bound ⊢
  refine nearestTo_ofRatio _ (Nat.pos_of_ne_zero fun none => ?_) bound
  simp [value, none] at positive

theorem nearestTo_mul (bound : x.value * y.value ≤ 2 ^ 64) :
    NearestTo (x.mul y) (x.value * y.value) := by
  have product : x.value * y.value =
      ((units x * units y : Nat) : ℚ) /
        (BinaryFormat.double.one * BinaryFormat.double.one : Nat) := by
    rw [value, value, div_mul_div_comm, Nat.cast_mul, Nat.cast_mul]
  rw [product] at bound ⊢
  exact nearestTo_ofRatio _
    (Nat.mul_pos BinaryFormat.double.one_pos BinaryFormat.double.one_pos) bound

/-! ## Whole numbers -/

theorem round_eq_floor (x : Double) : x.round = ⌊x.value + 1 / 2⌋₊ := by
  have one : (BinaryFormat.double.one : ℚ) ≠ 0 := by
    exact_mod_cast BinaryFormat.double.one_pos.ne'
  have halves : x.value + 1 / 2 =
      ((2 * units x + BinaryFormat.double.one : Nat) : ℚ) /
        (2 * BinaryFormat.double.one : Nat) := by
    rw [value]
    push_cast
    field_simp
  rw [halves, Nat.floor_div_eq_div]
  rfl

theorem isNearest_roundEven (num : Nat) {den : Nat} (positive : 0 < den) :
    IsNearest (Nat.cast : Nat → ℚ) (num / den) (roundEven num den) := by
  have whole : (0 : ℚ) < den := by exact_mod_cast positive
  have parts : (den : ℚ) * (num / den : Nat) + (num % den : Nat) = num := by
    exact_mod_cast Nat.div_add_mod num den
  have rest : ((num % den : Nat) : ℚ) < den := by exact_mod_cast Nat.mod_lt num positive
  have least : (0 : ℚ) ≤ (num % den : Nat) := Nat.cast_nonneg _
  have up : 2 * (num % den) = den ↔ 2 * ((num % den : Nat) : ℚ) = den := by norm_cast
  have more : den < 2 * (num % den) ↔ (den : ℚ) < 2 * (num % den : Nat) := by norm_cast
  have less : (num : ℚ) / den - (num / den : Nat) = (num % den : Nat) / den := by
    rw [← parts]
    field_simp
    ring
  unfold roundEven
  simp only [up, more]
  generalize num / den = low at *
  generalize ((num % den : Nat) : ℚ) = rem at *
  have part : 0 ≤ rem / den := div_nonneg least whole.le
  have below : rem / den < 1 := (div_lt_one whole).mpr rest
  have twice : 2 * (rem / den) = 2 * rem / den := by ring
  split
  next past =>
    refine isNearest_upper Nat.strictMono_cast (by linarith) (by push_cast; linarith) ?_
    push_cast
    rcases past with beyond | ⟨tie, odd⟩
    · have := (one_lt_div whole).mpr beyond
      left
      linarith
    · have := (div_eq_one_iff_eq whole.ne').mpr tie
      exact .inr ⟨by linarith, odd⟩
  next before =>
    refine isNearest_lower Nat.strictMono_cast (by linarith) (by push_cast; linarith) ?_
    push_cast
    obtain ⟨under, tie⟩ := not_or.mp before
    rcases (not_lt.mp under).lt_or_eq with under | equal
    · have := (div_lt_one whole).mpr under
      left
      linarith
    · have := (div_eq_one_iff_eq whole.ne').mpr equal
      have even : ¬low % 2 = 1 := fun odd => tie ⟨equal, odd⟩
      exact .inr ⟨by linarith, by omega⟩

theorem isNearest_tenths (x : Double) :
    IsNearest (Nat.cast : Nat → ℚ) (10 * x.value) x.tenths := by
  have nearest := isNearest_roundEven (10 * units x) BinaryFormat.double.one_pos
  rwa [Nat.cast_mul, mul_div_assoc] at nearest

end

end Double

end EngineConsole
