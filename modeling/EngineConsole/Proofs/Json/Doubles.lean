import EngineConsole.Json.Number
import EngineConsole.Proofs.Decimal.Beginnings
import EngineConsole.Proofs.Decimal.Quotients

/-!
# Numbers read as doubles

The double of a number is the nearest one where the digits of the number are a double and the power
of ten is another: only the last operation rounds then. A number is in range unless it is scaled up,
and if it is in range, then so is what it begins with.
-/

set_option autoImplicit false

namespace EngineConsole

namespace Binary

variable {f : BinaryFormat}

theorem isFinite_ofRank_iff {negative : Bool} {rank : Nat} :
    (ofRank negative rank : Binary f).isFinite = true ↔ rank < f.ranks := by
  unfold ofRank
  split
  next finite => simp [isFinite, finite]
  next infinite => simp [isFinite, infinite]

end Binary

/-! ## Operations keep the order -/

theorem BinaryFormat.nearestRank_mono (f : BinaryFormat) {num num' den : Nat} (le : num ≤ num')
    (positive : 0 < den) : f.nearestRank num den ≤ f.nearestRank num' den := by
  have le' : (num : ℚ) ≤ num' := mod_cast le
  have quotient : (num : ℚ) / (den * f.one) ≤ num' / (den * f.one) := by gcongr
  exact (f.isNearest_nearestRank num positive).mono f.strictMono_size
    (f.isNearest_nearestRank num' positive) quotient

theorem BinaryFormat.units_mono (f : BinaryFormat) {rank rank' : Nat} (le : rank ≤ rank') :
    f.units rank ≤ f.units rank' := by
  have one : (0 : ℚ) < f.one := mod_cast f.one_pos
  exact_mod_cast (div_le_div_iff_of_pos_right one).mp (f.strictMono_size.monotone le)

namespace Double

section

variable {num num' den : Nat} (le : num ≤ num') (positive : 0 < den)
  (finite : (Binary.ofRatio false num' den : Double).isFinite = true)

include le positive finite

theorem isFinite_ofRatio_mono : (Binary.ofRatio false num den : Double).isFinite = true := by
  unfold Binary.ofRatio at finite ⊢
  rw [Binary.isFinite_ofRank_iff] at finite ⊢
  exact (BinaryFormat.nearestRank_mono _ (Nat.mul_le_mul_right _ le) positive).trans_lt finite

theorem units_ofRatio_mono : units (.ofRatio false num den) ≤ units (.ofRatio false num' den) := by
  have finite' := isFinite_ofRatio_mono le positive finite
  unfold Binary.ofRatio at finite finite' ⊢
  rw [Binary.isFinite_ofRank_iff] at finite finite'
  rw [Binary.ofRank_of_lt finite, Binary.ofRank_of_lt finite']
  exact BinaryFormat.units_mono _
    (BinaryFormat.nearestRank_mono _ (Nat.mul_le_mul_right _ le) positive)

end

theorem isFinite_mul_mono {x x' y y' : Double} (le : units x ≤ units x') (le' : units y ≤ units y')
    (finite : (x'.mul y').isFinite = true) : (x.mul y).isFinite = true :=
  isFinite_ofRatio_mono (Nat.mul_le_mul le le')
    (Nat.mul_pos BinaryFormat.double.one_pos BinaryFormat.double.one_pos) finite

theorem NearestTo.isFinite {x : Double} {v : ℚ} (nearestTo : NearestTo x v) :
    x.isFinite = true := by
  obtain ⟨rank, -, rfl⟩ := nearestTo
  rfl

end Double

namespace Json

open Decimal (ofDigits)

/-! ## Significands -/

theorem gather_ofDigits {cs ds : List Char} (fits : ofDigits (cs ++ ds) ≤ significandBound) :
    gather (ofDigits cs) ds = (ofDigits (cs ++ ds), []) := by
  induction ds generalizing cs with
  | nil => simp [gather]
  | cons d more ih =>
      have next : 10 * ofDigits cs + Decimal.digitValue d = ofDigits (cs ++ [d]) :=
        (Decimal.ofDigits_concat cs d).symm
      have split : cs ++ d :: more = (cs ++ [d]) ++ more := List.append_cons cs d more
      rw [split] at fits ⊢
      have small := (Decimal.ofDigits_le_append (cs ++ [d]) more).trans fits
      rw [gather, next]
      exact (if_pos small).trans (ih fits)

theorem gather_le {significand : Nat} (small : significand ≤ significandBound) (ds : List Char) :
    (gather significand ds).1 ≤ significandBound := by
  induction ds generalizing significand with
  | nil => exact small
  | cons d more ih =>
      unfold gather
      dsimp only
      split
      next fits => exact ih fits
      next => exact small

theorem parts_of_le {n : Numeral} (fits : n.value.coefficient ≤ significandBound) :
    parts n = (n.value.coefficient, n.value.exponent) := by
  have whole : gather 0 n.whole = (ofDigits n.whole, []) :=
    @gather_ofDigits [] n.whole ((Decimal.ofDigits_le_append _ _).trans fits)
  have fraction : gather (ofDigits n.whole) n.fraction = (ofDigits (n.whole ++ n.fraction), []) :=
    gather_ofDigits fits
  unfold parts
  rw [whole]
  dsimp only
  rw [fraction]
  simp [Numeral.value]

theorem gather_truncates (cs ds : List Char) :
    (gather (ofDigits cs) ds).2.length ≤ ds.length ∧
      (gather (ofDigits cs) ds).1 * 10 ^ (gather (ofDigits cs) ds).2.length ≤
        ofDigits (cs ++ ds) := by
  induction ds generalizing cs with
  | nil => simp [gather]
  | cons d more ih =>
      unfold gather
      dsimp only
      split
      next =>
        obtain ⟨shorter, truncated⟩ := ih (cs ++ [d])
        rw [← Decimal.ofDigits_concat]
        exact ⟨shorter.trans (Nat.le_succ _), List.append_cons cs d more ▸ truncated⟩
      next =>
        rw [Decimal.ofDigits_append]
        exact ⟨le_rfl, Nat.le_add_right _ _⟩

/-- Where the digits before the point fit, some of those after it are taken, and the exponent counts
these. The number is not made larger. -/
theorem exists_parts {whole : List Char} (fits : ofDigits whole ≤ significandBound)
    (fraction : List Char) : ∃ significand ≤ significandBound, ∃ taken ≤ fraction.length,
      significand * 10 ^ (fraction.length - taken) ≤ ofDigits (whole ++ fraction) ∧
        ∀ negative exponent plain, parts ⟨negative, whole, fraction, exponent, plain⟩ =
          (significand, exponent - taken) := by
  have all : gather 0 whole = (ofDigits whole, []) := @gather_ofDigits [] whole fits
  obtain ⟨shorter, truncated⟩ := gather_truncates whole fraction
  refine ⟨_, gather_le fits fraction,
    fraction.length - (gather (ofDigits whole) fraction).2.length, Nat.sub_le _ _, ?_,
    fun negative exponent plain => ?_⟩
  · rwa [Nat.sub_sub_self shorter]
  · unfold parts
    dsimp only
    rw [all]
    simp only [List.length_nil, Nat.cast_zero, Int.add_zero]

/-! ## Range -/

theorem isFinite_power_mono {e e' : Nat} (le : e ≤ e') (finite : (power e').isFinite = true) :
    (power e).isFinite = true :=
  Double.isFinite_ofRatio_mono (Nat.pow_le_pow_right (by decide) le) Nat.one_pos finite

theorem isFinite_power {e : Nat} (small : e ≤ largestPower) : (power e).isFinite = true :=
  isFinite_power_mono small (by decide +kernel)

theorem units_power_mono {e e' : Nat} (le : e ≤ e') (small : e' ≤ largestPower) :
    Double.units (power e) ≤ Double.units (power e') :=
  Double.units_ofRatio_mono (Nat.pow_le_pow_right (by decide) le) Nat.one_pos
    (isFinite_power small)

theorem value_power_zero : (power 0).value = 1 := by
  have value := @Double.value_ofNat 1 (by decide)
  rwa [Nat.cast_one] at value

theorem one_le_value_power {e : Nat} (small : e ≤ largestPower) : 1 ≤ (power e).value := by
  have le : (Double.units (power 0) : ℚ) ≤ Double.units (power e) :=
    mod_cast units_power_mono (Nat.zero_le e) small
  rw [← value_power_zero]
  exact div_le_div_of_nonneg_right le (Nat.cast_nonneg _)

theorem nearestTo_div_power {x : Double} (bound : x.value ≤ 2 ^ 64) {e : Nat}
    (small : e ≤ largestPower) : ∃ v ≤ 2 ^ 64, Double.NearestTo (x.div (power e)) v := by
  have one := one_le_value_power small
  have less : x.value / (power e).value ≤ 2 ^ 64 :=
    (div_le_self x.value_nonneg one).trans bound
  exact ⟨_, less, Double.nearestTo_div (one_pos.trans_le one) less⟩

theorem isFinite_divided {x : Double} (finite : x.isFinite = true) (bound : x.value ≤ 2 ^ 64)
    {rest : Nat} (small : rest ≤ largestPower) (times : Nat) :
    (divided x rest times).isFinite = true := by
  induction times generalizing x with
  | zero =>
      obtain ⟨v, -, nearest⟩ := nearestTo_div_power bound small
      exact nearest.isFinite
  | succ times ih =>
      unfold divided
      split
      next => exact finite
      next =>
        obtain ⟨v, less, nearest⟩ := nearestTo_div_power bound le_rfl
        exact ih nearest.isFinite (nearest.value_le less)

theorem scaled_of_le (significand : Nat) {e : Nat} (small : e ≤ largestPower) :
    scaled significand e = Double.mul (.ofNat significand) (power e) :=
  if_pos small

theorem scaled_of_lt (significand : Nat) {e : Nat} (large : largestPower < e) :
    scaled significand e = if significand = 0 then .ofNat 0 else .infinite false :=
  if_neg (Nat.not_le.mpr large)

theorem isFinite_scaled_of_nonpos {significand : Nat} (small : significand ≤ significandBound)
    {e : Int} (nonpos : e ≤ 0) : (scaled significand e).isFinite = true := by
  have bound : significand ≤ 2 ^ 64 := small.trans (by decide)
  have nearest := Double.nearestTo_ofNat bound
  have le := nearest.value_le (by exact_mod_cast bound)
  cases e with
  | negSucc e =>
      have rest : e % largestPower + 1 ≤ largestPower := Nat.mod_lt e (by decide)
      exact isFinite_divided nearest.isFinite le rest _
  | ofNat e =>
      obtain rfl : e = 0 := Int.ofNat.inj (le_antisymm nonpos (Int.natCast_nonneg e))
      have product : Double.value (.ofNat significand) * (power 0).value ≤ 2 ^ 64 := by
        rwa [value_power_zero, mul_one]
      have unscaled := scaled_of_le significand (Nat.zero_le largestPower)
      exact unscaled ▸ (Double.nearestTo_mul product).isFinite

theorem isFinite_scaled_zero (e : Nat) : (scaled 0 e).isFinite = true := by
  rcases Nat.lt_or_ge largestPower e with large | small
  · rw [scaled_of_lt _ large]
    rfl
  · have none : Double.units (.ofNat 0) = 0 := rfl
    rw [scaled_of_le _ small, Double.mul, none, Nat.zero_mul, Binary.ofRatio, Nat.zero_mul,
      BinaryFormat.nearestRank_zero]
    rfl

theorem isFinite_scaled_mono {significand : Nat} (small : significand ≤ significandBound)
    {e e' : Int} (le : e ≤ 0 ∨ e ≤ e') (finite : (scaled significand e').isFinite = true) :
    (scaled significand e).isFinite = true := by
  rcases Int.lt_or_le 0 e with up | nonpos
  · have less := le.resolve_left (Int.not_le.mpr up)
    lift e' to Nat using up.le.trans less
    lift e to Nat using up.le
    have less : e ≤ e' := by exact_mod_cast less
    rcases Nat.lt_or_ge largestPower e' with large | inRange
    · rw [scaled_of_lt _ large] at finite
      split at finite
      next none => exact none ▸ isFinite_scaled_zero e
      next => cases finite
    · rw [scaled_of_le _ inRange] at finite
      rw [scaled_of_le _ (less.trans inRange)]
      exact Double.isFinite_mul_mono le_rfl (units_power_mono less inRange) finite
  · exact isFinite_scaled_of_nonpos small nonpos

/-- The third largest double. What is not larger stays in range, whichever way its significand and
its power of ten are rounded. -/
def safeBound : Nat := 2 ^ 1024 - 3 * 2 ^ 971

theorem isFinite_scaled_of_size {significand e : Nat} (small : significand ≤ significandBound)
    (size : significand * 10 ^ e ≤ safeBound) : (scaled significand e).isFinite = true := by
  have grows {significand' : Nat} (le : significand ≤ significand') (small : significand' ≤ 2 ^ 64)
      (inRange : e ≤ largestPower) (finite : (scaled significand' e).isFinite = true) :
      (scaled significand e).isFinite = true := by
    rw [scaled_of_le _ inRange] at finite ⊢
    have finite' := (Double.nearestTo_ofNat small).isFinite
    exact Double.isFinite_mul_mono (Double.units_ofRatio_mono le Nat.one_pos finite') le_rfl finite
  rcases Nat.lt_or_ge largestPower e with beyond | inRange
  · have none : significand = 0 := by
      by_contra some
      have power : 10 ^ (largestPower + 1) ≤ 10 ^ e := Nat.pow_le_pow_right (by decide) beyond
      have least := Nat.le_mul_of_pos_left (10 ^ e) (Nat.pos_of_ne_zero some)
      have less : safeBound < 10 ^ (largestPower + 1) := by decide +kernel
      exact absurd size (Nat.not_le.mpr (less.trans_le (power.trans least)))
    exact none ▸ isFinite_scaled_zero e
  rcases Nat.lt_or_ge e 289 with few | many
  · have bound : significandBound ≤ 2 ^ 64 := by decide
    have low : (scaled significandBound 288).isFinite = true := by decide +kernel
    refine grows small bound inRange ?_
    exact isFinite_scaled_mono le_rfl (.inr (by exact_mod_cast Nat.le_of_lt_succ few)) low
  · have high : ∀ k : Fin 20, safeBound / 10 ^ (289 + k.val) ≤ 2 ^ 64 ∧
        (scaled (safeBound / 10 ^ (289 + k.val)) (289 + k.val : Nat)).isFinite = true := by
      decide +kernel
    obtain ⟨k, rfl⟩ := Nat.exists_eq_add_of_le many
    obtain ⟨bound, finite⟩ := high ⟨k, by unfold largestPower at inRange; omega⟩
    have le : significand ≤ safeBound / 10 ^ (289 + k) :=
      (Nat.le_div_iff_mul_le (Nat.pow_pos (by decide))).mpr size
    exact grows le bound inRange finite

/-! ## Numbers in range -/

theorem isSome_double_iff {n : Numeral} :
    (double? n).isSome = true ↔ (scaled (parts n).1 (parts n).2).isFinite = true := by
  unfold double?
  generalize parts n = found
  obtain ⟨significand, exponent⟩ := found
  dsimp only
  cases scaled significand exponent <;> simp [Binary.isFinite]

theorem isFinite_double {n : Numeral} {x : Double} (read : double? n = some x) :
    x.isFinite = true := by
  unfold double? at read
  split at read
  split at read
  · cases read
    rfl
  · cases read

theorem isSome_double_of_le {n : Numeral} (fits : n.value.coefficient ≤ significandBound)
    (nonpos : n.value.exponent ≤ 0) : (double? n).isSome = true := by
  rw [isSome_double_iff, parts_of_le fits]
  exact isFinite_scaled_of_nonpos fits nonpos

theorem isSome_double_of_size {n : Numeral} (fits : ofDigits n.whole ≤ significandBound)
    (size : n.value.size ≤ safeBound) : (double? n).isSome = true := by
  obtain ⟨negative, whole, fraction, exponent, plain⟩ := n
  obtain ⟨significand, small, taken, within, truncated, parts⟩ := exists_parts fits fraction
  rw [isSome_double_iff, parts]
  rcases Int.le_total (exponent - taken) 0 with nonpos | nonneg
  · exact isFinite_scaled_of_nonpos small nonpos
  · dsimp only
    obtain ⟨e, power⟩ := Int.eq_ofNat_of_zero_le nonneg
    rw [power]
    refine isFinite_scaled_of_size small ?_
    generalize safeBound = bound at size ⊢
    have split : (10 : ℚ) ^ e = 10 ^ (fraction.length - taken) *
        10 ^ (exponent - fraction.length) := by
      rw [← zpow_natCast, ← zpow_natCast, ← zpow_add₀ (by norm_num)]
      congr 1
      omega
    have digits : (significand : ℚ) * 10 ^ (fraction.length - taken) ≤
        ofDigits (whole ++ fraction) := mod_cast truncated
    have scaled := mul_le_mul_of_nonneg_right digits
      (zpow_nonneg (by norm_num : (0 : ℚ) ≤ 10) (exponent - fraction.length))
    rw [mul_assoc, ← split] at scaled
    exact_mod_cast scaled.trans size

/-- What a number begins with is in range if the number is, provided that its digits before the
point fit. -/
theorem isSome_double_of_begins {s s' : Numeral.Spelling}
    (fits : ofDigits s.whole ≤ significandBound) (inRange : (double? s.numeral).isSome = true)
    (begins : s'.Begins s) : (double? s'.numeral).isSome = true := by
  rw [isSome_double_iff] at inRange ⊢
  cases begins with
  | @whole sign ds _ fraction power shorter =>
      obtain ⟨more, rfl⟩ := shorter
      obtain ⟨significand, small, taken, -, -, parts⟩ :=
        exists_parts ((Decimal.ofDigits_le_append ds more).trans fits) []
      unfold Numeral.Spelling.numeral
      rw [Option.getD_none, parts]
      exact isFinite_scaled_of_nonpos small (by simp)
  | @fraction sign whole ds _ power shorter =>
      obtain ⟨significand, small, taken, -, -, parts⟩ := exists_parts fits ds
      unfold Numeral.Spelling.numeral
      rw [Option.getD_some, parts]
      exact isFinite_scaled_of_nonpos small (by simp)
  | @power sign sign' whole ds _ fraction letter shorter =>
      obtain ⟨more, rfl⟩ := shorter
      obtain ⟨significand, small, taken, -, -, parts⟩ := exists_parts fits (fraction.getD [])
      unfold Numeral.Spelling.numeral at inRange ⊢
      rw [parts] at inRange ⊢
      refine isFinite_scaled_mono small ?_ inRange
      have digits : (ofDigits ds : Int) ≤ ofDigits (ds ++ more) :=
        mod_cast Decimal.ofDigits_le_append ds more
      simp only [Option.map_some, Option.getD_some, Numeral.Power.value]
      by_cases negative : sign' = some true
      · rw [if_pos negative]
        omega
      · rw [if_neg negative, if_neg negative]
        omega

/-! ## Short numbers -/

theorem units_ofNat {n : Nat} (small : n ≤ 2 ^ 53) :
    Double.units (.ofNat n) = n * BinaryFormat.double.one := by
  have one : (BinaryFormat.double.one : ℚ) ≠ 0 := mod_cast BinaryFormat.double.one_pos.ne'
  have value := Double.value_ofNat small
  rw [Double.value, div_eq_iff one] at value
  exact_mod_cast value

/-- The powers of ten up to this one are doubles. -/
def exactPower : Nat := 22

theorem units_power {e : Nat} (small : e ≤ exactPower) :
    Double.units (power e) = 10 ^ e * BinaryFormat.double.one := by
  have all : ∀ e : Fin (exactPower + 1),
      Double.units (power e) = 10 ^ e.val * BinaryFormat.double.one := by decide +kernel
  exact all ⟨e, Nat.lt_succ_of_le small⟩

/-- With a double for the significand and one for the power of ten there is but one rounding. -/
theorem scaled_eq_ofDecimal {significand : Nat} (short : significand ≤ 2 ^ 53) {e : Int}
    (within : e.natAbs ≤ exactPower) :
    scaled significand e = Binary.ofDecimal ⟨false, significand, e⟩ := by
  have powers : exactPower ≤ largestPower := by decide
  rw [Binary.ofDecimal_eq BinaryFormat.normal_double]
  cases e with
  | ofNat e =>
      have small : e ≤ exactPower := within
      have product : significand * BinaryFormat.double.one * (10 ^ e * BinaryFormat.double.one) *
          BinaryFormat.double.one = significand * 10 ^ e * BinaryFormat.double.one *
            (BinaryFormat.double.one * BinaryFormat.double.one) := by ring
      have one := BinaryFormat.double.one_pos
      have rounded := BinaryFormat.double.nearestRank_mul
        (significand * 10 ^ e * BinaryFormat.double.one) 1 (Nat.mul_pos one one)
      rw [Nat.one_mul] at rounded
      change scaled significand (e : Int) = _
      rw [scaled_of_le _ (small.trans powers), Double.mul, Binary.ofRatio, units_ofNat short,
        units_power small, product, rounded]
      simp
  | negSucc e =>
      have small : e + 1 ≤ exactPower := within
      have first : e < largestPower := Nat.lt_of_succ_le (small.trans powers)
      have quotient : scaled significand (.negSucc e) =
          Double.div (.ofNat significand) (power (e + 1)) := by
        rw [scaled, Nat.mod_eq_of_lt first, Nat.div_eq_of_lt first, divided]
      have rounded := BinaryFormat.double.nearestRank_mul
        (significand * BinaryFormat.double.one) (10 ^ (e + 1)) BinaryFormat.double.one_pos
      rw [quotient, Double.div, Binary.ofRatio, units_ofNat short, units_power small, rounded]
      simp

/-- Numbers of up to 15 digits, with an exponent that is not large, are read as the nearest
double. -/
theorem double_eq_ofDecimal {n : Numeral} (short : n.value.coefficient ≤ 2 ^ 53)
    (within : n.value.exponent.natAbs ≤ exactPower) : double? n = some (.ofDecimal n.value) := by
  have fits : n.value.coefficient ≤ significandBound := short.trans (by decide)
  have limit : (Binary.ofDecimal ⟨false, 2 ^ 53, 22⟩ : Double).isFinite = true := by
    decide +kernel
  have le : Decimal.size ⟨false, n.value.coefficient, n.value.exponent⟩ ≤
      Decimal.size ⟨false, 2 ^ 53, 22⟩ := by
    have digits : (n.value.coefficient : ℚ) ≤ (2 ^ 53 : Nat) := mod_cast short
    have power : (10 : ℚ) ^ n.value.exponent ≤ 10 ^ (22 : Int) :=
      zpow_le_zpow_right₀ (by norm_num) (by unfold exactPower at within; omega)
    exact mul_le_mul digits power (zpow_nonneg (by norm_num) _) (Nat.cast_nonneg _)
  have finite := Binary.isFinite_ofDecimal_mono BinaryFormat.normal_double le limit
  obtain ⟨rank, plain⟩ : ∃ rank, (Binary.ofDecimal ⟨false, n.value.coefficient,
      n.value.exponent⟩ : Double) = Binary.ofRank false rank :=
    ⟨_, Binary.ofDecimal_eq BinaryFormat.normal_double _⟩
  rw [plain, Binary.isFinite_ofRank_iff] at finite
  have signed : (Binary.ofDecimal n.value : Double) = Binary.ofRank n.negative rank :=
    Binary.ofDecimal_signed BinaryFormat.normal_double finite plain n.negative
  unfold double?
  rw [parts_of_le fits]
  dsimp only
  rw [scaled_eq_ofDecimal short within, plain, signed, Binary.ofRank_of_lt finite,
    Binary.ofRank_of_lt finite]

end Json

end EngineConsole
