import EngineConsole.Counts.Amount
import EngineConsole.Proofs.Decimal.Beginnings
import EngineConsole.Proofs.Decimal.Quotients
import EngineConsole.Proofs.Decimal.Scanning

/-!
# What a gauge tells of a count

A count is shown in ones, thousands or millions. The amount that is shown rises with the count, over
both changes of unit, and as long as counts are doubles it misses the count by no more than half of
its last digit. Three roundings lie between the two. Each keeps the order, and the two that make the
quotient move it by less than a count.
-/

set_option autoImplicit false

namespace EngineConsole.Counts

open Double (NearestTo)

/-! ## Rounded tenths -/

/-- The tenths of a unit that a count is rounded to: the count becomes a double, its quotient
becomes one, and its exact value is rounded to whole tenths, a tie going to the even ones. -/
def RoundsTo (n unit tenths : Nat) : Prop :=
  ∃ x q : Double, NearestTo x n ∧ NearestTo q (x.value / unit) ∧
    IsNearest (Nat.cast : Nat → ℚ) (10 * q.value) tenths

section

variable {n n' unit tenths tenths' : Nat}

theorem RoundsTo.mono (rounds : RoundsTo n unit tenths) (rounds' : RoundsTo n' unit tenths')
    (le : n ≤ n') : tenths ≤ tenths' := by
  obtain ⟨x, q, count, quotient, whole⟩ := rounds
  obtain ⟨x', q', count', quotient', whole'⟩ := rounds'
  have counts : x.value ≤ x'.value := count.mono count' (by exact_mod_cast le)
  have quotients : q.value ≤ q'.value :=
    quotient.mono quotient' (div_le_div_of_nonneg_right counts (Nat.cast_nonneg _))
  exact whole.mono Nat.strictMono_cast whole' (by linarith)

/-- Whole units are not rounded. -/
theorem roundsTo_units (positive : 0 < unit) {k : Nat} (small : k * unit ≤ 2 ^ 53) :
    RoundsTo (k * unit) unit (10 * k) := by
  have fewer : k ≤ 2 ^ 53 := (Nat.le_mul_of_pos_right k positive).trans small
  have whole : (unit : ℚ) ≠ 0 := by exact_mod_cast positive.ne'
  refine ⟨.ofNat (k * unit), .ofNat k, Double.nearestTo_ofNat (small.trans (by decide)), ?_, ?_⟩
  · rw [Double.value_ofNat small, Nat.cast_mul, mul_div_cancel_right₀ _ whole]
    exact Double.nearestTo_ofNat (fewer.trans (by decide))
  · rw [Double.value_ofNat fewer]
    have self := isNearest_self (Nat.strictMono_cast (α := ℚ)) (10 * k)
    rwa [Nat.cast_mul, Nat.cast_ofNat] at self

theorem roundsTo_tenths (positive : 0 < unit) (small : unit ≤ 2 ^ 53) (bound : n ≤ 2 ^ 64) :
    RoundsTo n unit (Double.tenths (Double.div (.ofNat n) (.ofNat unit))) := by
  have count := Double.nearestTo_ofNat bound
  have divisor := Double.value_ofNat small
  have least : (1 : ℚ) ≤ unit := by exact_mod_cast positive
  have quotient : Double.value (.ofNat n) / unit ≤ 2 ^ 64 :=
    (div_le_self (Double.value_nonneg _) least).trans (count.value_le (by exact_mod_cast bound))
  refine ⟨_, _, count, ?_, Double.isNearest_tenths _⟩
  rw [← divisor] at quotient ⊢
  exact Double.nearestTo_div (by rw [divisor]; linarith) quotient

/-- Where every count is a double, the tenths miss it by half of one at most: the quotient is off by
less than a count, and half a tenth is a whole number of counts. -/
theorem RoundsTo.near (half : Nat) (rounds : RoundsTo n (20 * half) tenths) (positive : 0 < half)
    (few : 20 * half < 2 ^ 20) (small : n ≤ 2 ^ 53) (within : n ≤ 20 * half * 2 ^ 34) :
    |(tenths : ℚ) * (2 * half) - n| ≤ half := by
  obtain ⟨x, q, count, quotient, whole⟩ := rounds
  have exactly : x.value = n := count.value_eq small (Nat.zero_le _) (by simp)
  have cast : ((20 * half : Nat) : ℚ) = 20 * half := by push_cast; ring
  have unit : (0 : ℚ) < 20 * half := by
    rw [← cast]
    exact_mod_cast Nat.mul_pos (by decide) positive
  rw [exactly, cast] at quotient
  have below : (20 * half : ℚ) < 2 ^ 20 := by exact_mod_cast few
  have most : (n : ℚ) / (20 * half) ≤ 2 ^ 34 := by
    rw [div_le_iff₀ unit]
    exact_mod_cast within.trans_eq (Nat.mul_comm _ _)
  have inQuotient : |20 * half * q.value - n| < 1 := by
    have near := quotient.near (by positivity) (show 19 ≤ 1074 by decide) (by linarith)
    calc |20 * half * q.value - n|
      _ = |20 * half * (q.value - n / (20 * half))| := by
        rw [mul_sub, mul_div_cancel₀ _ unit.ne']
      _ = 20 * half * |q.value - n / (20 * half)| := by rw [abs_mul, abs_of_pos unit]
      _ ≤ 20 * half * (1 / 2 ^ 20) := by gcongr
      _ < 1 := by linarith
  have inTenths : |(tenths : ℚ) * (2 * half) - 20 * half * q.value| ≤ half := by
    have near := whole.whole_within_half (by linarith [q.value_nonneg])
    calc |(tenths : ℚ) * (2 * half) - 20 * half * q.value|
      _ = |2 * half * (tenths - 10 * q.value)| := by ring_nf
      _ = 2 * half * |(tenths : ℚ) - 10 * q.value| := by rw [abs_mul, abs_of_pos (by linarith)]
      _ ≤ 2 * half * (1 / 2) := by gcongr
      _ = half := by ring
  have both : |(tenths : ℚ) * (2 * half) - n| < half + 1 :=
    (abs_sub_le _ _ _).trans_lt (add_lt_add_of_le_of_lt inTenths inQuotient)
  have apart : |(tenths * (2 * half) - n : Int)| < half + 1 := by exact_mod_cast both
  exact_mod_cast Int.lt_add_one_iff.mp apart

end

/-! ## What a text stands for -/

/-- The unit that goes with the mark after a number. -/
def unit? : List Char → Option Nat
  | [] => some 1
  | ['K'] => some 1000
  | ['M'] => some 1000000
  | _ => none

/-- The amount that a text stands for: an unsigned decimal, times its unit. -/
def denoted? (text : String) : Option ℚ := do
  let (number, mark) ← Numeral.scan? text.toList
  let unit ← unit? mark
  if number.negative then none else some (number.value.size * unit)

theorem size_numeral (s : Numeral.Spelling) : s.numeral.value.size =
    Decimal.ofDigits (s.whole ++ s.fraction.getD []) *
      10 ^ ((s.power.map Numeral.Power.value).getD 0 - (s.fraction.getD []).length) :=
  rfl

theorem denoted?_text {s : Numeral.Spelling} (sound : s.Sound) (unsigned : s.sign = none)
    {mark : List Char} (ends : Numeral.Ends mark) {unit : Nat} (known : unit? mark = some unit) :
    denoted? (String.ofList (s.text ++ mark)) = some (s.numeral.value.size * unit) := by
  have positive : s.numeral.negative = false := by
    unfold Numeral.Spelling.numeral
    rw [unsigned]
    rfl
  unfold denoted?
  rw [String.toList_ofList, Numeral.scan?_text sound ends]
  simp [known, positive]

theorem denoted?_digits (n : Nat) : denoted? (String.ofList (Decimal.digits n)) = some (n : ℚ) := by
  have sound : Numeral.Spelling.Sound ⟨none, Decimal.digits n, none, none⟩ :=
    ⟨.inl (Decimal.digits_ne_nil n), Decimal.areDigits_digits n, nofun, nofun⟩
  have denoted := denoted?_text sound rfl Numeral.ends_nil rfl
  simpa [Numeral.Spelling.text, Numeral.signText, size_numeral,
    Decimal.ofDigits_digits] using denoted

/-- Digits, a point and one more digit. -/
def tenthsText (tenths : Nat) : List Char :=
  Decimal.digits (tenths / 10) ++ ['.'] ++ Decimal.digits (tenths % 10)

theorem size_tenths (tenths : Nat) (sign : Option Bool) :
    (Numeral.Spelling.numeral ⟨sign, Decimal.digits (tenths / 10),
      some (Decimal.digits (tenths % 10)), none⟩).value.size = tenths / 10 := by
  have last : (Decimal.digits (tenths % 10)).length = 1 := by
    unfold Decimal.digits
    rw [Nat.toDigits_of_lt_base (Nat.mod_lt _ (by decide)), List.length_singleton]
  rw [size_numeral]
  simp only [Option.getD_some, Option.map_none, Option.getD_none, last]
  rw [Decimal.ofDigits_append, last, Decimal.ofDigits_digits, Decimal.ofDigits_digits, Nat.pow_one,
    Nat.div_add_mod']
  rfl

theorem ends_mark {mark : Char} {unit : Nat} (known : unit? [mark] = some unit) :
    Numeral.Ends [mark] := by
  rintro c ⟨⟩
  unfold unit? at known
  split at known
  next same => cases same
  next same =>
    cases same
    decide
  next same =>
    cases same
    decide
  next => cases known

theorem denoted?_tenths (tenths : Nat) {mark : Char} (half : Nat)
    (known : unit? [mark] = some (20 * half)) :
    denoted? (String.ofList (tenthsText tenths ++ [mark])) = some ((tenths : ℚ) * (2 * half)) := by
  have sound : Numeral.Spelling.Sound
      ⟨none, Decimal.digits (tenths / 10), some (Decimal.digits (tenths % 10)), none⟩ := by
    refine ⟨.inl (Decimal.digits_ne_nil _), Decimal.areDigits_digits _, ?_, nofun⟩
    rintro ds ⟨⟩
    exact Decimal.areDigits_digits _
  have text : tenthsText tenths = Numeral.Spelling.text
      ⟨none, Decimal.digits (tenths / 10), some (Decimal.digits (tenths % 10)), none⟩ := by
    simp [tenthsText, Numeral.Spelling.text, Numeral.signText]
  rw [text, denoted?_text sound rfl (ends_mark known) known, size_tenths]
  push_cast
  ring_nf

/-! ## Amounts -/

/-- What a count is told as. -/
inductive Tells (n : Nat) : ℚ → Prop
  | ones (few : n < 1000) : Tells n n
  | thousands {tenths : Nat} (enough : 1000 ≤ n) (fewer : n < 1000000)
      (rounds : RoundsTo n 1000 tenths) : Tells n (tenths * 100)
  | millions {tenths : Nat} (many : 1000000 ≤ n) (rounds : RoundsTo n 1000000 tenths) :
      Tells n (tenths * 100000)

/-- The tenths and the mark that a count of a thousand or more is shown with. -/
theorem amount_of_le {a : UInt64} (enough : 1000 ≤ a.toNat) : ∃ tenths,
    RoundsTo a.toNat (if a.toNat < 1000000 then 1000 else 1000000) tenths ∧
      amount a = String.ofList
        (tenthsText tenths ++ [if a.toNat < 1000000 then 'K' else 'M']) := by
  have bound : a.toNat ≤ 2 ^ 64 := a.toNat_lt.le
  unfold amount
  dsimp only
  rcases Nat.lt_or_ge a.toNat 1000000 with fewer | many
  · rw [if_pos fewer, if_pos fewer, if_neg (Nat.not_le.mpr fewer), if_pos enough]
    exact ⟨_, roundsTo_tenths (by decide) (by decide) bound, rfl⟩
  · rw [if_neg (Nat.not_lt.mpr many), if_neg (Nat.not_lt.mpr many), if_pos many]
    exact ⟨_, roundsTo_tenths (by decide) (by decide) bound, rfl⟩

theorem denoted?_amount (a : UInt64) : ∃ p, denoted? (amount a) = some p ∧ Tells a.toNat p := by
  rcases Nat.lt_or_ge a.toNat 1000 with few | enough
  · refine ⟨_, ?_, .ones few⟩
    have text : amount a = String.ofList (Decimal.digits a.toNat) := by
      rw [amount, if_neg (by omega), if_neg (by omega)]
    rw [text, denoted?_digits]
  · obtain ⟨tenths, rounds, text⟩ := amount_of_le enough
    rw [text]
    rcases Nat.lt_or_ge a.toNat 1000000 with fewer | many
    · rw [if_pos fewer] at rounds ⊢
      refine ⟨_, ?_, .thousands enough fewer rounds⟩
      rw [denoted?_tenths tenths 50 rfl]
      norm_num
    · rw [if_neg (Nat.not_lt.mpr many)] at rounds ⊢
      refine ⟨_, ?_, .millions many rounds⟩
      rw [denoted?_tenths tenths 50000 rfl]
      norm_num

section

variable {n n' : Nat} {p q : ℚ}

/-- The last of the thousands is shown as a million at most, and the first of the millions as one at
least: both are whole units of theirs. -/
theorem Tells.mono (tells : Tells n p) (tells' : Tells n' q) (le : n ≤ n') : p ≤ q := by
  cases tells with
  | ones few =>
      cases tells' with
      | ones few' => exact_mod_cast le
      | thousands enough fewer rounds =>
          have least := (roundsTo_units (by decide) (k := 1) (by decide)).mono rounds enough
          have shown := few.le.trans (Nat.mul_le_mul_right 100 least)
          exact_mod_cast shown
      | millions many rounds =>
          have least := (roundsTo_units (by decide) (k := 1) (by decide)).mono rounds many
          have few' : n ≤ 10 * 1 * 100000 := by omega
          have shown := few'.trans (Nat.mul_le_mul_right 100000 least)
          exact_mod_cast shown
  | thousands enough fewer rounds =>
      cases tells' with
      | ones few' => omega
      | thousands enough' fewer' rounds' =>
          have shown := Nat.mul_le_mul_right 100 (rounds.mono rounds' le)
          exact_mod_cast shown
      | millions many rounds' =>
          have most := rounds.mono (roundsTo_units (by decide) (k := 1000) (by decide)) fewer.le
          have least := (roundsTo_units (by decide) (k := 1) (by decide)).mono rounds' many
          have shown := (Nat.mul_le_mul_right 100 most).trans (Nat.mul_le_mul_right 100000 least)
          exact_mod_cast shown
  | millions many rounds =>
      cases tells' with
      | ones few' => omega
      | thousands enough' fewer' rounds' => omega
      | millions many' rounds' =>
          have shown := Nat.mul_le_mul_right 100000 (rounds.mono rounds' le)
          exact_mod_cast shown

theorem Tells.near (tells : Tells n p) (small : n < 2 ^ 53) :
    |p - n| ≤ if n < 1000 then 0 else if n < 1000000 then 50 else 50000 := by
  cases tells with
  | ones few => rw [if_pos few, sub_self, abs_zero]
  | thousands enough fewer rounds =>
      rw [if_neg (Nat.not_lt.mpr enough), if_pos fewer]
      have near := RoundsTo.near 50 rounds (by decide) (by decide) small.le (by omega)
      norm_num at near ⊢
      exact near
  | millions many rounds =>
      rw [if_neg (by omega), if_neg (Nat.not_lt.mpr many)]
      have near := RoundsTo.near 50000 rounds (by decide) (by decide) small.le (by omega)
      norm_num at near ⊢
      exact near

end

/-- What is shown of a count rises with the count, from any count to any other. It is the count
itself below a thousand, and as long as every count is a double it is off by no more than half of
the last digit. The digit is rounded from the exact value of one double, the quotient of the count's
double. -/
theorem shown_amounts_rise_and_are_near :
    (∀ a b : UInt64, a ≤ b →
      ∃ p q, denoted? (amount a) = some p ∧ denoted? (amount b) = some q ∧ p ≤ q) ∧
    (∀ a : UInt64, a.toNat < 2 ^ 53 → ∃ p, denoted? (amount a) = some p ∧
      |p - a.toNat| ≤ if a.toNat < 1000 then 0 else if a.toNat < 1000000 then 50 else 50000) ∧
    (∀ a : UInt64, 1000 ≤ a.toNat → ∃ tenths,
      RoundsTo a.toNat (if a.toNat < 1000000 then 1000 else 1000000) tenths ∧
        amount a = String.ofList
          (tenthsText tenths ++ [if a.toNat < 1000000 then 'K' else 'M'])) := by
  refine ⟨fun a b le => ?_, fun a small => ?_, fun a enough => amount_of_le enough⟩
  · obtain ⟨p, denoted, tells⟩ := denoted?_amount a
    obtain ⟨q, denoted', tells'⟩ := denoted?_amount b
    exact ⟨p, q, denoted, denoted', tells.mono tells' (UInt64.le_iff_toNat_le.mp le)⟩
  · obtain ⟨p, denoted, tells⟩ := denoted?_amount a
    exact ⟨p, denoted, tells.near small⟩

/-- At the change to millions, and at the last count below `2 ^ 53`. -/
theorem amounts_at_a_change_of_unit :
    amount 999999 = "1000.0K" ∧ amount 1000000 = "1.0M" ∧
      amount 9007199254740991 = "9007199254.7M" ∧
      (∃ p q, denoted? "1000.0K" = some p ∧ denoted? "1.0M" = some q ∧ p ≤ q) ∧
      (∃ p, denoted? "9007199254.7M" = some p ∧ |p - 9007199254740991| ≤ 50000) ∧
      ∃ tenths, RoundsTo 999999 1000 tenths ∧
        "1000.0K" = String.ofList (tenthsText tenths ++ ['K']) := by
  have last : amount 999999 = "1000.0K" := by decide +kernel
  have first : amount 1000000 = "1.0M" := by decide +kernel
  have largest : amount 9007199254740991 = "9007199254.7M" := by decide +kernel
  obtain ⟨rise, near, rounds⟩ := shown_amounts_rise_and_are_near
  have changes := rise 999999 1000000 (by decide)
  have least := near 9007199254740991 (by decide)
  have digits := rounds 999999 (by decide)
  rw [last, first] at changes
  rw [largest] at least
  rw [last] at digits
  exact ⟨last, first, largest, changes, least, digits⟩

end EngineConsole.Counts
