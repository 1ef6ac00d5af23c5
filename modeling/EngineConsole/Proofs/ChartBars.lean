import EngineConsole.Chart.Plot
import EngineConsole.Proofs.Decimal.Quotients
import EngineConsole.Proofs.Decimal.Shortest
import EngineConsole.Proofs.Text.Lines

/-!
# Bars of a chart

A bar is as long as its value's share of the largest value, in thirtieths. Five roundings lie
between the two, from the counts to doubles up to the whole glyphs, and each keeps the order. So the
order of bars is that of values, and no bar is longer than the one of the largest value, where
nothing is rounded but the count itself.
-/

set_option autoImplicit false

namespace EngineConsole.Chart

open Double (NearestTo)

/-! ## Lengths -/

/-- The glyphs for a value beside the largest one: both become doubles, so do their quotient and its
product by the width, and what has half a glyph or more beyond whole glyphs goes up. -/
inductive Measures (value largest : Nat) : Nat → Prop where
  | none (empty : largest = 0) : Measures value largest 0
  | share {x y q p : Double} (some : largest ≠ 0) (count : NearestTo x value)
      (whole : NearestTo y largest) (quotient : NearestTo q (x.value / y.value))
      (product : NearestTo p (q.value * barWidth)) :
      Measures value largest ⌊p.value + 1 / 2⌋₊

section

variable {value value' largest length length' : Nat}

theorem nearestTo_one : NearestTo (.ofNat 1) 1 := by
  have one : NearestTo (.ofNat 1) ((1 : Nat) : ℚ) := Double.nearestTo_ofNat (by decide)
  rwa [Nat.cast_one] at one

theorem value_one : Double.value (.ofNat 1) = 1 := by
  rw [Double.value_ofNat (by decide), Nat.cast_one]

theorem one_le_value {y : Double} (whole : NearestTo y largest) (some : largest ≠ 0) :
    1 ≤ y.value := by
  have least := nearestTo_one.mono whole (by exact_mod_cast Nat.pos_of_ne_zero some)
  rwa [value_one] at least

theorem Measures.mono (measures : Measures value largest length)
    (measures' : Measures value' largest length') (le : value ≤ value') : length ≤ length' := by
  cases measures with
  | none empty => exact Nat.zero_le _
  | share some count whole quotient product =>
      cases measures' with
      | none empty => exact absurd empty some
      | @share x' y' q' p' some count' whole' quotient' product' =>
          have counts := count.mono count' (by exact_mod_cast le)
          have same := le_antisymm (whole.mono whole' le_rfl) (whole'.mono whole le_rfl)
          rw [← same] at quotient'
          have quotients := quotient.mono quotient'
            (div_le_div_of_nonneg_right counts (Double.value_nonneg _))
          have products := product.mono product'
            (mul_le_mul_of_nonneg_right quotients (Nat.cast_nonneg _))
          exact Nat.floor_mono (by linarith)

/-- Nothing is measured by nothing. -/
theorem measures_zero (bound : largest ≤ 2 ^ 64) : Measures 0 largest 0 := by
  by_cases empty : largest = 0
  · exact .none empty
  have zero : NearestTo (.ofNat 0) ((0 : Nat) : ℚ) := Double.nearestTo_ofNat (by decide)
  have value : Double.value (.ofNat 0) = 0 := by
    rw [Double.value_ofNat (by decide), Nat.cast_zero]
  have measures := Measures.share empty zero (Double.nearestTo_ofNat bound) (q := .ofNat 0)
    (p := .ofNat 0) (by simpa [value] using zero) (by simpa [value] using zero)
  have none : ⌊(0 : ℚ) + 1 / 2⌋₊ = 0 := by norm_num
  rwa [value, none] at measures

/-- The largest value has the whole width: its share is one, and the width is a double. -/
theorem measures_full (some : largest ≠ 0) (bound : largest ≤ 2 ^ 64) :
    Measures largest largest barWidth := by
  have whole := Double.nearestTo_ofNat bound
  have positive := one_le_value whole some
  have width : NearestTo (.ofNat barWidth) (barWidth : ℚ) := Double.nearestTo_ofNat (by decide)
  have value : Double.value (.ofNat barWidth) = barWidth := Double.value_ofNat (by decide)
  have share : Double.value (.ofNat largest) / Double.value (.ofNat largest) = 1 :=
    div_self (by linarith)
  have measures := Measures.share some whole whole (share ▸ nearestTo_one) (p := .ofNat barWidth)
    (by rwa [value_one, one_mul])
  have glyphs : ⌊(barWidth : ℚ) + 1 / 2⌋₊ = barWidth := by norm_num [barWidth]
  rwa [value, glyphs] at measures

theorem measures_barLength {v m : UInt64} (within : v ≤ m) :
    Measures v.toNat m.toNat (barLength v m) := by
  unfold barLength
  split
  next empty => exact .none (by rw [empty]; rfl)
  next other =>
    have some : m.toNat ≠ 0 := fun zero => other (UInt64.toNat_inj.mp zero)
    have count := Double.nearestTo_ofNat v.toNat_lt.le
    have whole := Double.nearestTo_ofNat m.toNat_lt.le
    have positive := one_le_value whole some
    have less := count.mono whole (by exact_mod_cast UInt64.le_iff_toNat_le.mp within)
    have share := div_le_one_of_le₀ less (zero_le_one.trans positive)
    have quotient := Double.nearestTo_div (zero_lt_one.trans_le positive)
      (share.trans (by norm_num))
    have most := quotient.mono nearestTo_one share
    have width : Double.value (.ofNat barWidth) = barWidth := Double.value_ofNat (by decide)
    rw [value_one] at most
    have product := Double.nearestTo_mul (x := .div (.ofNat v.toNat) (.ofNat m.toNat))
      (y := .ofNat barWidth) (by
        rw [width]
        exact (mul_le_of_le_one_left (Nat.cast_nonneg _) most).trans (by norm_num [barWidth]))
    rw [width] at product
    rw [Double.round_eq_floor]
    exact .share some count whole quotient product

end

/-! ## The largest value -/

/-- All values that samples have, the sent and the received ones. -/
def values (samples : List Sample) : List UInt64 :=
  samples.flatMap fun s => [s.sent, s.received]

theorem bounds_max (a b : UInt64) : a ≤ max a b ∧ b ≤ max a b := by
  change a ≤ (if a ≤ b then b else a) ∧ b ≤ (if a ≤ b then b else a)
  split
  next below => exact ⟨below, UInt64.le_refl b⟩
  next above => exact ⟨UInt64.le_refl a, UInt64.le_of_lt (UInt64.not_le.mp above)⟩

theorem max_eq_either (a b : UInt64) : max a b = a ∨ max a b = b := by
  change (if a ≤ b then b else a) = a ∨ (if a ≤ b then b else a) = b
  split
  · exact .inr rfl
  · exact .inl rfl

section

variable {samples : List Sample} {v : UInt64}

theorem largest_concat (samples : List Sample) (s : Sample) :
    largest (samples ++ [s]) = max (largest samples) (max s.sent s.received) :=
  List.foldl_concat _ _ _ _

theorem mem_values_concat {s : Sample} :
    v ∈ values (samples ++ [s]) ↔ v ∈ values samples ∨ v = s.sent ∨ v = s.received := by
  simp [values]

theorem le_largest (member : v ∈ values samples) : v ≤ largest samples := by
  induction samples using List.reverseRecOn with
  | nil => cases member
  | append_singleton earlier s ih =>
      rw [largest_concat]
      obtain ⟨before, here⟩ := bounds_max (largest earlier) (max s.sent s.received)
      obtain ⟨sent, received⟩ := bounds_max s.sent s.received
      rcases mem_values_concat.mp member with inside | rfl | rfl
      · exact UInt64.le_trans (ih inside) before
      · exact UInt64.le_trans sent here
      · exact UInt64.le_trans received here

theorem largest_mem (some : largest samples ≠ 0) : largest samples ∈ values samples := by
  induction samples using List.reverseRecOn with
  | nil => exact absurd rfl some
  | append_singleton earlier s ih =>
      rw [largest_concat] at some ⊢
      rcases max_eq_either (largest earlier) (max s.sent s.received) with before | here
      · rw [before] at some ⊢
        exact mem_values_concat.mpr (.inl (ih some))
      · rw [here]
        exact mem_values_concat.mpr (.inr (max_eq_either s.sent s.received))

/-! ## Lines -/

theorem row_ne_nil (label sent sentBar received receivedBar : List Char) :
    row label sent sentBar received receivedBar ≠ [] := by
  simp [row]

theorem break_not_mem_digits (n : Nat) : '\n' ∉ Decimal.digits n := by
  intro member
  exact absurd (Decimal.areDigits_digits n _ member) (by decide)

theorem break_not_mem_bar (value largest : UInt64) {mark : Char} (visible : mark ≠ '\n') :
    '\n' ∉ bar value largest mark := by
  intro member
  exact visible (List.eq_of_mem_replicate member).symm

theorem break_not_mem_sampleRow {s : Sample} (whole : '\n' ∉ s.label.toList) (largest : UInt64) :
    '\n' ∉ sampleRow largest s := by
  have sent := Text.break_not_mem_padLeft (break_not_mem_digits s.sent.toNat) 12
  have received := Text.break_not_mem_padLeft (break_not_mem_digits s.received.toNat) 12
  have sentBar := Text.break_not_mem_padRight
    (break_not_mem_bar s.sent largest (by decide : '#' ≠ '\n')) barWidth
  have receivedBar := break_not_mem_bar s.received largest (by decide : '=' ≠ '\n')
  simp [sampleRow, row, Text.break_not_mem_padRight whole, sent, received, sentBar, receivedBar]

theorem linesOf_plot (whole : ∀ s ∈ samples, '\n' ∉ s.label.toList) :
    Text.linesOf (plot samples).toList =
      heading :: samples.map (sampleRow (largest samples)) := by
  rw [plot, String.toList_ofList]
  apply Text.linesOf_joinLines
  · refine List.forall_mem_cons.mpr ⟨row_ne_nil _ _ _ _ _, fun l member => ?_⟩
    obtain ⟨s, -, rfl⟩ := List.mem_map.mp member
    exact row_ne_nil _ _ _ _ _
  · refine List.forall_mem_cons.mpr ⟨by decide, fun l member => ?_⟩
    obtain ⟨s, drawn, rfl⟩ := List.mem_map.mp member
    exact break_not_mem_sampleRow (whole s drawn) _

end

/-- Bars show the shares of values. Each has the length to which its value's share is rounded, so no
bar is longer than the width, a larger value never has the shorter bar, the largest value has the
whole width, and where nothing was counted there is no bar. The text is a heading and a row for each
sample, in their order, as long as no label has a line break. -/
theorem bars_show_shares (samples : List Sample) :
    (∀ v ∈ values samples, v ≤ largest samples) ∧
    (largest samples ≠ 0 → largest samples ∈ values samples) ∧
    (∀ v ∈ values samples,
      Measures v.toNat (largest samples).toNat (barLength v (largest samples))) ∧
    (∀ v ∈ values samples, barLength v (largest samples) ≤ 30) ∧
    (∀ v ∈ values samples, ∀ w ∈ values samples, v ≤ w →
      barLength v (largest samples) ≤ barLength w (largest samples)) ∧
    (∀ v ∈ values samples, (∀ w ∈ values samples, w ≤ v) → 0 < v →
      barLength v (largest samples) = 30) ∧
    (∀ v ∈ values samples, v = 0 → barLength v (largest samples) = 0) ∧
    ((∀ v ∈ values samples, v = 0) → ∀ v ∈ values samples, barLength v (largest samples) = 0) ∧
    ((∀ s ∈ samples, '\n' ∉ s.label.toList) →
      Text.linesOf (plot samples).toList = heading :: samples.map fun s =>
        row s.label.toList
          (Decimal.digits s.sent.toNat)
          (List.replicate (barLength s.sent (largest samples)) '#')
          (Decimal.digits s.received.toNat)
          (List.replicate (barLength s.received (largest samples)) '=')) := by
  have bound : (largest samples).toNat ≤ 2 ^ 64 := (largest samples).toNat_lt.le
  have measures : ∀ v ∈ values samples,
      Measures v.toNat (largest samples).toNat (barLength v (largest samples)) :=
    fun v member => measures_barLength (le_largest member)
  have none : ∀ v ∈ values samples, v = 0 → barLength v (largest samples) = 0 := by
    rintro v member rfl
    exact Nat.le_zero.mp ((measures 0 member).mono (measures_zero bound) le_rfl)
  refine ⟨fun v => le_largest, largest_mem, measures, fun v member => ?width,
    fun v member w member' le => ?order, fun v member most positive => ?full, none,
    fun empty v member => none v member (empty v member), linesOf_plot⟩
  case width =>
    by_cases empty : (largest samples).toNat = 0
    · rw [barLength, if_pos (UInt64.toNat_inj.mp empty)]
      exact Nat.zero_le _
    · exact (measures v member).mono (measures_full empty bound)
        (UInt64.le_iff_toNat_le.mp (le_largest member))
  case order =>
    exact (measures v member).mono (measures w member') (UInt64.le_iff_toNat_le.mp le)
  case full =>
    have some : largest samples ≠ 0 := by
      rintro empty
      exact absurd (le_largest member) (UInt64.not_le.mpr (empty ▸ positive))
    have top : v = largest samples :=
      UInt64.le_antisymm (le_largest member) (most _ (largest_mem some))
    have here := measures v member
    have other : (largest samples).toNat ≠ 0 := fun zero => some (UInt64.toNat_inj.mp zero)
    rw [← top] at here other bound ⊢
    exact Nat.le_antisymm (here.mono (measures_full other bound) le_rfl)
      ((measures_full other bound).mono here le_rfl)

/-- The largest count of all has the whole width, and a sixtieth of it, which is between no glyph
and one, still has one. -/
theorem sixtieth_of_largest_has_a_glyph :
    let samples : List Sample :=
      [⟨"12:00:00", 18446744073709551615, 307445734561825860⟩, ⟨"#", 0, 9223372036854775807⟩]
    (∀ s ∈ samples, '\n' ∉ s.label.toList) ∧
    Text.linesOf (plot samples).toList =
      ["time              sent                                    received ".toList,
        ("12:00:00  18446744073709551615 ############################## " ++
          "307445734561825860 =").toList,
        ("#                    0                                " ++
          "9223372036854775807 ===============").toList] ∧
    (18446744073709551615 ∈ values samples ∧ (∀ w ∈ values samples, w ≤ 18446744073709551615) ∧
      barLength 18446744073709551615 (largest samples) = 30) ∧
    Measures 307445734561825860 18446744073709551615 1 ∧
    (0 ∈ values samples ∧ barLength 0 (largest samples) = 0) := by
  intro samples
  have whole : ∀ s ∈ samples, '\n' ∉ s.label.toList := by decide
  have greatest : largest samples = 18446744073709551615 := by decide
  have glyph : barLength 307445734561825860 (largest samples) = 1 := by decide +kernel
  obtain ⟨within, -, measures, -, -, full, none, -, lines⟩ := bars_show_shares samples
  have first : 18446744073709551615 ∈ values samples := by decide
  have second : 307445734561825860 ∈ values samples := by decide
  have third : 0 ∈ values samples := by decide
  have most : ∀ w ∈ values samples, w ≤ 18446744073709551615 := greatest ▸ within
  have sixtieth := measures _ second
  rw [glyph, greatest] at sixtieth
  refine ⟨whole, ?_, ⟨first, most, full _ first most (by decide)⟩, sixtieth, third,
    none _ third rfl⟩
  rw [lines whole]
  decide +kernel

end EngineConsole.Chart
