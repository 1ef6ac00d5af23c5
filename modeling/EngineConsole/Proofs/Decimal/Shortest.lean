import EngineConsole.Decimal.Layout
import EngineConsole.Proofs.Decimal.Rounding

/-!
# Shortest decimals read back

The decimal that is chosen for a magnitude reads back as that magnitude: a grid decides only by a
neighbour that reads back, and should no grid decide, the exact value is taken. Laid out in any
notation it becomes a numeral of the same value.
-/

set_option autoImplicit false

namespace EngineConsole.Decimal

variable {f : BinaryFormat} {halfway : Halfway} {rank : Nat}

/-! ## The choice of digits -/

def ReadsBack (f : BinaryFormat) (rank : Nat) (found : Nat × Int) : Prop :=
  (Binary.ofDecimal ⟨false, found.1, found.2⟩ : Binary f) = Binary.ofRank false rank

instance (found : Nat × Int) : Decidable (ReadsBack f rank found) :=
  inferInstanceAs (Decidable (_ = _))

theorem readsBack_onGrid {exponent : Int} {n : Nat}
    (found : onGrid? f halfway rank exponent = some n) : ReadsBack f rank (n, exponent) := by
  unfold onGrid? at found
  dsimp only at found
  split at found
  next low =>
    split at found
    next upper =>
      cases found
      exact of_decide_eq_true (Bool.and_elim_right upper)
    next =>
      cases found
      exact of_decide_eq_true low
  next =>
    split at found
    next upper =>
      cases found
      exact of_decide_eq_true upper
    next => cases found

theorem readsBack_firstGrid {magnitude : Int} {count more : Nat} {found : Nat × Int}
    (success : firstGrid? f halfway rank magnitude count more = some found) :
    ReadsBack f rank found := by
  induction more generalizing count with
  | zero => cases success
  | succ more ih =>
      unfold firstGrid? at success
      dsimp only at success
      split at success
      next n hit =>
        cases success
        exact readsBack_onGrid hit
      next => exact ih success

section

variable (normal : f.Normal)

include normal

theorem readsBack_exactly (rank : Nat) : ReadsBack f rank (exactly f rank) := by
  have scaled : f.units rank * 5 ^ f.scale * 10 ^ (-(f.scale : Int)).toNat * f.one =
      f.units rank * 10 ^ f.scale := by
    have whole : (-(f.scale : Int)).toNat = 0 := by omega
    rw [whole, Nat.pow_zero, Nat.mul_one, f.one_eq, Nat.mul_assoc, ← Nat.mul_pow]
  unfold ReadsBack exactly
  rw [Binary.ofDecimal_eq normal]
  dsimp only
  rw [Nat.pow_eq, scaled, Int.neg_neg, Int.toNat_natCast,
    f.nearestRank_units_mul _ (Nat.pow_pos (by decide))]

theorem ofDecimal_stripZeros (negative : Bool) (coefficient : Nat) (exponent : Int) :
    (Binary.ofDecimal ⟨negative, (stripZeros coefficient exponent).1,
      (stripZeros coefficient exponent).2⟩ : Binary f) =
        Binary.ofDecimal ⟨negative, coefficient, exponent⟩ := by
  induction coefficient, exponent using stripZeros.induct with
  | case1 coefficient exponent zero ih =>
      have shift := Binary.ofDecimal_shift normal negative (coefficient / 10) 1 (exponent + 1)
      rw [Nat.pow_one, Nat.div_mul_cancel (Nat.dvd_of_mod_eq_zero zero.2), Nat.cast_one,
        Int.add_sub_cancel] at shift
      rw [stripZeros, dif_pos zero, ih, shift]
  | case2 coefficient exponent final => rw [stripZeros, dif_neg final]

/-- The shortest decimal of a magnitude reads back as it, whichever sign it is given. -/
theorem ofDecimal_shortest (halfway : Halfway) (finite : rank < f.ranks) (negative : Bool) :
    (Binary.ofDecimal ⟨negative, (shortest f halfway rank).1,
      (shortest f halfway rank).2⟩ : Binary f) = Binary.ofRank negative rank := by
  unfold shortest
  dsimp only
  rw [ofDecimal_stripZeros normal]
  apply Binary.ofDecimal_signed normal finite
  cases found : firstGrid? f halfway rank (magnitude (f.units rank) f.one) 0 17 with
  | none => exact readsBack_exactly normal rank
  | some decimal => exact readsBack_firstGrid found

theorem shortest_ne_zero (halfway : Halfway) (finite : rank < f.ranks) (positive : rank ≠ 0) :
    (shortest f halfway rank).1 ≠ 0 := by
  intro zero
  have reads := ofDecimal_shortest normal halfway finite false
  rw [zero, Binary.ofDecimal_zero normal] at reads
  exact positive (Binary.ofRank_inj finite reads).symm

end

/-! ## Digits -/

def AreDigits (cs : List Char) : Prop :=
  ∀ c ∈ cs, c.isDigit = true

theorem AreDigits.append {cs ds : List Char} (left : AreDigits cs) (right : AreDigits ds) :
    AreDigits (cs ++ ds) := by
  intro c member
  rcases List.mem_append.mp member with member | member
  · exact left c member
  · exact right c member

theorem areDigits_zeros (n : Nat) : AreDigits (List.replicate n '0') := by
  intro c member
  rw [List.eq_of_mem_replicate member]
  rfl

theorem areDigits_digits (n : Nat) : AreDigits (digits n) :=
  fun _ member => Nat.isDigit_of_mem_toDigits (by decide) (by decide) member

theorem digits_ne_nil (n : Nat) : digits n ≠ [] :=
  Nat.toDigits_ne_nil

theorem ofDigits_digits (n : Nat) : ofDigits (digits n) = n :=
  Nat.ofDigitChars_ten_toDigits

theorem ofDigits_append_zeros (cs : List Char) (n : Nat) :
    ofDigits (cs ++ List.replicate n '0') = ofDigits cs * 10 ^ n := by
  have appended := Nat.ofDigitChars_append (b := 10) (l := cs) (m := List.replicate n '0') 0
  rw [Nat.ofDigitChars_replicate_zero, Nat.mul_comm] at appended
  exact appended

theorem ofDigits_zeros_append (n : Nat) (cs : List Char) :
    ofDigits (List.replicate n '0' ++ cs) = ofDigits cs := by
  have appended := Nat.ofDigitChars_append (b := 10) (l := List.replicate n '0') (m := cs) 0
  rw [Nat.ofDigitChars_replicate_zero, Nat.mul_zero] at appended
  exact appended

theorem head_digits {n : Nat} (positive : n ≠ 0) : (digits n).head? ≠ some '0' := by
  induction n using Nat.strong_induction_on with
  | _ n ih =>
      unfold digits
      by_cases small : n < 10
      · rw [Nat.toDigits_of_lt_base small]
        simpa using positive
      · have earlier := ih (n / 10) (by omega) (by omega)
        obtain ⟨c, more, front⟩ := List.exists_cons_of_ne_nil (digits_ne_nil (n / 10))
        unfold digits at earlier front
        rw [Nat.toDigits_of_base_le (by decide) (by omega), front, List.cons_append]
        rwa [front] at earlier

/-! ## Numerals in a text -/

/-- How a numeral is laid out: a fraction and an exponent may be absent. -/
structure Layout where
  negative : Bool
  whole : List Char
  fraction : Option (List Char)
  exponent : Option Int

namespace Layout

def chars (l : Layout) : List Char :=
  (if l.negative then ['-'] else []) ++ (l.whole ++
    (l.fraction.elim [] ('.' :: ·) ++ l.exponent.elim [] fun e => 'e' :: signed e))

def numeral (l : Layout) : Numeral :=
  ⟨l.negative, l.whole, l.fraction.getD [], l.exponent.getD 0,
    l.fraction.isNone && l.exponent.isNone⟩

/-- There are digits wherever there have to be some, and no extra zero in front of them. -/
structure Sound (l : Layout) : Prop where
  whole : l.whole ≠ [] ∧ AreDigits l.whole
  noExtraZero : l.whole.head? = some '0' → l.whole.length = 1
  fraction : ∀ ds, l.fraction = some ds → ds ≠ [] ∧ AreDigits ds

theorem sound_digits (negative : Bool) (n : Nat) : Sound ⟨negative, digits n, none, none⟩ := by
  refine ⟨⟨digits_ne_nil n, areDigits_digits n⟩, fun zero => ?_, nofun⟩
  by_cases none : n = 0
  · rw [none]
    rfl
  · exact absurd zero (head_digits none)

/-- The numeral has the value of a decimal, with zeros added to its coefficient. -/
def Denotes (l : Layout) (d : Decimal) : Prop :=
  ∃ zeros : Nat, l.numeral.value =
    ⟨d.negative, d.coefficient * 10 ^ zeros, d.exponent - zeros⟩

theorem Denotes.ofDecimal_eq {l : Layout} {d : Decimal} (normal : f.Normal)
    (denotes : l.Denotes d) :
    (Binary.ofDecimal l.numeral.value : Binary f) = Binary.ofDecimal d := by
  obtain ⟨zeros, value⟩ := denotes
  rw [value]
  exact Binary.ofDecimal_shift normal _ _ _ _

end Layout

/-- A text lays out a decimal, with no more digits before the point than up to a place. -/
def LaysOut (place : Nat) (cs : List Char) (d : Decimal) : Prop :=
  ∃ l : Layout, l.chars = cs ∧ l.Sound ∧ l.Denotes d ∧ l.whole.length ≤ place + 1

/-- What is put in place of an empty fraction: nothing, or one zero. -/
def Notation.Decent (style : Notation) : Prop :=
  style.emptyFraction = [] ∨ style.emptyFraction = ['.', '0']

theorem laysOut_withPoint {negative : Bool} {whole fraction emptyFraction : List Char}
    {d : Decimal} {place : Nat} (zeros : Nat) (sign : d.negative = negative)
    (empty : emptyFraction = [] ∨ emptyFraction = ['.', '0'])
    (wholeDigits : whole ≠ [] ∧ AreDigits whole) (places : whole.length ≤ place + 1)
    (noExtraZero : whole.head? = some '0' → whole.length = 1) (fractionDigits : AreDigits fraction)
    (coefficient : ofDigits (whole ++ fraction) = d.coefficient * 10 ^ zeros)
    (exponent : -(fraction.length : Int) = d.exponent - zeros) :
    LaysOut place ((if negative then ['-'] else []) ++ withPoint (whole, fraction) emptyFraction)
      d := by
  obtain ⟨negative, amount, power⟩ := d
  obtain rfl := sign
  dsimp only at coefficient exponent
  unfold withPoint
  cases fraction with
  | cons c more =>
      refine ⟨⟨negative, whole, some (c :: more), none⟩, ?_, ⟨wholeDigits, noExtraZero, ?_⟩,
        ⟨zeros, ?_⟩, places⟩
      · simp [Layout.chars]
      · rintro ds ⟨⟩
        exact ⟨List.cons_ne_nil _ _, fractionDigits⟩
      · simpa [Layout.numeral, Numeral.value, coefficient] using exponent
  | nil =>
      rw [List.append_nil] at coefficient
      rcases empty with rfl | rfl
      · refine ⟨⟨negative, whole, none, none⟩, ?_, ⟨wholeDigits, noExtraZero, nofun⟩, ⟨zeros, ?_⟩,
          places⟩
        · simp [Layout.chars]
        · simpa [Layout.numeral, Numeral.value, coefficient] using exponent
      · refine ⟨⟨negative, whole, some ['0'], none⟩, ?_, ⟨wholeDigits, noExtraZero, ?_⟩,
          ⟨zeros + 1, ?_⟩, places⟩
        · simp [Layout.chars]
        · rintro ds ⟨⟩
          exact ⟨List.cons_ne_nil _ _, areDigits_zeros 1⟩
        · have longer := ofDigits_append_zeros whole 1
          rw [coefficient, Nat.mul_assoc, ← Nat.pow_add] at longer
          simp only [List.length_nil, Nat.cast_zero, Int.neg_zero] at exponent
          simp only [Layout.numeral, Numeral.value, Option.getD_some, Option.getD_none,
            List.length_singleton, Decimal.mk.injEq, true_and]
          exact ⟨longer, by omega⟩

/-- Digits with the point after the first, and an exponent that says where it belongs. -/
theorem laysOut_scientific {negative : Bool} {coefficient : Nat} {exponent : Int} :
    LaysOut 0 ((if negative then ['-'] else []) ++
      (withPoint ((digits coefficient).take 1, (digits coefficient).drop 1) [] ++
        'e' :: signed (exponent + (digits coefficient).length - 1)))
      ⟨negative, coefficient, exponent⟩ := by
  have written := areDigits_digits coefficient
  have value := ofDigits_digits coefficient
  obtain ⟨c, more, whole⟩ := List.exists_cons_of_ne_nil (digits_ne_nil coefficient)
  rw [whole] at written value ⊢
  have wholeDigits : [c] ≠ [] ∧ AreDigits [c] := by
    refine ⟨List.cons_ne_nil _ _, ?_⟩
    intro d member
    exact written d (List.mem_cons.mpr (.inl (List.mem_singleton.mp member)))
  have noExtraZero : [c].head? = some '0' → [c].length = 1 := fun _ => rfl
  cases more with
  | nil =>
      refine ⟨⟨negative, [c], none, some exponent⟩, ?_, ⟨wholeDigits, noExtraZero, nofun⟩,
        ⟨0, ?_⟩, le_rfl⟩
      · simp [Layout.chars, withPoint]
      · simp [Layout.numeral, Numeral.value, value]
  | cons d rest =>
      refine ⟨⟨negative, [c], some (d :: rest), some (exponent + (c :: d :: rest).length - 1)⟩, ?_,
        ⟨wholeDigits, noExtraZero, ?_⟩, ⟨0, ?_⟩, le_rfl⟩
      · simp [Layout.chars, withPoint]
      · rintro ds ⟨⟩
        exact ⟨List.cons_ne_nil _ _, fun e member => written e (List.mem_cons_of_mem _ member)⟩
      · simp [Layout.numeral, Numeral.value, value]
        omega

theorem laysOut_positional {negative : Bool} {coefficient : Nat} {exponent : Int}
    {emptyFraction : List Char} (empty : emptyFraction = [] ∨ emptyFraction = ['.', '0'])
    (positive : coefficient ≠ 0) :
    LaysOut (exponent + (digits coefficient).length - 1).toNat ((if negative then ['-'] else []) ++
      withPoint (positional (digits coefficient) (exponent + (digits coefficient).length - 1))
        emptyFraction) ⟨negative, coefficient, exponent⟩ := by
  have written := areDigits_digits coefficient
  have value := ofDigits_digits coefficient
  have head := head_digits positive
  have nonempty := List.length_pos_iff.mpr (digits_ne_nil coefficient)
  generalize digits coefficient = ds at written value head nonempty ⊢
  cases place : exponent + (ds.length : Int) - 1 with
  | ofNat p =>
      have place : exponent + (ds.length : Int) - 1 = (p : Int) := place
      have whole : ds.take (p + 1) ++ List.replicate (p + 1 - ds.length) '0' ++ ds.drop (p + 1) =
          ds ++ List.replicate (p + 1 - ds.length) '0' := by
        by_cases short : ds.length ≤ p + 1
        · rw [List.take_of_length_le short, List.drop_eq_nil_of_le short, List.append_nil]
        · rw [Nat.sub_eq_zero_of_le (by omega), List.replicate_zero, List.append_nil,
            List.append_nil, List.take_append_drop]
      have head : (ds.take (p + 1) ++ List.replicate (p + 1 - ds.length) '0').head? ≠
          some '0' := by
        cases ds with
        | nil => cases nonempty
        | cons c more => simpa using head
      unfold positional
      dsimp only
      refine laysOut_withPoint (p + 1 - ds.length) rfl empty ⟨?_, ?_⟩ ?_
        (fun zero => absurd zero head) ?_ ?_ ?_
      · intro none
        have length := congrArg List.length none
        rw [List.length_append, List.length_take, List.length_replicate, List.length_nil] at length
        omega
      · exact .append (fun c member => written c (List.mem_of_mem_take member))
          (areDigits_zeros _)
      · rw [List.length_append, List.length_take, List.length_replicate]
        change _ ≤ p + 1
        omega
      · exact fun c member => written c (List.mem_of_mem_drop member)
      · rw [whole, ofDigits_append_zeros, value]
      · simp only [List.length_drop]
        omega
  | negSucc p =>
      unfold positional
      dsimp only
      refine laysOut_withPoint 0 rfl empty ⟨List.cons_ne_nil _ _, areDigits_zeros 1⟩ le_rfl
        (fun _ => rfl) (.append (areDigits_zeros p) written) ?_ ?_
      · have front : ['0'] ++ (List.replicate p '0' ++ ds) = List.replicate (p + 1) '0' ++ ds :=
          rfl
        rw [front, ofDigits_zeros_append, value]
        simp
      · simp only [List.length_append, List.length_replicate]
        omega

/-- A finite number is written as a numeral that reads back as it. It has one digit before the
point, or as many as up to a place that the notation writes positionally. -/
theorem Notation.Decent.finite_reads {style : Notation} (decent : style.Decent) (normal : f.Normal)
    (finite : rank < f.ranks) (negative : Bool) :
    ∃ l : Layout, l.chars = style.finite f negative rank ∧ l.Sound ∧
      (Binary.ofDecimal l.numeral.value : Binary f) = .finite negative ⟨rank, finite⟩ ∧
        ∃ first : Int, (style.isPositional first = true ∨ first = 0) ∧
          l.whole.length ≤ first.toNat + 1 := by
  have laid {d : Decimal} {first : Int} (place : style.isPositional first = true ∨ first = 0)
      (reads : (Binary.ofDecimal d : Binary f) = Binary.ofRank negative rank)
      (out : LaysOut first.toNat (style.finite f negative rank) d) :
      ∃ l : Layout, l.chars = style.finite f negative rank ∧ l.Sound ∧
        (Binary.ofDecimal l.numeral.value : Binary f) = .finite negative ⟨rank, finite⟩ ∧
          ∃ first : Int, (style.isPositional first = true ∨ first = 0) ∧
            l.whole.length ≤ first.toNat + 1 := by
    obtain ⟨l, chars, sound, denotes, places⟩ := out
    refine ⟨l, chars, sound, ?_, first, place, places⟩
    rw [denotes.ofDecimal_eq normal, reads, Binary.ofRank_of_lt finite]
  by_cases zero : rank = 0
  · refine laid (d := ⟨negative, 0, 0⟩) (.inr rfl) ?_ ?_
    · rw [Binary.ofDecimal_zero normal, zero]
    · have whole : ['0'] ≠ [] ∧ AreDigits ['0'] := ⟨List.cons_ne_nil _ _, areDigits_zeros 1⟩
      have out : LaysOut 0 ((if negative then ['-'] else []) ++ withPoint (['0'], [])
          style.emptyFraction) ⟨negative, 0, 0⟩ :=
        laysOut_withPoint 0 rfl decent whole le_rfl (fun _ => rfl) (fun _ => nofun) rfl rfl
      unfold Notation.finite
      rw [if_pos zero]
      exact out
  · have shortest := shortest_ne_zero normal style.halfway finite zero
    have reads := ofDecimal_shortest normal style.halfway finite negative
    by_cases positional : style.isPositional ((Decimal.shortest f style.halfway rank).2 +
        (digits (Decimal.shortest f style.halfway rank).1).length - 1) = true
    · refine laid (.inl positional) reads ?_
      unfold Notation.finite Notation.magnitude
      rw [if_neg zero]
      dsimp only
      rw [if_pos positional]
      exact laysOut_positional decent shortest
    · refine laid (.inr rfl) reads ?_
      unfold Notation.finite Notation.magnitude
      rw [if_neg zero]
      dsimp only
      rw [if_neg positional]
      exact laysOut_scientific

end EngineConsole.Decimal
