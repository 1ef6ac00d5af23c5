import EngineConsole.Form.Field
import EngineConsole.Proofs.Decimal.Spelling
import Mathlib.Data.List.Infix

/-!
# Numerals at the head of a text

A numeral is scanned whole, however it is spelled, wherever the text goes on with something that
cannot belong to it; and whatever is scanned is a numeral, the longest one that the text begins
with. What a number field shows of a finite double is therefore the number it stands for.
-/

set_option autoImplicit false

namespace EngineConsole

namespace Numeral

open Decimal (AreDigits Layout)

/-! ## What was spelled is scanned -/

/-- A text that goes on like this ends a numeral before it. -/
def Ends (rest : List Char) : Prop :=
  ∀ c, rest.head? = some c → c.isDigit = false ∧ c ≠ '.' ∧ c ≠ 'e' ∧ c ≠ 'E'

theorem ends_nil : Ends [] :=
  nofun

theorem takeDigits_digits {ds : List Char} (digits : AreDigits ds) (rest : List Char) :
    takeDigits (ds ++ rest) = (ds ++ (takeDigits rest).1, (takeDigits rest).2) := by
  unfold takeDigits
  rw [List.takeWhile_append_of_pos digits, List.dropWhile_append_of_pos digits]

theorem takeDigits_of_ends {rest : List Char}
    (ends : ∀ c, rest.head? = some c → c.isDigit = false) : takeDigits rest = ([], rest) := by
  cases rest with
  | nil => rfl
  | cons c more =>
      have other : ¬c.isDigit = true := by simp [ends c rfl]
      exact Prod.ext (List.takeWhile_cons_of_neg other) (List.dropWhile_cons_of_neg other)

theorem takeDigits_append {ds rest : List Char} (digits : AreDigits ds)
    (ends : ∀ c, rest.head? = some c → c.isDigit = false) :
    takeDigits (ds ++ rest) = (ds, rest) := by
  rw [takeDigits_digits digits, takeDigits_of_ends ends, List.append_nil]

theorem takeFraction_of_ends {rest : List Char} (ends : ∀ c, rest.head? = some c → c ≠ '.') :
    takeFraction rest = (none, rest) := by
  unfold takeFraction
  split
  next more => exact absurd rfl (ends '.' rfl)
  next => rfl

theorem takeFraction_append {fraction? : Option (List Char)} {rest : List Char}
    (digits : ∀ ds, fraction? = some ds → AreDigits ds)
    (ends : ∀ c, rest.head? = some c → c.isDigit = false ∧ c ≠ '.') :
    takeFraction (fraction?.elim [] ('.' :: ·) ++ rest) = (fraction?, rest) := by
  cases fraction? with
  | some ds =>
      have read := takeDigits_append (digits ds rfl) fun c head => (ends c head).1
      simp only [Option.elim_some, List.cons_append, takeFraction, read]
  | none => exact takeFraction_of_ends fun c head => (ends c head).2

theorem takeSign_append (sign : Option Bool) {rest : List Char}
    (unsigned : ∀ c, rest.head? = some c → c ≠ '+' ∧ c ≠ '-') :
    takeSign (signText sign ++ rest) = (sign == some true, rest) := by
  cases sign with
  | some negative => cases negative <;> rfl
  | none =>
      change takeSign rest = (false, rest)
      unfold takeSign
      split
      next more => exact absurd rfl (unsigned '+' rfl).1
      next more => exact absurd rfl (unsigned '-' rfl).2
      next => rfl

theorem unsigned_of_digits {ds : List Char} (nonempty : ds ≠ []) (digits : AreDigits ds)
    (rest : List Char) :
    ∀ c, (ds ++ rest).head? = some c → c ≠ '+' ∧ c ≠ '-' := by
  obtain ⟨d, more, rfl⟩ := List.exists_cons_of_ne_nil nonempty
  rintro c ⟨⟩
  have digit := digits d List.mem_cons_self
  constructor <;> rintro rfl <;> cases digit

/-- An exponent is scanned whole, and any digits that follow it as well. -/
theorem takeExponent_text {p : Power} (sound : p.Sound) (rest : List Char) :
    takeExponent (p.text ++ rest) =
      (some (Power.value { p with digits := p.digits ++ (takeDigits rest).1 }),
        (takeDigits rest).2) := by
  obtain ⟨letter, sign, ds⟩ := p
  obtain ⟨letter', nonempty, digits⟩ := sound
  dsimp only at letter' nonempty digits
  have signed := takeSign_append sign (unsigned_of_digits nonempty digits rest)
  have read := takeDigits_digits digits rest
  have found : (ds ++ (takeDigits rest).1).isEmpty = false := by simp [nonempty]
  unfold Power.text
  rw [List.cons_append, List.append_assoc, takeExponent, if_pos letter', signed]
  dsimp only
  rw [read]
  dsimp only
  rw [found, if_neg Bool.false_ne_true]
  simp only [Power.value, beq_iff_eq]

theorem takeExponent_append {power? : Option Power} (sound : ∀ p, power? = some p → p.Sound)
    {rest : List Char} (ends : Ends rest) :
    takeExponent (power?.elim [] Power.text ++ rest) = (power?.map Power.value, rest) := by
  cases power? with
  | some p =>
      have stops := takeDigits_of_ends fun c head => (ends c head).1
      rw [Option.elim_some, takeExponent_text (sound p rfl), stops, List.append_nil]
      rfl
  | none =>
      cases rest with
      | nil => rfl
      | cons c more =>
          obtain ⟨-, -, small, capital⟩ := ends c rfl
          simp [takeExponent, small, capital]

theorem Power.Sound.ends_before {p : Power} (sound : p.Sound) (rest : List Char) :
    ∀ c, (p.text ++ rest).head? = some c → c.isDigit = false ∧ c ≠ '.' := by
  rintro c ⟨⟩
  rcases sound.letter with same | same <;> rw [same] <;> decide

namespace Spelling

variable {s : Spelling}

theorem Sound.unsigned (sound : s.Sound) (rest : List Char) :
    ∀ c, (s.whole ++ (s.fraction.elim [] ('.' :: ·) ++ rest)).head? = some c →
      c ≠ '+' ∧ c ≠ '-' := by
  by_cases whole : s.whole = []
  · cases fraction : s.fraction with
    | none =>
        have digits := sound.anyDigit
        rw [whole, fraction] at digits
        simp at digits
    | some ds =>
        rw [whole]
        rintro c ⟨⟩
        decide
  · exact unsigned_of_digits whole sound.whole _

theorem Sound.isEmpty (sound : s.Sound) :
    (s.whole.isEmpty && (s.fraction.getD []).isEmpty) = false := by
  rw [Bool.and_eq_false_iff, List.isEmpty_eq_false_iff, List.isEmpty_eq_false_iff]
  exact sound.anyDigit

end Spelling

theorem scan?_text {s : Spelling} (sound : s.Sound) {rest : List Char} (ends : Ends rest) :
    scan? (s.text ++ rest) = some (s.numeral, rest) := by
  have readPower := takeExponent_append sound.power ends
  have readSign := takeSign_append s.sign (sound.unsigned (s.power.elim [] Power.text ++ rest))
  have isEmpty := sound.isEmpty
  have text : s.text ++ rest = signText s.sign ++
      (s.whole ++ (s.fraction.elim [] ('.' :: ·) ++ (s.power.elim [] Power.text ++ rest))) := by
    simp only [Spelling.text, List.append_assoc]
  have tailEnds : ∀ c, (s.power.elim [] Power.text ++ rest).head? = some c →
      c.isDigit = false ∧ c ≠ '.' := by
    cases power : s.power with
    | none => exact fun c head => ⟨(ends c head).1, (ends c head).2.1⟩
    | some p => exact (sound.power p power).ends_before rest
  generalize s.power.elim [] Power.text ++ rest = tail at *
  have readFraction := takeFraction_append sound.fraction tailEnds
  have moreEnds : ∀ c, (s.fraction.elim [] ('.' :: ·) ++ tail).head? = some c →
      c.isDigit = false := by
    cases s.fraction with
    | none => exact fun c head => (tailEnds c head).1
    | some ds =>
        rintro c ⟨⟩
        decide
  generalize s.fraction.elim [] ('.' :: ·) ++ tail = more at *
  have readWhole := takeDigits_append sound.whole moreEnds
  unfold scan?
  rw [text, readSign]
  dsimp only
  rw [readWhole]
  dsimp only
  rw [readFraction]
  dsimp only
  rw [isEmpty, if_neg Bool.false_ne_true, readPower]
  simp [Spelling.numeral]

/-- A text is spelled in one way only, as far as the number goes. -/
theorem Spelling.Sound.numeral_eq {s other : Spelling} (sound : s.Sound) (sound' : other.Sound)
    (same : s.text = other.text) : s.numeral = other.numeral := by
  have scanned := scan?_text sound ends_nil
  have scanned' := scan?_text sound' ends_nil
  rw [same, scanned'] at scanned
  simpa using scanned.symm

/-! ## What is scanned was spelled -/

theorem takeSign_spells (cs : List Char) :
    ∃ sign, cs = signText sign ++ (takeSign cs).2 ∧ (takeSign cs).1 = (sign == some true) := by
  unfold takeSign
  split
  next rest => exact ⟨some false, rfl, rfl⟩
  next rest => exact ⟨some true, rfl, rfl⟩
  next => exact ⟨none, rfl, rfl⟩

theorem takeDigits_spells (cs : List Char) :
    cs = (takeDigits cs).1 ++ (takeDigits cs).2 ∧ AreDigits (takeDigits cs).1 :=
  ⟨List.takeWhile_append_dropWhile.symm, List.all_eq_true.mp List.all_takeWhile⟩

theorem takeFraction_spells (cs : List Char) :
    cs = (takeFraction cs).1.elim [] ('.' :: ·) ++ (takeFraction cs).2 ∧
      ∀ ds, (takeFraction cs).1 = some ds → AreDigits ds := by
  unfold takeFraction
  split
  next rest =>
    obtain ⟨parts, digits⟩ := takeDigits_spells rest
    refine ⟨congrArg ('.' :: ·) parts, ?_⟩
    rintro ds ⟨⟩
    exact digits
  next => exact ⟨rfl, nofun⟩

theorem takeExponent_spells (cs : List Char) :
    ∃ power? : Option Power, cs = power?.elim [] Power.text ++ (takeExponent cs).2 ∧
      (takeExponent cs).1 = power?.map Power.value ∧ ∀ p, power? = some p → p.Sound := by
  cases cs with
  | nil => exact ⟨none, rfl, rfl, nofun⟩
  | cons c rest =>
      by_cases letter : c = 'e' ∨ c = 'E'
      · obtain ⟨sign, signed, negative⟩ := takeSign_spells rest
        obtain ⟨parts, digits⟩ := takeDigits_spells (takeSign rest).2
        cases none : (takeDigits (takeSign rest).2).1.isEmpty with
        | true =>
            have kept : takeExponent (c :: rest) = (Option.none, c :: rest) := by
              simp [takeExponent, letter, none]
            exact ⟨Option.none, by rw [kept]; rfl, by rw [kept]; rfl, nofun⟩
        | false =>
            have taken : takeExponent (c :: rest) =
                (some (Power.value ⟨c, sign, (takeDigits (takeSign rest).2).1⟩),
                  (takeDigits (takeSign rest).2).2) := by
              simp [takeExponent, letter, none, negative, Power.value]
            refine ⟨some ⟨c, sign, (takeDigits (takeSign rest).2).1⟩, ?_, by rw [taken]; rfl, ?_⟩
            · rw [taken, Option.elim_some, Power.text, List.cons_append, List.append_assoc, ← parts,
                ← signed]
            · rintro p ⟨⟩
              exact ⟨letter, List.isEmpty_eq_false_iff.mp none, digits⟩
      · have kept : takeExponent (c :: rest) = (none, c :: rest) := by
          rw [takeExponent, if_neg letter]
        exact ⟨none, by rw [kept]; rfl, by rw [kept]; rfl, nofun⟩

/-- What is scanned is a numeral that the text begins with. -/
theorem spelling_of_scan? {cs rest : List Char} {n : Numeral}
    (scanned : scan? cs = some (n, rest)) :
    ∃ s : Spelling, s.Sound ∧ cs = s.text ++ rest ∧ s.numeral = n := by
  obtain ⟨sign, signed, negative⟩ := takeSign_spells cs
  obtain ⟨wholeParts, whole⟩ := takeDigits_spells (takeSign cs).2
  obtain ⟨fractionParts, fraction⟩ := takeFraction_spells (takeDigits (takeSign cs).2).2
  obtain ⟨power?, powerParts, value, power⟩ :=
    takeExponent_spells (takeFraction (takeDigits (takeSign cs).2).2).2
  unfold scan? at scanned
  dsimp only at scanned
  split at scanned
  next => cases scanned
  next some =>
    rw [value, negative] at scanned
    cases scanned
    refine ⟨⟨sign, _, _, power?⟩, ⟨?_, whole, fraction, power⟩, ?_, ?_⟩
    · rw [Bool.not_eq_true, Bool.and_eq_false_iff, List.isEmpty_eq_false_iff,
        List.isEmpty_eq_false_iff] at some
      exact some
    · simp only [Spelling.text, List.append_assoc]
      rw [← powerParts, ← fractionParts, ← wholeParts]
      exact signed
    · simp [Spelling.numeral]

/-! ## The longest numeral is scanned -/

theorem takeDigits_suffix (cs : List Char) : (takeDigits cs).2 <:+ cs :=
  List.dropWhile_suffix _

theorem takeFraction_suffix (cs : List Char) : (takeFraction cs).2 <:+ cs :=
  ⟨_, (takeFraction_spells cs).1.symm⟩

theorem takeExponent_suffix (cs : List Char) : (takeExponent cs).2 <:+ cs := by
  obtain ⟨power?, parts, -⟩ := takeExponent_spells cs
  exact ⟨_, parts.symm⟩

/-- A point or an exponent that was spelled is where digits end; without any they may go on into
what follows, and so may the rest. -/
theorem takeExponent_goesOn {power? : Option Power} (sound : ∀ p, power? = some p → p.Sound)
    {tail more : List Char}
    (after : more = (takeDigits (power?.elim [] Power.text ++ tail)).2 ∨
      more = (takeFraction (takeDigits (power?.elim [] Power.text ++ tail)).2).2) :
    (takeExponent more).2 <:+ tail := by
  cases power? with
  | none =>
      rcases after with rfl | rfl
      · exact (takeExponent_suffix _).trans (takeDigits_suffix tail)
      · exact (takeExponent_suffix _).trans
          ((takeFraction_suffix _).trans (takeDigits_suffix tail))
  | some p =>
      have power := sound p rfl
      have ends := power.ends_before tail
      rw [Option.elim_some, takeDigits_of_ends fun c head => (ends c head).1,
        takeFraction_of_ends fun c head => (ends c head).2, or_self_iff] at after
      rw [after, takeExponent_text power]
      exact takeDigits_suffix tail

/-- Whatever follows a numeral, no less than the numeral is scanned. -/
theorem scan?_takes {s : Spelling} (sound : s.Sound) (tail : List Char) :
    ∃ n rest, scan? (s.text ++ tail) = some (n, rest) ∧ rest <:+ tail := by
  have readSign := takeSign_append s.sign (sound.unsigned (s.power.elim [] Power.text ++ tail))
  have text : s.text ++ tail = signText s.sign ++
      (s.whole ++ (s.fraction.elim [] ('.' :: ·) ++ (s.power.elim [] Power.text ++ tail))) := by
    simp only [Spelling.text, List.append_assoc]
  have goesOn (more : List Char)
      (after : more = (takeDigits (s.power.elim [] Power.text ++ tail)).2 ∨
        more = (takeFraction (takeDigits (s.power.elim [] Power.text ++ tail)).2).2) :
      (takeExponent more).2 <:+ tail := takeExponent_goesOn sound.power after
  have some := sound.isEmpty
  unfold scan?
  rw [text, readSign]
  dsimp only
  rw [takeDigits_digits sound.whole]
  dsimp only
  generalize s.power.elim [] Power.text ++ tail = more at goesOn ⊢
  cases given : s.fraction with
  | none =>
      rw [given] at some
      have found : (s.whole ++ (takeDigits more).1).isEmpty = false := by
        simp at some ⊢
        simp [some]
      rw [Option.elim_none, List.nil_append, found, Bool.false_and, if_neg Bool.false_ne_true]
      exact ⟨_, _, rfl, goesOn _ (.inr rfl)⟩
  | some ds =>
      rw [given] at some
      have point : takeDigits ('.' :: (ds ++ more)) = ([], '.' :: (ds ++ more)) :=
        takeDigits_of_ends (by rintro c ⟨⟩; decide)
      have read : takeFraction ('.' :: (ds ++ more)) =
          (Option.some (ds ++ (takeDigits more).1), (takeDigits more).2) := by
        rw [takeFraction, takeDigits_digits (sound.fraction ds given)]
      have found : (s.whole.isEmpty && (ds ++ (takeDigits more).1).isEmpty) = false := by
        rw [Bool.and_eq_false_iff, List.isEmpty_eq_false_iff, List.isEmpty_eq_false_iff] at some ⊢
        exact some.imp_right fun nonempty => List.append_ne_nil_of_left_ne_nil nonempty _
      rw [Option.elim_some, List.cons_append, point]
      dsimp only
      rw [read]
      dsimp only
      rw [List.append_nil, Option.getD_some, found, if_neg Bool.false_ne_true]
      exact ⟨_, _, rfl, goesOn _ (.inl rfl)⟩

/-- The scan is over no sooner than any numeral that the text begins with. -/
theorem scan?_longest {s : Spelling} (sound : s.Sound) {cs : List Char} (leads : s.text <+: cs) :
    ∃ n rest, scan? cs = some (n, rest) ∧ s.text.length + rest.length ≤ cs.length := by
  obtain ⟨tail, rfl⟩ := leads
  obtain ⟨n, rest, scanned, suffix⟩ := scan?_takes sound tail
  have shorter := suffix.length_le
  exact ⟨n, rest, scanned, by rw [List.length_append]; omega⟩

end Numeral

/-! ## Number fields -/

theorem Decimal.Layout.Sound.trimStart_chars {l : Decimal.Layout} (sound : l.Sound) :
    Text.trimStart l.chars = l.chars := by
  obtain ⟨negative, whole, fraction?, exponent?⟩ := l
  obtain ⟨⟨nonempty, digits⟩, -, -⟩ := sound
  cases negative with
  | true => rfl
  | false =>
      obtain ⟨c, more, rfl⟩ := List.exists_cons_of_ne_nil nonempty
      refine Text.trimStart_cons_of_not_blank ?_ _
      have digit := digits c List.mem_cons_self
      simp only [Char.isDigit, Bool.and_eq_true, decide_eq_true_eq, ge_iff_le,
        UInt32.le_iff_toNat_le] at digit
      obtain ⟨least, greatest⟩ := digit
      change 48 ≤ c.toNat at least
      change c.toNat ≤ 57 at greatest
      simp only [Text.isBlank, Bool.or_eq_false_iff, Bool.and_eq_false_iff, beq_eq_false_iff_ne,
        decide_eq_false_iff_not]
      omega

/-- The text of a finite double is consumed whole, and stands for that double: no digit is lost and
zero keeps its sign. -/
theorem Field.leadingNumber_display {x : Double} (finite : x.isFinite = true) :
    leadingNumber x.display = x := by
  cases x with
  | nan => cases finite
  | infinite negative => cases finite
  | finite negative rank =>
      have decent : Decimal.shown.Decent := .inl rfl
      obtain ⟨l, chars, sound, reads, -⟩ :=
        decent.finite_reads BinaryFormat.normal_double rank.isLt negative
      have text : (Binary.finite negative rank : Double).display.toList = l.chars := by
        rw [chars]
        exact String.toList_ofList
      have scanned := Numeral.scan?_text sound.strict.sound Numeral.ends_nil
      rw [List.append_nil, l.text_spelling, l.numeral_spelling] at scanned
      unfold leadingNumber
      rw [text, sound.trimStart_chars, scanned]
      dsimp only
      rw [reads]
      rfl

end EngineConsole
