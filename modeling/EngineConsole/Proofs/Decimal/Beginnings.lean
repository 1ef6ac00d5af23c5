import EngineConsole.Proofs.Decimal.Spelling
import Mathlib.Data.List.Induction

/-!
# Beginnings of numerals

What is left of a numeral that is cut may be a numeral itself: one with fewer digits, before the
point, after it or in its exponent. Fewer digits are a smaller number.
-/

set_option autoImplicit false

namespace EngineConsole

namespace Decimal

theorem ofDigits_concat (cs : List Char) (c : Char) :
    ofDigits (cs ++ [c]) = 10 * ofDigits cs + digitValue c := by
  unfold ofDigits
  rw [List.foldl_append]
  rfl

theorem ofDigits_append (cs ds : List Char) :
    ofDigits (cs ++ ds) = ofDigits cs * 10 ^ ds.length + ofDigits ds := by
  induction ds using List.reverseRecOn with
  | nil => simp [ofDigits]
  | append_singleton ds d ih =>
      rw [← List.append_assoc, ofDigits_concat, ofDigits_concat, ih, List.length_append,
        List.length_singleton, Nat.pow_succ]
      ring

theorem ofDigits_le_append (cs ds : List Char) : ofDigits cs ≤ ofDigits (cs ++ ds) := by
  rw [ofDigits_append]
  have power : 0 < 10 ^ ds.length := Nat.pow_pos (by decide)
  have scaled := Nat.le_mul_of_pos_right (ofDigits cs) power
  omega

theorem digitValue_lt {c : Char} (digit : c.isDigit = true) : digitValue c < 10 := by
  have bounds := (Bool.and_eq_true _ _).mp digit
  have below : c.toNat ≤ '9'.toNat := of_decide_eq_true bounds.2
  have nine : '9'.toNat = 57 := rfl
  have zero : '0'.toNat = 48 := rfl
  unfold digitValue
  omega

theorem ofDigits_lt {ds : List Char} (digits : AreDigits ds) : ofDigits ds < 10 ^ ds.length := by
  induction ds using List.reverseRecOn with
  | nil => decide
  | append_singleton ds d ih =>
      obtain ⟨before, last⟩ := List.forall_mem_append.mp digits
      have value := digitValue_lt (last d (List.mem_singleton_self d))
      have earlier := ih before
      rw [ofDigits_concat, List.length_append, List.length_singleton, Nat.pow_succ]
      omega

end Decimal

namespace Numeral.Spelling

variable {s : Spelling}

/-- A numeral without its exponent. -/
def mantissa (s : Spelling) : Spelling :=
  { s with power := none }

theorem Strict.mantissa (strict : s.Strict) : s.mantissa.Strict :=
  ⟨strict.sign, strict.whole, strict.noExtraZero, strict.fraction, nofun⟩

/-- A numeral that another one begins with, up to some digit of it. -/
inductive Begins : Spelling → Spelling → Prop
  | whole {sign : Option Bool} {ds whole : List Char} {fraction : Option (List Char)}
      {power : Option Power} (shorter : ds <+: whole) :
      Begins ⟨sign, ds, none, none⟩ ⟨sign, whole, fraction, power⟩
  | fraction {sign : Option Bool} {whole ds fraction : List Char} {power : Option Power}
      (shorter : ds <+: fraction) :
      Begins ⟨sign, whole, some ds, none⟩ ⟨sign, whole, some fraction, power⟩
  | power {sign sign' : Option Bool} {whole ds digits : List Char} {fraction : Option (List Char)}
      {letter : Char} (shorter : ds <+: digits) :
      Begins ⟨sign, whole, fraction, some ⟨letter, sign', ds⟩⟩
        ⟨sign, whole, fraction, some ⟨letter, sign', digits⟩⟩

end Numeral.Spelling

end EngineConsole
