import EngineConsole.Proofs.Text.Utf16
import EngineConsole.Proofs.Text.Utf8
import Mathlib.Data.String.Basic

/-!
# The order of texts

Texts stand in the order of their code points, and so do their bytes: the first byte of a character
tells how many follow it, and the more there are the higher it is.
-/

set_option autoImplicit false

namespace EngineConsole.Text

/-! ## Characters -/

/-- The bytes of a number: six bits in each of those that follow, the rest on top of a lead. -/
def spread (lead : Nat) : Nat → Nat → List UInt8
  | 0, v => [.ofNat (lead + v)]
  | more + 1, v => spread lead more (v / 64) ++ [.ofNat (v % 64 + 0x80)]

theorem cons_lt_of_lt {a b : Nat} (less : a < b) (fits : b < 256) (l m : List UInt8) :
    UInt8.ofNat a :: l < UInt8.ofNat b :: m := by
  rw [List.cons_lt_cons_iff, UInt8.lt_iff_toNat_lt, toNat_byte (less.trans fits), toNat_byte fits]
  exact .inl less

theorem spread_lt {lead more v w : Nat} (less : v < w) (fits : lead + w / 64 ^ more < 256)
    (l m : List UInt8) : spread lead more v ++ l < spread lead more w ++ m := by
  induction more generalizing v w l m with
  | zero =>
      rw [Nat.pow_zero, Nat.div_one] at fits
      exact cons_lt_of_lt (Nat.add_lt_add_left less lead) fits l m
  | succ more ih =>
      rw [Nat.pow_succ', ← Nat.div_div_eq_div_mul] at fits
      simp only [spread, List.append_assoc, List.singleton_append]
      rcases Nat.lt_or_eq_of_le (Nat.div_le_div_right less.le : v / 64 ≤ w / 64) with above | same
      · exact ih above fits _ _
      · rw [same]
        exact List.append_left_lt (cons_lt_of_lt (by omega) (by omega) l m)

/-- The bytes of a number after the first one. -/
def trail : Nat → Nat → List UInt8
  | 0, _ => []
  | more + 1, v => .ofNat (v / 64 ^ more % 64 + 0x80) :: trail more v

theorem trail_succ (more v : Nat) :
    trail (more + 1) v = trail more (v / 64) ++ [.ofNat (v % 64 + 0x80)] := by
  induction more with
  | zero => simp [trail]
  | succ more ih =>
      rw [trail, ih, trail, Nat.pow_succ', ← Nat.div_div_eq_div_mul, List.cons_append]

theorem spread_eq (lead more v : Nat) :
    spread lead more v = .ofNat (lead + v / 64 ^ more) :: trail more v := by
  induction more generalizing v with
  | zero => rw [Nat.pow_zero, Nat.div_one]; rfl
  | succ more ih =>
      rw [spread, ih, trail_succ, Nat.pow_succ', ← Nat.div_div_eq_div_mul, List.cons_append]

/-- How many bytes follow the first one. -/
def following (v : Nat) : Nat :=
  if v ≤ 0x7f then 0 else if v ≤ 0x7ff then 1 else if v ≤ 0xffff then 2 else 3

/-- Where the first bytes begin that have so many after them. -/
def leadOf : Nat → Nat
  | 0 => 0
  | 1 => 0xc0
  | 2 => 0xe0
  | 3 => 0xf0
  | _ => 0xf8

theorem following_mono {v w : Nat} (le : v ≤ w) : following v ≤ following w := by
  unfold following
  grind

theorem leadOf_mono : Monotone leadOf := by
  refine monotone_nat_of_le_succ fun more => ?_
  rcases more with _ | _ | _ | _ | more <;> simp [leadOf]

theorem leadOf_le (more : Nat) : leadOf more ≤ 0xf8 := by
  unfold leadOf
  split <;> decide

theorem toNat_lt (c : Char) : c.toNat < 0x110000 := by
  have valid := toNat_valid c
  omega

theorem utf8_eq (c : Char) : String.utf8EncodeChar c =
    spread (leadOf (following c.toNat)) (following c.toNat) c.toNat := by
  have bound := toNat_lt c
  have value : c.val.toNat = c.toNat := rfl
  unfold String.utf8EncodeChar following
  rw [value]
  generalize c.toNat = v at bound
  dsimp only
  split
  next => simp [spread, leadOf]
  split
  next low high =>
    have first : v / 64 % 32 + 0xc0 = 0xc0 + v / 64 := by omega
    rw [first]
    rfl
  split
  next low high =>
    have first : v / 4096 % 16 + 0xe0 = 0xe0 + v / 64 / 64 := by omega
    rw [first]
    rfl
  next low =>
    have first : v / 262144 % 8 + 0xf0 = 0xf0 + v / 64 / 64 / 64 := by omega
    have second : v / 4096 % 64 = v / 64 / 64 % 64 := by omega
    rw [first, second]
    rfl

/-- First bytes stay below those that have more bytes after them. -/
theorem first_lt {v : Nat} (bound : v < 0x110000) :
    leadOf (following v) + v / 64 ^ following v < leadOf (following v + 1) := by
  unfold following
  split
  next => simp only [leadOf]; omega
  split
  next => simp only [leadOf]; omega
  split
  next => simp only [leadOf]; omega
  next => simp only [leadOf]; omega

/-- The bytes of two characters decide between them, whatever follows. -/
theorem utf8_lt {c d : Char} (less : c < d) (l m : List UInt8) :
    String.utf8EncodeChar c ++ l < String.utf8EncodeChar d ++ m := by
  have above : c.toNat < d.toNat := less
  have fits := (first_lt (toNat_lt d)).trans_le (leadOf_le _)
  rw [utf8_eq, utf8_eq]
  rcases Nat.lt_or_eq_of_le (following_mono above.le) with fewer | same
  · have apart := (first_lt (toNat_lt c)).trans_le (leadOf_mono fewer)
    rw [spread_eq, spread_eq]
    exact cons_lt_of_lt (apart.trans_le (Nat.le_add_right _ _)) (by omega) _ _
  · rw [same]
    exact spread_lt above (by omega) l m

/-! ## Texts -/

def codePoints (s : String) : List Nat :=
  s.toList.map Char.toNat

theorem encode_lt {s t : String} (less : s < t) : encode s < encode t := by
  rw [String.lt_iff_toList_lt] at less
  rw [encode_eq, encode_eq]
  generalize s.toList = cs at less
  generalize t.toList = ds at less
  induction cs generalizing ds with
  | nil =>
      cases ds with
      | nil => exact absurd less (List.not_lt_nil _)
      | cons d ds =>
          rw [List.flatMap_nil, List.flatMap_cons, utf8_eq, spread_eq]
          exact List.nil_lt_cons _ _
  | cons c cs ih =>
      cases ds with
      | nil => exact absurd less (List.not_lt_nil _)
      | cons d ds =>
          rw [List.flatMap_cons, List.flatMap_cons]
          rcases List.cons_lt_cons_iff.mp less with first | ⟨rfl, later⟩
          · exact utf8_lt first _ _
          · exact List.append_left_lt (ih _ later)

/-- Bytes stand in the order of the texts. -/
theorem encode_lt_iff {s t : String} : encode s < encode t ↔ s < t := by
  refine ⟨fun less => ?_, encode_lt⟩
  rcases lt_trichotomy s t with before | rfl | after
  · exact before
  · exact absurd less (List.lt_irrefl _)
  · exact absurd less (List.lt_asymm (encode_lt after))

theorem codePoints_lt_iff {s t : String} : codePoints s < codePoints t ↔ s < t := by
  have mono : StrictMono codePoints := fun _ _ less =>
    List.map_lt (fun _ _ less => less) (String.lt_iff_toList_lt.mp less)
  exact mono.lt_iff_lt

end EngineConsole.Text
