import Mathlib.Data.List.Basic

/-!
# Texts as code units

How a text is told in units of sixteen bits: a character past the first 65536 takes two of them, a
high and a low surrogate. Units stand for a text unless a surrogate has no partner.
-/

set_option autoImplicit false

namespace EngineConsole.Text

def utf16 (c : Char) : List Nat :=
  if c.toNat < 0x10000 then [c.toNat]
  else [0xD800 + (c.toNat - 0x10000) / 0x400, 0xDC00 + (c.toNat - 0x10000) % 0x400]

def units (cs : List Char) : List Nat :=
  cs.flatMap utf16

def IsHigh (u : Nat) : Prop :=
  0xD800 ≤ u ∧ u ≤ 0xDBFF

def IsLow (u : Nat) : Prop :=
  0xDC00 ≤ u ∧ u ≤ 0xDFFF

instance (u : Nat) : Decidable (IsHigh u) :=
  inferInstanceAs (Decidable (_ ∧ _))

instance (u : Nat) : Decidable (IsLow u) :=
  inferInstanceAs (Decidable (_ ∧ _))

def joined (high low : Nat) : Char :=
  Char.ofNat ((high - 0xD800) * 0x400 + (low - 0xDC00) + 0x10000)

/-- The text that units stand for; none if a surrogate stands alone. -/
def ofUnits? : List Nat → Option (List Char)
  | [] => some []
  | [u] => if IsHigh u ∨ IsLow u then none else some [Char.ofNat u]
  | u :: v :: us =>
    if IsHigh u then
      if IsLow v then (ofUnits? us).map (joined u v :: ·) else none
    else if IsLow u then none
    else (ofUnits? (v :: us)).map (Char.ofNat u :: ·)

section

variable {u v : Nat} {us : List Nat}

theorem ofUnits?_plain (high : ¬IsHigh u) (low : ¬IsLow u) (us : List Nat) :
    ofUnits? (u :: us) = (ofUnits? us).map (Char.ofNat u :: ·) := by
  cases us with
  | nil => simp [ofUnits?, high, low]
  | cons v us => rw [ofUnits?, if_neg high, if_neg low]

theorem ofUnits?_low (low : IsLow u) (us : List Nat) : ofUnits? (u :: us) = none := by
  have high : ¬IsHigh u := fun high => by
    unfold IsHigh at high
    unfold IsLow at low
    omega
  cases us with
  | nil => simp [ofUnits?, low]
  | cons v us => rw [ofUnits?, if_neg high, if_pos low]

theorem ofUnits?_pair (high : IsHigh u) (low : IsLow v) (us : List Nat) :
    ofUnits? (u :: v :: us) = (ofUnits? us).map (joined u v :: ·) := by
  rw [ofUnits?, if_pos high, if_pos low]

/-- A high surrogate needs a low one after it. -/
theorem ofUnits?_alone (high : IsHigh u) (alone : ∀ v, us.head? = some v → ¬IsLow v) :
    ofUnits? (u :: us) = none := by
  cases us with
  | nil => simp [ofUnits?, high]
  | cons v us => rw [ofUnits?, if_pos high, if_neg (alone v rfl)]

end

/-! ## Characters -/

theorem toNat_valid (c : Char) : c.toNat < 0xD800 ∨ 0xDFFF < c.toNat ∧ c.toNat < 0x110000 :=
  c.valid

theorem toNat_ofNat {n : Nat} (valid : n < 0xD800 ∨ 0xDFFF < n ∧ n < 0x110000) :
    (Char.ofNat n).toNat = n := by
  unfold Char.ofNat
  rw [dif_pos valid]
  rfl

/-- Where the units of a character begin there is no low surrogate. -/
theorem head_utf16 (c : Char) (us : List Nat) :
    ∀ u, (utf16 c ++ us).head? = some u → ¬IsLow u := by
  have valid := toNat_valid c
  intro u head low
  unfold IsLow at low
  unfold utf16 at head
  split at head <;> cases head <;> omega

theorem ofUnits?_utf16 (c : Char) (us : List Nat) :
    ofUnits? (utf16 c ++ us) = (ofUnits? us).map (c :: ·) := by
  have valid := toNat_valid c
  have same := Char.ofNat_toNat c
  unfold utf16
  split
  next small =>
    rw [List.singleton_append, ofUnits?_plain, same]
    · unfold IsHigh
      omega
    · unfold IsLow
      omega
  next large =>
    have whole : joined (0xD800 + (c.toNat - 0x10000) / 0x400)
        (0xDC00 + (c.toNat - 0x10000) % 0x400) = c := by
      refine (congrArg Char.ofNat ?_).trans same
      omega
    have pair := ofUnits?_pair (u := 0xD800 + (c.toNat - 0x10000) / 0x400)
      (v := 0xDC00 + (c.toNat - 0x10000) % 0x400) ⟨by omega, by omega⟩ ⟨by omega, by omega⟩ us
    rw [whole] at pair
    exact pair

theorem lt_of_mem_utf16 {c : Char} {u : Nat} (member : u ∈ utf16 c) : u < 0x10000 := by
  have valid := toNat_valid c
  unfold utf16 at member
  split at member <;> simp only [List.mem_cons, List.not_mem_nil, or_false] at member <;> omega

theorem utf16_ofNat {u : Nat} (high : ¬IsHigh u) (low : ¬IsLow u) (small : u < 0x10000) :
    utf16 (Char.ofNat u) = [u] := by
  unfold IsHigh at high
  unfold IsLow at low
  have same : (Char.ofNat u).toNat = u := toNat_ofNat (by omega)
  rw [utf16, same, if_pos small]

theorem utf16_joined {u v : Nat} (high : IsHigh u) (low : IsLow v) :
    utf16 (joined u v) = [u, v] := by
  unfold IsHigh at high
  unfold IsLow at low
  have same : (joined u v).toNat = (u - 0xD800) * 0x400 + (v - 0xDC00) + 0x10000 :=
    toNat_ofNat (by omega)
  have first : 0xD800 + ((u - 0xD800) * 0x400 + (v - 0xDC00)) / 0x400 = u := by omega
  have second : 0xDC00 + ((u - 0xD800) * 0x400 + (v - 0xDC00)) % 0x400 = v := by omega
  rw [utf16, same, if_neg (by omega), Nat.add_sub_cancel, first, second]

/-! ## Texts -/

theorem ofUnits?_units (cs : List Char) : ofUnits? (units cs) = some cs := by
  induction cs with
  | nil => rfl
  | cons c more ih => rw [units, List.flatMap_cons, ofUnits?_utf16, ← units, ih, Option.map_some]

/-- Units stand for the text that they are the units of, and for no other. -/
theorem ofUnits?_eq_some_iff {us : List Nat} (small : ∀ u ∈ us, u < 0x10000) {cs : List Char} :
    ofUnits? us = some cs ↔ us = units cs := by
  refine ⟨fun read => ?_, fun same => same ▸ ofUnits?_units cs⟩
  induction us using ofUnits?.induct generalizing cs with
  | case1 =>
      cases read
      rfl
  | case2 u surrogate => simp [ofUnits?, surrogate] at read
  | case3 u plain =>
      obtain ⟨high, low⟩ := not_or.mp plain
      rw [ofUnits?_plain high low] at read
      cases read
      have units_one : units [Char.ofNat u] = utf16 (Char.ofNat u) := List.append_nil _
      exact (units_one.trans (utf16_ofNat high low (small u List.mem_cons_self))).symm
  | case4 u v us high low ih =>
      rw [ofUnits?_pair high low] at read
      obtain ⟨more, later, rfl⟩ := Option.map_eq_some_iff.mp read
      have rest := ih (fun w member => small w (.tail _ (.tail _ member))) later
      rw [units, List.flatMap_cons, utf16_joined high low, ← units, ← rest]
      rfl
  | case5 u v us high low =>
      rw [ofUnits?_alone high (by rintro w ⟨⟩; exact low)] at read
      cases read
  | case6 u v us high low =>
      rw [ofUnits?_low low] at read
      cases read
  | case7 u v us high low ih =>
      rw [ofUnits?_plain high low] at read
      obtain ⟨more, later, rfl⟩ := Option.map_eq_some_iff.mp read
      have rest := ih (fun w member => small w (.tail _ member)) later
      rw [units, List.flatMap_cons, utf16_ofNat high low (small u List.mem_cons_self), ← units,
        ← rest]
      rfl

end EngineConsole.Text
