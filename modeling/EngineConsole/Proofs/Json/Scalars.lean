import EngineConsole.Proofs.Json.Objects

/-!
# Scalars of the grammar

The reader of a token succeeds with a scalar where the grammar has one, and nowhere else. What the
grammar has and the reader refuses are strings with a surrogate that has no partner, and numbers
that are too large for a double.
-/

set_option autoImplicit false

namespace EngineConsole.Json

open Text (Glyph IsHigh IsLow joined ofUnits? utf16)

theorem toOption_map {α β : Type} (f : α → β) (x : Except Flaw α) :
    (x.map f).toOption = x.toOption.map f := by
  cases x <;> rfl

theorem toOption_bind {α β : Type} (x : Except Flaw α) (f : α → Except Flaw β) :
    (x >>= f).toOption = x.toOption.bind fun a => (f a).toOption := by
  cases x <;> rfl

theorem ok_iff {α : Type} {x : Except Flaw α} {a : α} : x = .ok a ↔ x.toOption = some a := by
  cases x <;> simp [Except.toOption]

theorem word_iff {cs : List Char} {input rest : Input} :
    word cs input = .ok rest ↔ input = cs.map .char ++ rest := by
  induction cs generalizing input with
  | nil => simp [word]
  | cons c more ih =>
      cases input with
      | nil => simp [word]
      | cons g input =>
          rw [word]
          split
          next same => simp [same, ih]
          next other => simp [other]

/-! ## Strings -/

theorem escapedLetter_iff {e c : Char} : escapedLetter? e = some c ↔ (e, c) ∈ letters := by
  constructor
  · intro known
    unfold escapedLetter? at known
    split at known <;> cases known <;> decide
  · intro known
    simp only [letters, List.mem_cons, Prod.mk.injEq, List.not_mem_nil, or_false] at known
    rcases known with ⟨rfl, rfl⟩ | ⟨rfl, rfl⟩ | ⟨rfl, rfl⟩ | ⟨rfl, rfl⟩ | ⟨rfl, rfl⟩ | ⟨rfl, rfl⟩ |
      ⟨rfl, rfl⟩ | ⟨rfl, rfl⟩ <;> rfl

theorem ne_of_mem_letters {e c : Char} (known : (e, c) ∈ letters) : e ≠ 'u' := by
  rintro rfl
  cases escapedLetter_iff.mpr known

theorem string_letter {e c : Char} (known : (e, c) ∈ letters) (rest : Input) :
    string (.char '\\' :: .char e :: rest) = (string rest).map fun p => (c :: p.1, p.2) := by
  have decoded : escape (.char e :: rest) = .ok (c, 1) := by
    simp [escape, ne_of_mem_letters known, escapedLetter_iff.mpr known]
  exact string_escaped decoded

theorem string_code {input : Input} {c : Char} {taken : Nat}
    (decoded : escapedCode input = .ok (c, taken)) :
    string (.char '\\' :: .char 'u' :: input) =
      (string (input.drop taken)).map fun p => (c :: p.1, p.2) := by
  have escaped : escape (.char 'u' :: input) = .ok (c, taken + 1) := by
    rw [escape, if_pos rfl, decoded]
    rfl
  exact string_escaped escaped

section

variable {quad : List Char} {u : Nat}

theorem drop_quad (digits : IsQuad quad u) (rest : Input) :
    (quad.map Glyph.char ++ rest).drop 4 = rest := by
  cases digits
  rfl

theorem string_code_plain (digits : IsQuad quad u) (high : ¬IsHigh u) (low : ¬IsLow u)
    (rest : Input) : string (.char '\\' :: .char 'u' :: (quad.map .char ++ rest)) =
      (string rest).map fun p => (Char.ofNat u :: p.1, p.2) := by
  have decoded : escapedCode (quad.map .char ++ rest) = .ok (Char.ofNat u, 4) := by
    unfold escapedCode
    rw [hexQuad_append digits]
    unfold IsHigh at high
    exact (if_neg low).trans (if_pos (by omega))
  rw [string_code decoded, drop_quad digits]

theorem string_code_low (digits : IsQuad quad u) (low : IsLow u) (rest : Input) :
    string (.char '\\' :: .char 'u' :: (quad.map .char ++ rest)) = .error .malformed := by
  refine string_code_error ?_
  unfold escapedCode
  rw [hexQuad_append digits]
  exact if_pos low

theorem escapedCode_high (digits : IsQuad quad u) (high : IsHigh u) (rest : Input) :
    escapedCode (quad.map .char ++ rest) = (do
      let v ← word ['\\', 'u'] rest >>= hexQuad
      if IsLow v then .ok (joined u v, 10) else .error .malformed) := by
  unfold IsHigh at high
  unfold escapedCode
  rw [hexQuad_append digits]
  dsimp only [bind, Except.bind]
  rw [if_neg (by omega), if_neg (by omega), drop_quad digits]
  cases word ['\\', 'u'] rest with
  | error flaw => rfl
  | ok more =>
      dsimp only
      cases hexQuad more with
      | error flaw => rfl
      | ok v =>
          by_cases low : IsLow v
          · exact (if_neg (by unfold IsLow at low; omega)).trans (if_pos low).symm
          · exact (if_pos (by unfold IsLow at low; omega)).trans (if_neg low).symm

theorem string_code_pair (digits : IsQuad quad u) (high : IsHigh u) {quad' : List Char} {v : Nat}
    (digits' : IsQuad quad' v) (low : IsLow v) (rest : Input) :
    string (.char '\\' :: .char 'u' :: (quad.map .char ++
        .char '\\' :: .char 'u' :: (quad'.map .char ++ rest))) =
      (string rest).map fun p => (joined u v :: p.1, p.2) := by
  have again : word ['\\', 'u'] (.char '\\' :: .char 'u' :: (quad'.map Glyph.char ++ rest)) =
      .ok (quad'.map .char ++ rest) := rfl
  have decoded : escapedCode (quad.map .char ++
      .char '\\' :: .char 'u' :: (quad'.map .char ++ rest)) = .ok (joined u v, 10) := by
    rw [escapedCode_high digits high, again]
    dsimp only [bind, Except.bind]
    rw [hexQuad_append digits']
    exact if_pos low
  have both : (quad.map Glyph.char ++
      Glyph.char '\\' :: Glyph.char 'u' :: (quad'.map .char ++ rest)).drop 10 = rest := by
    cases digits
    exact drop_quad digits' rest
  rw [string_code decoded, both]

theorem string_code_alone (digits : IsQuad quad u) (high : IsHigh u) {rest : Input}
    (alone : ∀ v, (word ['\\', 'u'] rest >>= hexQuad) = .ok v → ¬IsLow v) :
    (string (.char '\\' :: .char 'u' :: (quad.map .char ++ rest))).toOption = none := by
  have code := escapedCode_high digits high rest
  cases read : word ['\\', 'u'] rest >>= hexQuad with
  | error flaw =>
      rw [read] at code
      rw [string_code_error code]
      rfl
  | ok v =>
      rw [read] at code
      rw [string_code_error (code.trans (if_neg (alone v read)))]
      rfl

end

/-- A string is read as the text that its code units stand for, and it is malformed if they stand
for none. A surrogate is read together with what follows it, so the induction is about both. -/
theorem string_body {body : List Char} {us : List Nat} (inside : IsBody body us) (rest : Input) :
    (string ((body ++ ['"']).map .char ++ rest)).toOption = (ofUnits? us).map (·, rest) := by
  suffices both : (string ((body ++ ['"']).map .char ++ rest)).toOption =
      (ofUnits? us).map (·, rest) ∧ ∀ {quad : List Char} {u : Nat}, IsQuad quad u → IsHigh u →
        (string (.char '\\' :: .char 'u' ::
            (quad.map .char ++ ((body ++ ['"']).map .char ++ rest)))).toOption =
          (ofUnits? (u :: us)).map (·, rest) from both.1
  have taken {us us' : List Nat} {c : Char} {input input' : Input}
      (one : string input = (string input').map fun p => (c :: p.1, p.2))
      (text : ofUnits? us = (ofUnits? us').map (c :: ·))
      (ih : (string input').toOption = (ofUnits? us').map (·, rest)) :
      (string input).toOption = (ofUnits? us).map (·, rest) := by
    rw [one, text, toOption_map, ih, Option.map_map, Option.map_map]
    rfl
  induction inside with
  | nil =>
      refine ⟨?_, fun digits high => ?_⟩
      · rw [string.eq_def]
        rfl
      · rw [string_code_alone digits high (by rintro v ⟨⟩),
          Text.ofUnits?_alone high (by rintro v ⟨⟩)]
        rfl
  | @plain c body us quote backslash control _ ih =>
      refine ⟨?_, fun digits high => ?_⟩
      · exact taken (string_plain quote backslash control _) (Text.ofUnits?_utf16 c us) ih.1
      · have wrong : word ['\\', 'u'] ((c :: body ++ ['"']).map Glyph.char ++ rest) =
            .error .malformed := if_neg (by simpa using backslash)
        rw [string_code_alone digits high (by rw [wrong]; rintro v ⟨⟩),
          Text.ofUnits?_alone high (Text.head_utf16 c us)]
        rfl
  | @letter e c body us known _ ih =>
      refine ⟨?_, fun digits high => ?_⟩
      · exact taken (string_letter known _) (Text.ofUnits?_utf16 c us) ih.1
      · have wrong : word ['\\', 'u'] (('\\' :: e :: body ++ ['"']).map Glyph.char ++ rest) =
            .error .malformed := by
          simp [word, ne_of_mem_letters known]
        rw [string_code_alone digits high (by rw [wrong]; rintro v ⟨⟩),
          Text.ofUnits?_alone high (Text.head_utf16 c us)]
        rfl
  | @code quad' body v us digits' _ ih =>
      have spelled : ('\\' :: 'u' :: (quad' ++ body) ++ ['"']).map Glyph.char ++ rest =
          .char '\\' :: .char 'u' :: (quad'.map .char ++ ((body ++ ['"']).map .char ++ rest)) := by
        simp
      rw [spelled]
      refine ⟨?_, fun {quad u} digits high => ?_⟩
      · by_cases low : IsLow v
        · rw [string_code_low digits' low, Text.ofUnits?_low low]
          rfl
        by_cases high : IsHigh v
        · exact ih.2 digits' high
        · exact taken (string_code_plain digits' high low _) (Text.ofUnits?_plain high low us) ih.1
      · by_cases low : IsLow v
        · exact taken (string_code_pair digits high digits' low _) (Text.ofUnits?_pair high low us)
            ih.1
        · have other : ∀ w, (word ['\\', 'u'] (.char '\\' :: .char 'u' :: (quad'.map Glyph.char ++
              ((body ++ ['"']).map .char ++ rest))) >>= hexQuad) = .ok w → ¬IsLow w := by
            intro w read
            have same : hexQuad (quad'.map .char ++ ((body ++ ['"']).map .char ++ rest)) = .ok w :=
              read
            rw [hexQuad_append digits'] at same
            cases same
            exact low
          rw [string_code_alone digits high other,
            Text.ofUnits?_alone high (by rintro w ⟨⟩; exact low)]
          rfl

theorem isHexDigit_of_hexValue {c : Char} {v : Nat} (value : hexValue? c = some v) :
    IsHexDigit c v := by
  have all : ∀ n : Fin 128, (hexValue? (Char.ofNat n)).all (fun v => decide (v < 16 ∧
      (Char.ofNat n = Nat.digitChar v ∨ Char.ofNat n = (Nat.digitChar v).toUpper))) = true := by
    decide
  have small : c.toNat < 128 := by
    have upTo {d : Char} (le : c ≤ d) : c.toNat ≤ d.toNat := le
    unfold hexValue? at value
    split at value
    next digit =>
      have nine : c ≤ '9' := of_decide_eq_true ((Bool.and_eq_true _ _).mp digit).2
      exact Nat.lt_of_le_of_lt (upTo nine) (by decide)
    split at value
    next small => exact Nat.lt_of_le_of_lt (upTo small.2) (by decide)
    split at value
    next capital => exact Nat.lt_of_le_of_lt (upTo capital.2) (by decide)
    next => cases value
  have known := all ⟨c.toNat, small⟩
  dsimp only at known
  rw [Char.ofNat_toNat, value, Option.all_some] at known
  exact (of_decide_eq_true known : v < 16 ∧ (c = _ ∨ c = _))

theorem char_of_hex {g : Glyph} {v : Nat} (value : g.char?.bind hexValue? = some v) :
    ∃ c, g = .char c ∧ IsHexDigit c v := by
  cases g with
  | char c => exact ⟨c, rfl, isHexDigit_of_hexValue value⟩
  | stray n => cases value

theorem hexQuad_spells {input : Input} {u : Nat} (read : hexQuad input = .ok u) :
    ∃ quad, IsQuad quad u ∧ input = quad.map .char ++ input.drop 4 := by
  unfold hexQuad at read
  split at read
  next =>
    split at read
    next w x y z four =>
      cases read
      have digits := Text.forall₂_of_mapM four
      generalize taken : input.take 4 = glyphs at digits
      obtain _ | ⟨first, _ | ⟨second, _ | ⟨third, _ | ⟨fourth, ⟨⟩⟩⟩⟩⟩ := digits
      obtain ⟨a, rfl, first⟩ := char_of_hex first
      obtain ⟨b, rfl, second⟩ := char_of_hex second
      obtain ⟨c, rfl, third⟩ := char_of_hex third
      obtain ⟨d, rfl, fourth⟩ := char_of_hex fourth
      refine ⟨[a, b, c, d], .intro ‹_› ‹_› ‹_› ‹_›, ?_⟩
      exact (List.take_append_drop 4 input).symm.trans (congrArg (· ++ input.drop 4) taken)
    next => cases read
  next => cases read

/-- A code that is read is one unit, or two that are a pair of surrogates. -/
theorem escapedCode_spells {input : Input} {c : Char} {taken : Nat}
    (read : escapedCode input = .ok (c, taken)) :
    ∃ code, input = code.map .char ++ input.drop taken ∧ ∀ {body : List Char} {us : List Nat},
      IsBody body us → IsBody ('\\' :: 'u' :: (code ++ body)) (utf16 c ++ us) := by
  unfold escapedCode at read
  obtain ⟨u, first, read⟩ := bind_ok read
  obtain ⟨quad, digits, spells⟩ := hexQuad_spells first
  split at read
  next => cases read
  next low =>
    split at read
    next high =>
      obtain ⟨rfl, rfl⟩ := Prod.mk.inj (Except.ok.inj read)
      refine ⟨quad, spells, fun rest => ?_⟩
      rw [Text.utf16_ofNat (by unfold IsHigh; omega) low digits.lt]
      exact .code digits rest
    next high =>
      obtain ⟨after, again, read⟩ := bind_ok read
      obtain ⟨v, second, read⟩ := bind_ok read
      obtain ⟨quad', digits', spells'⟩ := hexQuad_spells second
      split at read
      next => cases read
      next low' =>
        obtain ⟨rfl, rfl⟩ := Prod.mk.inj (Except.ok.inj read)
        refine ⟨quad ++ '\\' :: 'u' :: quad', ?_, fun {body us} rest => ?_⟩
        · rw [word_iff] at again
          have drops : input.drop 10 = after.drop 4 :=
            (List.drop_drop (l := input) (i := 6) (j := 4)).symm.trans (congrArg _ again)
          rw [drops, List.map_append, List.append_assoc, List.map_cons, List.map_cons,
            List.cons_append, List.cons_append, ← spells']
          exact spells.trans (congrArg _ again)
        · have pair := Text.utf16_joined (u := u) (v := v) (by unfold IsHigh; omega)
            (by unfold IsLow; omega)
          unfold joined at pair
          rw [pair]
          have inner := IsBody.code digits (.code digits' rest)
          simpa using inner

theorem escape_spells {input : Input} {c : Char} {taken : Nat}
    (read : escape input = .ok (c, taken)) :
    ∃ escaped, input = escaped.map .char ++ input.drop taken ∧
      ∀ {body : List Char} {us : List Nat},
        IsBody body us → IsBody ('\\' :: (escaped ++ body)) (utf16 c ++ us) := by
  unfold escape at read
  split at read
  next => cases read
  next => cases read
  next e rest =>
    split at read
    next same =>
      subst same
      obtain ⟨⟨decoded, length⟩, code, read⟩ := bind_ok read
      cases read
      obtain ⟨text, spells, isBody⟩ := escapedCode_spells code
      exact ⟨'u' :: text, congrArg _ spells, isBody⟩
    next =>
      split at read
      next known =>
        cases read
        exact ⟨[e], rfl, .letter (escapedLetter_iff.mp known)⟩
      next => cases read

theorem string_spells {input rest : Input} {cs : List Char}
    (read : string input = .ok (cs, rest)) :
    ∃ body, IsBody body (Text.units cs) ∧ input = (body ++ ['"']).map .char ++ rest := by
  induction input using string.induct generalizing cs with
  | case1 =>
      rw [string.eq_def] at read
      cases read
  | case2 n more ih =>
      rw [string.eq_def] at read
      obtain ⟨-, -, read⟩ := bind_ok read
      cases read
  | case3 more =>
      rw [string.eq_def] at read
      cases read
      exact ⟨[], .nil, rfl⟩
  | case4 more _ ih =>
      rw [string.eq_def] at read
      dsimp only at read
      rw [if_neg (by decide), if_pos rfl] at read
      obtain ⟨⟨c, taken⟩, escaped, read⟩ := bind_ok read
      obtain ⟨⟨others, after⟩, inner, read⟩ := bind_ok read
      cases read
      obtain ⟨text, spells, isBody⟩ := escape_spells escaped
      obtain ⟨body, inside, later⟩ := ih taken inner
      refine ⟨'\\' :: (text ++ body), isBody inside, ?_⟩
      rw [spells, later]
      simp
  | case5 c more quote backslash control =>
      rw [string.eq_def] at read
      dsimp only at read
      rw [if_neg quote, if_neg backslash, if_pos control] at read
      cases read
  | case6 c more quote backslash control ih =>
      rw [string_plain quote backslash control] at read
      cases inner : string more with
      | error flaw =>
          rw [inner] at read
          cases read
      | ok p =>
          rw [inner] at read
          cases read
          obtain ⟨body, inside, later⟩ := ih inner
          exact ⟨c :: body, .plain quote backslash control inside, congrArg _ later⟩

/-! ## Numbers -/

theorem takeDigits_spells (input : Input) :
    input = (takeDigits input).1.map .char ++ (takeDigits input).2 ∧
      Decimal.AreDigits (takeDigits input).1 := by
  induction input with
  | nil => exact ⟨rfl, List.forall_mem_nil _⟩
  | cons g rest ih =>
      cases g with
      | stray n => exact ⟨rfl, List.forall_mem_nil _⟩
      | char c =>
          rw [takeDigits]
          split
          next digit => exact ⟨congrArg _ ih.1, List.forall_mem_cons.mpr ⟨digit, ih.2⟩⟩
          next => exact ⟨rfl, List.forall_mem_nil _⟩

theorem someDigits_spells {input rest : Input} {ds : List Char}
    (read : someDigits input = .ok (ds, rest)) :
    (ds ≠ [] ∧ Decimal.AreDigits ds) ∧ input = ds.map .char ++ rest := by
  have spells := takeDigits_spells input
  unfold someDigits at read
  split at read
  next => cases read
  next => cases read
  next digits rest' nonempty other taken =>
    cases read
    rw [taken] at spells
    refine ⟨⟨?_, spells.2⟩, spells.1⟩
    rintro rfl
    cases rest with
    | nil => exact nonempty rfl rfl
    | cons g more => exact other g more rfl rfl

theorem fraction_spells {input rest : Input} {fraction? : Option (List Char)}
    (read : fraction input = .ok (fraction?, rest)) :
    (∀ ds, fraction? = some ds → ds ≠ [] ∧ Decimal.AreDigits ds) ∧
      input = (fraction?.elim [] ('.' :: ·)).map .char ++ rest := by
  unfold fraction at read
  split at read
  next more =>
    obtain ⟨⟨digits, after⟩, inner, read⟩ := bind_ok read
    cases read
    obtain ⟨sound, spells⟩ := someDigits_spells inner
    refine ⟨?_, congrArg _ spells⟩
    rintro ds ⟨⟩
    exact sound
  next =>
    cases read
    exact ⟨nofun, rfl⟩

theorem takeSign_spells (input : Input) :
    ∃ sign unsigned, takeSign input = (sign == some true, unsigned) ∧
      input = (Numeral.signText sign).map .char ++ unsigned := by
  unfold takeSign
  split
  next rest => exact ⟨some false, rest, rfl, rfl⟩
  next rest => exact ⟨some true, rest, rfl, rfl⟩
  next => exact ⟨none, input, rfl, rfl⟩

theorem exponent_spells {input rest : Input} {value : Option Int}
    (read : exponent input = .ok (value, rest)) :
    ∃ power? : Option Numeral.Power, power?.map Numeral.Power.value = value ∧
      (∀ p, power? = some p → p.Sound) ∧
        input = (power?.elim [] Numeral.Power.text).map .char ++ rest := by
  have absent : ∀ p : Numeral.Power, none = some p → p.Sound := by rintro p ⟨⟩
  unfold exponent at read
  split at read
  next c more =>
    split at read
    next letter =>
      obtain ⟨sign, unsigned, taken, signed⟩ := takeSign_spells more
      rw [taken] at read
      obtain ⟨⟨digits, after⟩, inner, read⟩ := bind_ok read
      cases read
      obtain ⟨sound, spells⟩ := someDigits_spells inner
      refine ⟨some ⟨c, sign, digits⟩, ?_, ?_, ?_⟩
      · simp [Numeral.Power.value]
      · rintro p ⟨⟩
        exact ⟨letter, sound⟩
      · rw [signed, spells]
        simp [Numeral.Power.text]
    next =>
      cases read
      exact ⟨none, rfl, absent, rfl⟩
  next =>
    cases read
    exact ⟨none, rfl, absent, rfl⟩

theorem takeMinus_spells (input : Input) :
    ∃ sign unsigned, sign ≠ some false ∧ takeMinus input = (sign == some true, unsigned) ∧
      input = (Numeral.signText sign).map .char ++ unsigned := by
  unfold takeMinus
  split
  next rest => exact ⟨some true, rest, by decide, rfl, rfl⟩
  next => exact ⟨none, input, by decide, rfl, rfl⟩

theorem numeral_spells {input rest : Input} {n : Numeral} (read : numeral input = .ok (n, rest)) :
    ∃ s : Numeral.Spelling, s.Strict ∧ s.numeral = n ∧ input = s.text.map .char ++ rest := by
  obtain ⟨sign, unsigned, strict, taken, signed⟩ := takeMinus_spells input
  unfold numeral at read
  rw [taken] at read
  obtain ⟨⟨whole, afterWhole⟩, digits, read⟩ := bind_ok read
  obtain ⟨wholeSound, wholeSpells⟩ := someDigits_spells digits
  dsimp only at read
  split at read
  next => cases read
  next noExtraZero =>
    obtain ⟨⟨fraction?, afterFraction⟩, point, read⟩ := bind_ok read
    obtain ⟨fractionSound, fractionSpells⟩ := fraction_spells point
    dsimp only at read
    obtain ⟨⟨value, afterPower⟩, power, read⟩ := bind_ok read
    obtain ⟨power?, rfl, powerSound, powerSpells⟩ := exponent_spells power
    cases read
    refine ⟨⟨sign, whole, fraction?, power?⟩,
      ⟨strict, wholeSound, fun zero => ?_, fractionSound, powerSound⟩, ?_, ?_⟩
    · exact Decidable.not_not.mp fun other => noExtraZero ⟨zero, other⟩
    · simp [Numeral.Spelling.numeral]
    · rw [signed, wholeSpells, fractionSpells, powerSpells]
      simp [Numeral.Spelling.text]

/-! ## Tokens -/

/-- The scalar that is read of a value that is one. -/
def Tree.scalar? : Tree → Option Scalar
  | .null => some .null
  | .flag b => some (.flag b)
  | .number n => if (double? n).isSome then some (.number n) else none
  | .text us => (ofUnits? us).map .text
  | .list _ | .object _ => none

/-- The first token of a value and what is left after it: of a list or object that is its inside. -/
def Tree.begun (tree : Tree) (inside rest : Input) : Option (Token × Input) :=
  match tree with
  | .list _ => some (.opening .list, inside)
  | .object _ => some (.opening .object, inside)
  | scalar => scalar.scalar?.map fun s => (.scalar s, rest)

theorem token_value {cs : List Char} {tree : Tree} (value : IsValue cs tree) {rest : Input}
    (ends : Ends rest) :
    (token (cs.map .char ++ rest)).toOption = tree.begun (cs.tail.map .char ++ rest) rest := by
  cases value with
  | null => rfl
  | true => rfl
  | false => rfl
  | number strict =>
      rw [token_numeral strict ends]
      dsimp only [Tree.begun, Tree.scalar?]
      split <;> rfl
  | @text body us inside =>
      rw [List.map_cons, List.cons_append, token_quote, toOption_map, string_body inside rest]
      dsimp only [Tree.begun, Tree.scalar?]
      rw [Option.map_map, Option.map_map]
      rfl
  | emptyList | list | emptyObject | object =>
      unfold token
      rw [List.map_cons, List.cons_append, skipSpace_char rfl]
      rfl

theorem token_scalar {cs : List Char} {tree : Tree} (value : IsValue cs tree) {rest : Input}
    (ends : Ends rest) {s : Scalar} {after : Input} :
    token (cs.map .char ++ rest) = .ok (.scalar s, after) ↔ tree.scalar? = some s ∧ after = rest := by
  rw [ok_iff, token_value value ends]
  have scalar : (tree.scalar?.map fun s => (Token.scalar s, rest)) = some (.scalar s, after) ↔
      tree.scalar? = some s ∧ after = rest := by
    rw [Option.map_eq_some_iff]
    constructor
    · rintro ⟨_, found, ⟨⟩⟩
      exact ⟨found, rfl⟩
    · rintro ⟨found, rfl⟩
      exact ⟨s, found, rfl⟩
  cases tree with
  | list | object => simp [Tree.begun, Tree.scalar?]
  | null | flag | number | text => exact scalar

theorem token_spells {input rest : Input} {s : Scalar} (read : token input = .ok (.scalar s, rest)) :
    ∃ space cs tree, AreBlank space ∧ IsValue cs tree ∧ tree.scalar? = some s ∧
      input = (space ++ cs).map .char ++ rest := by
  obtain ⟨space, blank, spells⟩ := skipSpace_spells input
  suffices inner : ∃ cs tree, IsValue cs tree ∧ tree.scalar? = some s ∧
      skipSpace input = cs.map .char ++ rest by
    obtain ⟨cs, tree, value, scalar, same⟩ := inner
    refine ⟨space, cs, tree, blank, value, scalar, ?_⟩
    rw [List.map_append, List.append_assoc, ← same]
    exact spells
  unfold token at read
  split at read
  next => cases read
  next => cases read
  next c more first =>
    rw [first]
    split at read
    · cases read
    · cases read
    next =>
      obtain ⟨⟨text, after⟩, string, read⟩ := bind_ok read
      cases read
      obtain ⟨body, inside, same⟩ := string_spells string
      exact ⟨_, _, .text inside, by simp [Tree.scalar?, Text.ofUnits?_units], by simp [same]⟩
    next =>
      obtain ⟨after, rest, read⟩ := bind_ok read
      cases read
      exact ⟨_, _, .null, rfl, congrArg _ (word_iff.mp rest)⟩
    next =>
      obtain ⟨after, rest, read⟩ := bind_ok read
      cases read
      exact ⟨_, _, .true, rfl, congrArg _ (word_iff.mp rest)⟩
    next =>
      obtain ⟨after, rest, read⟩ := bind_ok read
      cases read
      exact ⟨_, _, .false, rfl, congrArg _ (word_iff.mp rest)⟩
    next =>
      split at read
      next =>
        unfold number at read
        obtain ⟨⟨n, after⟩, numeral, read⟩ := bind_ok read
        obtain ⟨spelling, strict, rfl, same⟩ := numeral_spells numeral
        dsimp only at read
        split at read
        next inRange =>
          cases read
          exact ⟨_, _, .number strict, if_pos inRange, same⟩
        next => cases read
      next => cases read

end EngineConsole.Json
