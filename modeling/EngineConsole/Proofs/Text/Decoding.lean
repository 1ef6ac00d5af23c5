import EngineConsole.Proofs.Text.Order

/-!
# What bytes fall into

Any bytes fall into characters and strays in exactly one way: where a character begins it is taken,
and elsewhere the longest beginning of one, or one byte that begins none. A text is decoded from its
own bytes only.
-/

set_option autoImplicit false

namespace EngineConsole.Text

/-- Bytes that a character begins with. -/
def Begins (bytes : List UInt8) : Prop :=
  ∃ c, bytes <+: String.utf8EncodeChar c

/-- What bytes fall into. A stray stands where no character does. It has one byte or begins a
character, and begins none with the byte that follows it. -/
inductive FallsInto : List UInt8 → List Glyph → Prop
  | nil : FallsInto [] []
  | char (c : Char) {rest : List UInt8} {gs : List Glyph} (later : FallsInto rest gs) :
      FallsInto (String.utf8EncodeChar c ++ rest) (.char c :: gs)
  | stray (bytes : List UInt8) {rest : List UInt8} {gs : List Glyph} (nonempty : bytes ≠ [])
      (noChar : ∀ c, ¬String.utf8EncodeChar c <+: bytes ++ rest)
      (begins : bytes.length = 1 ∨ Begins bytes)
      (longest : ∀ b, rest.head? = some b → ¬Begins (bytes ++ [b])) (later : FallsInto rest gs) :
      FallsInto (bytes ++ rest) (.stray bytes.length :: gs)

/-! ## Following bytes -/

theorem follow_code {value more low high : Nat} {bytes : List UInt8} {code taken : Nat}
    (followed : follow value more low high bytes = (some code, taken)) (least : 0x80 ≤ low)
    (most : high ≤ 0xBF) :
    code / 64 ^ more = value ∧ bytes.take taken = trail more code ∧
      (more ≠ 0 → low ≤ code / 64 ^ (more - 1) % 64 + 0x80 ∧
        code / 64 ^ (more - 1) % 64 + 0x80 ≤ high) := by
  induction more generalizing value low high bytes taken with
  | zero =>
      rw [follow] at followed
      cases followed
      exact ⟨by rw [Nat.pow_zero, Nat.div_one], rfl, fun any => absurd rfl any⟩
  | succ more ih =>
      cases bytes with
      | nil => cases followed
      | cons b bytes =>
          by_cases inside : low ≤ b.toNat ∧ b.toNat ≤ high
          · rw [follow_more inside.1 inside.2] at followed
            obtain ⟨found, rfl⟩ := Prod.mk.inj followed
            obtain ⟨front, rest, -⟩ := ih (Prod.ext found rfl) le_rfl le_rfl
            have byte : code / 64 ^ more % 64 + 0x80 = b.toNat := by omega
            have earlier : code / 64 ^ (more + 1) = value := by
              rw [Nat.pow_succ, ← Nat.div_div_eq_div_mul]
              omega
            refine ⟨earlier, ?_, fun _ => ?_⟩
            · rw [List.take_succ_cons, rest, trail, byte, UInt8.ofNat_toNat]
            · rw [Nat.add_sub_cancel, byte]
              exact inside
          · rw [follow, if_neg inside] at followed
            cases followed

theorem follow_short {value more low high : Nat} {bytes : List UInt8} {taken : Nat}
    (followed : follow value more low high bytes = (none, taken)) : taken ≤ bytes.length := by
  induction more generalizing value low high bytes taken with
  | zero => cases followed
  | succ more ih =>
      cases bytes with
      | nil =>
          cases followed
          exact Nat.zero_le _
      | cons b bytes =>
          by_cases inside : low ≤ b.toNat ∧ b.toNat ≤ high
          · rw [follow_more inside.1 inside.2] at followed
            obtain ⟨found, rfl⟩ := Prod.mk.inj followed
            exact Nat.succ_le_succ (ih (Prod.ext found rfl))
          · rw [follow, if_neg inside] at followed
            cases followed
            exact Nat.zero_le _

/-- However far bytes were followed, others in the place of the rest would have been followed to the
end. -/
theorem exists_follow {value more low high : Nat} {bytes : List UInt8} {code? : Option Nat}
    {taken : Nat} (followed : follow value more low high bytes = (code?, taken))
    (ordered : low ≤ high) (most : high ≤ 0xBF) : ∃ rest code,
      follow value more low high (bytes.take taken ++ rest) =
        (some code, (bytes.take taken ++ rest).length) := by
  induction more generalizing value low high bytes code? taken with
  | zero =>
      rw [follow] at followed
      cases followed
      exact ⟨[], value, rfl⟩
  | succ more ih =>
      have fresh : ∃ rest code,
          follow value (more + 1) low high rest = (some code, rest.length) := by
        have byte : (UInt8.ofNat low).toNat = low := toNat_byte (by omega)
        have none : follow (value * 64 + (low - 0x80)) more 0x80 0xBF [] = (_, _) := rfl
        obtain ⟨rest, code, followed'⟩ := ih none (by decide) le_rfl
        rw [List.take_nil, List.nil_append] at followed'
        refine ⟨.ofNat low :: rest, code, ?_⟩
        rw [follow_more (by omega) (by omega), byte, followed']
        rfl
      cases bytes with
      | nil =>
          rw [List.take_nil]
          exact fresh
      | cons b bytes =>
          by_cases inside : low ≤ b.toNat ∧ b.toNat ≤ high
          · rw [follow_more inside.1 inside.2] at followed
            obtain ⟨-, rfl⟩ := Prod.mk.inj followed
            obtain ⟨rest, code, followed'⟩ :=
              ih (Prod.ext rfl rfl) (show 0x80 ≤ 0xBF by decide) le_rfl
            refine ⟨rest, code, ?_⟩
            rw [List.take_succ_cons, List.cons_append, follow_more inside.1 inside.2, followed']
            rfl
          · rw [follow, if_neg inside] at followed
            cases followed
            exact fresh

/-- The byte that ended bytes does so whatever comes after it. -/
theorem follow_stop {value more low high : Nat} {bytes : List UInt8} {taken : Nat}
    (followed : follow value more low high bytes = (none, taken)) {b : UInt8}
    (next : (bytes.drop taken).head? = some b) (rest : List UInt8) :
    follow value more low high (bytes.take taken ++ b :: rest) = (none, taken) := by
  induction more generalizing value low high bytes taken with
  | zero => cases followed
  | succ more ih =>
      cases bytes with
      | nil =>
          cases followed
          cases next
      | cons b' bytes =>
          by_cases inside : low ≤ b'.toNat ∧ b'.toNat ≤ high
          · rw [follow_more inside.1 inside.2] at followed
            obtain ⟨found, rfl⟩ := Prod.mk.inj followed
            rw [List.take_succ_cons, List.cons_append, follow_more inside.1 inside.2,
              ih (Prod.ext found rfl) next]
          · have stopped := followed
            rw [follow, if_neg inside] at stopped
            cases stopped
            cases next
            rw [List.take_zero, List.nil_append, follow, if_neg inside]

/-! ## Leads -/

theorem lead?_range {b : Nat} {lead : Lead} (found : lead? b = some lead) :
    lead.more ≠ 0 ∧ 0x80 ≤ lead.low ∧ lead.low ≤ lead.high ∧ lead.high ≤ 0xBF := by
  unfold lead? at found
  split_ifs at found <;> simp only [Option.some.injEq] at found <;> subst found <;> simp

/-- A code point that a lead and the byte after it tell of is no surrogate, and has that lead. -/
theorem lead?_code {b : Nat} {lead : Lead} (found : lead? b = some lead) {code : Nat}
    (front : code / 64 ^ lead.more = lead.value)
    (least : lead.low ≤ code / 64 ^ (lead.more - 1) % 64 + 0x80)
    (most : code / 64 ^ (lead.more - 1) % 64 + 0x80 ≤ lead.high) :
    (code < 0xD800 ∨ 0xDFFF < code ∧ code < 0x110000) ∧
      following code = lead.more ∧ leadOf lead.more + lead.value = b := by
  unfold lead? at found
  split_ifs at found <;> simp only [Option.some.injEq] at found <;> subst found <;>
    simp only [leadOf] at * <;> refine ⟨by omega, ?_, by omega⟩ <;> unfold following <;>
    split_ifs <;> omega

/-- A lead and the bytes that follow it are those of a character. -/
theorem utf8_of_follow {b : UInt8} {lead : Lead} {rest : List UInt8} {code taken : Nat}
    (found : lead? b.toNat = some lead)
    (followed : follow lead.value lead.more lead.low lead.high rest = (some code, taken)) :
    String.utf8EncodeChar (Char.ofNat code) = b :: rest.take taken := by
  obtain ⟨any, least, -, most⟩ := lead?_range found
  obtain ⟨front, back, second⟩ := follow_code followed least most
  obtain ⟨scalar, many, whole⟩ := lead?_code found front (second any).1 (second any).2
  rw [utf8_eq, spread_eq, toNat_ofNat scalar, many, front, whole, back, UInt8.ofNat_toNat]

theorem utf8_of_plain {b : UInt8} (plain : b.toNat < 0x80) :
    String.utf8EncodeChar (Char.ofNat b.toNat) = [b] := by
  have last : following b.toNat = 0 := if_pos (Nat.le_of_lt_succ plain)
  rw [utf8_eq, toNat_ofNat (by omega), last, spread, leadOf, Nat.zero_add, UInt8.ofNat_toNat]

/-! ## Strays -/

theorem decode_alone {b : UInt8} (high : ¬b.toNat < 0x80) (none : lead? b.toNat = none)
    (rest : List UInt8) : decode (b :: rest) = .stray 1 :: decode rest := by
  rw [decode.eq_def]
  dsimp only
  rw [if_neg high, none]

theorem decode_stray {b : UInt8} {lead : Lead} {rest : List UInt8} {taken : Nat}
    (high : ¬b.toNat < 0x80) (found : lead? b.toNat = some lead)
    (followed : follow lead.value lead.more lead.low lead.high rest = (none, taken)) :
    decode (b :: rest) = .stray (taken + 1) :: decode (rest.drop taken) := by
  rw [decode.eq_def]
  dsimp only
  rw [if_neg high, found]
  dsimp only
  rw [followed]

/-- What is decoded to a stray first begins with no character. -/
theorem noChar_of_stray {bytes : List UInt8} {n : Nat} {gs : List Glyph}
    (decoded : decode bytes = .stray n :: gs) (c : Char) : ¬String.utf8EncodeChar c <+: bytes := by
  rintro ⟨rest, rfl⟩
  rw [decode_char] at decoded
  cases decoded

theorem not_begins {bytes : List UInt8}
    (decoded : ∀ rest, ∃ n gs, decode (bytes ++ rest) = .stray n :: gs) : ¬Begins bytes := by
  rintro ⟨c, rest, whole⟩
  obtain ⟨n, gs, stray⟩ := decoded rest
  exact noChar_of_stray stray c (whole ▸ List.prefix_rfl)

theorem begins_of_follow {b : UInt8} {lead : Lead} {rest : List UInt8} {code? : Option Nat}
    {taken : Nat} (found : lead? b.toNat = some lead)
    (followed : follow lead.value lead.more lead.low lead.high rest = (code?, taken)) :
    Begins (b :: rest.take taken) := by
  obtain ⟨-, -, ordered, most⟩ := lead?_range found
  obtain ⟨more, code, followed'⟩ := exists_follow followed ordered most
  have char := utf8_of_follow found followed'
  rw [List.take_length] at char
  exact ⟨Char.ofNat code, char ▸ List.prefix_append (b :: rest.take taken) more⟩

/-! ## Decoding -/

theorem fallsInto_decode (bytes : List UInt8) : FallsInto bytes (decode bytes) := by
  induction bytes using decode.induct with
  | case1 =>
      rw [decode.eq_def]
      exact .nil
  | case2 b rest plain ih =>
      rw [decode_plain plain]
      have fallen := FallsInto.char (Char.ofNat b.toNat) ih
      rwa [utf8_of_plain plain] at fallen
  | case3 b rest high none ih =>
      have alone := decode_alone high none
      rw [alone]
      refine FallsInto.stray [b] (List.cons_ne_nil _ _) (noChar_of_stray (alone rest))
        (.inl rfl) (fun next _ => not_begins fun more => ?_) ih
      exact ⟨_, _, alone _⟩
  | case4 b rest high lead found code taken followed ih =>
      rw [decode_lead code taken high found followed]
      have fallen := FallsInto.char (Char.ofNat code) ih
      rwa [utf8_of_follow found followed, List.cons_append, List.take_append_drop] at fallen
  | case5 b rest high lead found taken followed ih =>
      have decoded := decode_stray high found followed
      have parts : (b :: rest.take taken) ++ rest.drop taken = b :: rest := by
        rw [List.cons_append, List.take_append_drop]
      have width : (b :: rest.take taken).length = taken + 1 := by
        rw [List.length_cons, List.length_take_of_le (follow_short followed)]
      have fallen := FallsInto.stray (b :: rest.take taken) (List.cons_ne_nil _ _)
        (by rw [parts]; exact noChar_of_stray decoded) (.inr (begins_of_follow found followed))
        (fun next after => not_begins fun more => by
          rw [List.append_assoc, List.cons_append]
          exact ⟨_, _, decode_stray high found (follow_stop followed after more)⟩) ih
      rwa [parts, width, ← decoded] at fallen

theorem Begins.of_prefix {bytes more : List UInt8} (begins : Begins more) (front : bytes <+: more) :
    Begins bytes := by
  obtain ⟨c, whole⟩ := begins
  exact ⟨c, front.trans whole⟩

/-- A stray ends where it does because it begins nothing with the next byte. -/
theorem stray_le {bytes bytes' rest rest' : List UInt8} (same : bytes ++ rest = bytes' ++ rest')
    (nonempty : bytes ≠ []) (begins' : bytes'.length = 1 ∨ Begins bytes')
    (longest : ∀ b, rest.head? = some b → ¬Begins (bytes ++ [b])) :
    bytes'.length ≤ bytes.length := by
  by_contra more
  obtain ⟨beyond, rfl, rfl⟩ : ∃ beyond, bytes' = bytes ++ beyond ∧ rest = beyond ++ rest' := by
    rcases List.append_eq_append_iff.mp same with ⟨as, whole, after⟩ | ⟨as, rfl, -⟩
    · exact ⟨as, whole, after⟩
    · rw [List.length_append] at more
      omega
  cases beyond with
  | nil => simp at more
  | cons b beyond =>
      refine longest b rfl ?_
      have width := List.length_pos_of_ne_nil nonempty
      rcases begins' with one | begins
      · rw [List.length_append, List.length_cons] at one
        omega
      · exact begins.of_prefix ⟨beyond, by rw [List.append_assoc]; rfl⟩

theorem FallsInto.unique {bytes : List UInt8} {gs gs' : List Glyph} (fallen : FallsInto bytes gs)
    (fallen' : FallsInto bytes gs') : gs = gs' := by
  induction fallen generalizing gs' with
  | nil =>
      generalize empty : [] = all at fallen'
      cases fallen' with
      | nil => rfl
      | char c later =>
          have first := congrArg decode empty
          rw [decode_char, decode.eq_def] at first
          cases first
      | stray _ nonempty =>
          exact absurd (List.append_eq_nil_iff.mp empty.symm).1 nonempty
  | @char c rest _ _ ih =>
      generalize same : String.utf8EncodeChar c ++ rest = all at fallen'
      cases fallen' with
      | nil =>
          have first := congrArg decode same
          rw [decode_char, decode.eq_def []] at first
          cases first
      | char c' later =>
          have first := congrArg decode same
          rw [decode_char, decode_char] at first
          obtain rfl := Glyph.char.inj (List.cons.inj first).1
          rw [ih (List.append_cancel_left same ▸ later)]
      | stray _ _ noChar => exact absurd ⟨rest, same⟩ (noChar c)
  | @stray bytes rest _ nonempty noChar begins longest _ ih =>
      generalize same : bytes ++ rest = all at fallen'
      cases fallen' with
      | nil => exact absurd (List.append_eq_nil_iff.mp same).1 nonempty
      | @char c rest' => exact absurd ⟨rest', same.symm⟩ (noChar c)
      | @stray bytes' rest' _ nonempty' noChar' begins' longest' later' =>
          have width : bytes.length = bytes'.length :=
            Nat.le_antisymm (stray_le same.symm nonempty' begins longest')
              (stray_le same nonempty begins' longest)
          obtain ⟨rfl, rfl⟩ := List.append_inj same width
          rw [ih later']

theorem decode_eq_iff {bytes : List UInt8} {gs : List Glyph} :
    decode bytes = gs ↔ FallsInto bytes gs := by
  refine ⟨?_, fun fallen => (fallsInto_decode bytes).unique fallen⟩
  rintro rfl
  exact fallsInto_decode bytes

/-- A text is decoded from its own bytes only. -/
theorem decode_eq_glyphs_iff {bytes : List UInt8} {s : String} :
    decode bytes = glyphs s ↔ bytes = encode s := by
  constructor
  · intro decoded
    have fallen := fallsInto_decode bytes
    rw [decoded, glyphs] at fallen
    rw [encode_eq]
    generalize s.toList = cs at fallen
    clear decoded
    induction cs generalizing bytes with
    | nil =>
        cases fallen
        rfl
    | cons c cs ih =>
        cases fallen with
        | char _ later => rw [ih later, List.flatMap_cons]
  · rintro rfl
    exact decode_encode s

end EngineConsole.Text
