import EngineConsole.Json.Writer
import EngineConsole.Proofs.Json.Grammar
import EngineConsole.Proofs.Text.Utf8

/-!
# Tokens read back

A string or a number that was written is read as what it was, and the reader stops where it ended,
whatever follows a string and whatever cannot go on with a numeral.
-/

set_option autoImplicit false

namespace EngineConsole.Json

open Text (Glyph)

/-! ## Blanks -/

theorem skipSpace_append {cs : List Char} (blank : AreBlank cs) (rest : Input) :
    skipSpace (cs.map .char ++ rest) = skipSpace rest := by
  induction cs with
  | nil => rfl
  | cons c more ih =>
      rw [List.map_cons, List.cons_append, skipSpace, if_pos (blank c List.mem_cons_self)]
      exact ih fun d member => blank d (List.mem_cons_of_mem _ member)

theorem skipSpace_char {c : Char} (visible : isSpace c = false) (rest : Input) :
    skipSpace (.char c :: rest) = .char c :: rest := by
  rw [skipSpace, if_neg (by simp [visible])]

theorem skipSpace_blank {cs : List Char} (blank : AreBlank cs) :
    skipSpace (cs.map .char) = [] := by
  have skipped := skipSpace_append blank []
  rwa [List.append_nil] at skipped

theorem skipSpace_spells (input : Input) :
    ∃ space, AreBlank space ∧ input = space.map .char ++ skipSpace input := by
  induction input with
  | nil => exact ⟨[], nofun, rfl⟩
  | cons g rest ih =>
      cases g with
      | stray n => exact ⟨[], nofun, rfl⟩
      | char c =>
          rw [skipSpace]
          split
          next space =>
            obtain ⟨more, blank, spells⟩ := ih
            exact ⟨c :: more, List.forall_mem_cons.mpr ⟨space, blank⟩, congrArg _ spells⟩
          next => exact ⟨[], nofun, rfl⟩

theorem blank_of_skipSpace {cs : List Char} (none : skipSpace (cs.map .char) = []) : AreBlank cs := by
  obtain ⟨space, blank, spells⟩ := skipSpace_spells (cs.map .char)
  rw [none, List.append_nil] at spells
  rwa [Text.map_char_inj spells]

theorem colon_spaced {space : List Char} (blank : AreBlank space) (input : Input) :
    colon (space.map .char ++ .char ':' :: input) = .ok input := by
  unfold colon
  rw [skipSpace_append blank, skipSpace_char rfl]
  exact if_pos rfl

/-! ## Strings -/

theorem hexValue_of_isHexDigit {c : Char} {v : Nat} (digit : IsHexDigit c v) :
    hexValue? c = some v ∧ c.utf8Size = 1 := by
  have all : ∀ v : Fin 16,
      (hexValue? (Nat.digitChar v) = some v.val ∧ (Nat.digitChar v).utf8Size = 1) ∧
        hexValue? (Nat.digitChar v).toUpper = some v.val ∧
          (Nat.digitChar v).toUpper.utf8Size = 1 := by decide
  obtain ⟨small, rfl | rfl⟩ := digit
  · exact (all ⟨v, small⟩).1
  · exact (all ⟨v, small⟩).2

theorem hexQuad_append {quad : List Char} {n : Nat} (digits : IsQuad quad n) (rest : Input) :
    hexQuad (quad.map .char ++ rest) = .ok n := by
  obtain ⟨first, second, third, fourth⟩ := digits
  obtain ⟨first, firstSize⟩ := hexValue_of_isHexDigit first
  obtain ⟨second, secondSize⟩ := hexValue_of_isHexDigit second
  obtain ⟨third, thirdSize⟩ := hexValue_of_isHexDigit third
  obtain ⟨fourth, fourthSize⟩ := hexValue_of_isHexDigit fourth
  unfold hexQuad
  rw [if_pos (by cases rest <;> simp [hasBytes, Glyph.width, *])]
  simp [Glyph.char?, first, second, third, fourth]

theorem isQuad_hexPair {n : Nat} (small : n < 0x20) : IsQuad (['0', '0'] ++ hexPair n) n := by
  have zero : IsHexDigit '0' 0 := ⟨by decide, .inl rfl⟩
  have value : ((0 * 16 + 0) * 16 + n / 16) * 16 + n % 16 = n := by omega
  have quad := IsQuad.intro zero zero (y := n / 16) ⟨by omega, .inl rfl⟩ (z := n % 16)
    ⟨by omega, .inl rfl⟩
  rw [value] at quad
  exact quad

theorem escape_control {c : Char} (control : c.toNat < 0x20) (rest : Input) :
    escape ((['u', '0', '0'] ++ hexPair c.toNat).map .char ++ rest) = .ok (c, 5) := by
  have quad := hexQuad_append (isQuad_hexPair control) rest
  have code : escapedCode ((['0', '0'] ++ hexPair c.toNat).map .char ++ rest) = .ok (c, 4) := by
    unfold escapedCode
    rw [quad]
    dsimp only [bind, Except.bind]
    rw [if_neg (by omega), if_pos (by omega), Char.ofNat_toNat]
  have whole : (['u', '0', '0'] ++ hexPair c.toNat).map Glyph.char ++ rest =
      .char 'u' :: ((['0', '0'] ++ hexPair c.toNat).map .char ++ rest) := rfl
  rw [whole]
  unfold escape
  dsimp only
  rw [if_pos rfl, code]
  rfl

theorem string_escaped {input : Input} {c : Char} {taken : Nat}
    (decoded : escape input = .ok (c, taken)) :
    string (.char '\\' :: input) =
      (string (input.drop taken)).map fun p => (c :: p.1, p.2) := by
  rw [string.eq_def]
  dsimp only
  rw [if_neg (by decide), if_pos rfl, decoded]
  dsimp only [bind, Except.bind]
  cases string (input.drop taken) <;> rfl

theorem string_code_error {input : Input} {flaw : Flaw} (wrong : escapedCode input = .error flaw) :
    string (.char '\\' :: .char 'u' :: input) = .error flaw := by
  rw [string.eq_def]
  dsimp only
  rw [if_neg (by decide), if_pos rfl, escape, if_pos rfl, wrong]
  rfl

theorem string_plain {c : Char} (quote : c ≠ '"') (backslash : c ≠ '\\')
    (control : ¬c.toNat < 0x20) (rest : Input) :
    string (.char c :: rest) = (string rest).map fun p => (c :: p.1, p.2) := by
  rw [string.eq_def]
  dsimp only
  rw [if_neg quote, if_neg backslash, if_neg control]
  dsimp only [bind, Except.bind]
  cases string rest <;> rfl

/-- A character that was written is read as itself. -/
theorem string_writeChar (c : Char) (rest : Input) :
    string ((writeChar c).map .char ++ rest) = (string rest).map fun p => (c :: p.1, p.2) := by
  have letter {escaped d : Char} (same : c = d) (short : escapedLetter? escaped = some d)
      (plain : escaped ≠ 'u') :
      string ((['\\', escaped]).map .char ++ rest) =
        (string rest).map fun p => (c :: p.1, p.2) := by
    have decoded : escape (.char escaped :: rest) = .ok (c, 1) := by
      simp [escape, plain, short, same]
    exact string_escaped decoded
  unfold writeChar
  split
  next quote => exact letter quote rfl (by decide)
  split
  next backslash => exact letter backslash rfl (by decide)
  next quote backslash =>
    split
    next control =>
      split
      next same => exact letter same rfl (by decide)
      split
      next same => exact letter same rfl (by decide)
      split
      next same => exact letter same rfl (by decide)
      split
      next same => exact letter same rfl (by decide)
      split
      next same => exact letter same rfl (by decide)
      next => exact string_escaped (escape_control control rest)
    next plain => exact string_plain quote backslash plain rest

theorem string_write (cs : List Char) (rest : Input) :
    string ((cs.flatMap writeChar ++ ['"']).map .char ++ rest) = .ok (cs, rest) := by
  induction cs with
  | nil =>
      rw [List.flatMap_nil, List.nil_append, List.map_cons, List.map_nil, List.cons_append,
        List.nil_append, string.eq_def]
      rfl
  | cons c more ih =>
      rw [List.flatMap_cons, List.append_assoc, List.map_append, List.append_assoc,
        string_writeChar, ih]
      rfl

/-! ## Numbers -/

/-- No numeral goes on here. -/
def Ends (rest : Input) : Prop :=
  ∀ c, rest.head? = some (.char c) → c.isDigit = false ∧ c ≠ '.' ∧ c ≠ 'e' ∧ c ≠ 'E'

theorem ends_nil : Ends [] :=
  nofun

theorem takeDigits_append {ds : List Char} (digits : Decimal.AreDigits ds) {rest : Input}
    (ends : ∀ c, rest.head? = some (.char c) → c.isDigit = false) :
    takeDigits (ds.map .char ++ rest) = (ds, rest) := by
  induction ds with
  | nil =>
      cases rest with
      | nil => rfl
      | cons g more =>
          cases g with
          | char c => simp [takeDigits, ends c rfl]
          | stray n => rfl
  | cons c more ih =>
      have first := digits c List.mem_cons_self
      rw [List.map_cons, List.cons_append, takeDigits, if_pos first,
        ih fun d member => digits d (List.mem_cons_of_mem _ member)]

theorem someDigits_append {ds : List Char} (nonempty : ds ≠ [])
    (digits : Decimal.AreDigits ds) {rest : Input}
    (ends : ∀ c, rest.head? = some (.char c) → c.isDigit = false) :
    someDigits (ds.map .char ++ rest) = .ok (ds, rest) := by
  unfold someDigits
  rw [takeDigits_append digits ends]
  cases ds with
  | nil => exact absurd rfl nonempty
  | cons c more => rfl

theorem fraction_append {fraction? : Option (List Char)}
    (sound : ∀ ds, fraction? = some ds → ds ≠ [] ∧ Decimal.AreDigits ds) {rest : Input}
    (ends : ∀ c, rest.head? = some (.char c) → c.isDigit = false ∧ c ≠ '.') :
    fraction ((fraction?.elim [] ('.' :: ·)).map .char ++ rest) = .ok (fraction?, rest) := by
  cases fraction? with
  | some ds =>
      have read := someDigits_append (sound ds rfl).1 (sound ds rfl).2 fun c head => (ends c head).1
      simp only [Option.elim_some, List.map_cons, List.cons_append, fraction, read]
      rfl
  | none =>
      rw [Option.elim_none, List.map_nil, List.nil_append]
      unfold fraction
      split
      next more => exact absurd rfl (ends '.' rfl).2
      next => rfl

theorem takeSign_append (sign : Option Bool) {rest : Input}
    (unsigned : ∀ c, rest.head? = some (.char c) → c ≠ '+' ∧ c ≠ '-') :
    takeSign ((Numeral.signText sign).map .char ++ rest) = (sign == some true, rest) := by
  cases sign with
  | some negative => cases negative <;> rfl
  | none =>
      change takeSign rest = (false, rest)
      unfold takeSign
      split
      next more => exact absurd rfl (unsigned '+' rfl).1
      next more => exact absurd rfl (unsigned '-' rfl).2
      next => rfl

theorem unsigned_of_digits {ds : List Char} (nonempty : ds ≠ []) (digits : Decimal.AreDigits ds)
    (rest : Input) :
    ∀ c, (ds.map Glyph.char ++ rest).head? = some (.char c) → c ≠ '+' ∧ c ≠ '-' := by
  obtain ⟨d, more, rfl⟩ := List.exists_cons_of_ne_nil nonempty
  rintro c ⟨⟩
  have digit := digits d List.mem_cons_self
  constructor <;> rintro rfl <;> cases digit

theorem exponent_append {power? : Option Numeral.Power}
    (sound : ∀ p, power? = some p → p.Sound) {rest : Input} (ends : Ends rest) :
    exponent ((power?.elim [] Numeral.Power.text).map .char ++ rest) =
      .ok (power?.map Numeral.Power.value, rest) := by
  cases power? with
  | some p =>
      obtain ⟨letter, nonempty, digits⟩ := sound p rfl
      have read := someDigits_append nonempty digits fun c head => (ends c head).1
      have signed := takeSign_append p.sign (unsigned_of_digits nonempty digits rest)
      simp only [Option.elim_some, Numeral.Power.text, List.map_cons, List.map_append,
        List.cons_append, List.append_assoc, exponent, if_pos letter, signed]
      rw [read]
      simp [bind, Except.bind, Numeral.Power.value]
  | none =>
      rw [Option.elim_none, List.map_nil, List.nil_append]
      cases rest with
      | nil => rfl
      | cons g more =>
          cases g with
          | stray n => rfl
          | char c =>
              obtain ⟨-, -, small, capital⟩ := ends c rfl
              simp [exponent, small, capital]

theorem head_map_append {cs : List Char} {rest : Input} {P : Char → Prop}
    (first : ∀ c, cs.head? = some c → P c)
    (later : cs = [] → ∀ c, rest.head? = some (.char c) → P c) :
    ∀ c, (cs.map Glyph.char ++ rest).head? = some (.char c) → P c := by
  intro c head
  cases cs with
  | nil => exact later rfl c head
  | cons d more =>
      refine first c ?_
      simpa using head

theorem takeMinus_append {sign : Option Bool} (strict : sign ≠ some false) {rest : Input}
    (unsigned : ∀ c, rest.head? = some (.char c) → c ≠ '-') :
    takeMinus ((Numeral.signText sign).map .char ++ rest) = (sign == some true, rest) := by
  cases sign with
  | some negative =>
      cases negative with
      | true => rfl
      | false => exact absurd rfl strict
  | none =>
      change takeMinus rest = (false, rest)
      unfold takeMinus
      split
      next more => exact absurd rfl (unsigned '-' rfl)
      next => rfl

section

variable {s : Numeral.Spelling} {rest : Input}

/-- With its sign and its whole part a numeral has begun. -/
theorem numeral_whole (strict : s.Strict)
    (ends : ∀ c, rest.head? = some (.char c) → c.isDigit = false) :
    numeral ((Numeral.signText s.sign ++ s.whole).map .char ++ rest) = (do
      let (fraction?, rest) ← fraction rest
      let (exponent?, rest) ← exponent rest
      .ok (⟨s.sign == some true, s.whole, fraction?.getD [], exponent?.getD 0,
        fraction?.isNone && exponent?.isNone⟩, rest)) := by
  obtain ⟨sign, ⟨nonempty, digits⟩, noExtraZero, -, -⟩ := strict
  have readWhole := someDigits_append nonempty digits ends
  have readSign := takeMinus_append sign fun c head =>
    (unsigned_of_digits nonempty digits rest c head).2
  unfold numeral
  rw [List.map_append, List.append_assoc, readSign]
  dsimp only
  rw [readWhole]
  dsimp only [bind, Except.bind]
  rw [if_neg fun zero => zero.2 (noExtraZero zero.1)]

theorem fraction_no_digit (fraction? : Option (List Char))
    (ends : ∀ c, rest.head? = some (.char c) → c.isDigit = false) :
    ∀ c, ((fraction?.elim [] ('.' :: ·)).map Glyph.char ++ rest).head? = some (.char c) →
      c.isDigit = false := by
  refine head_map_append ?_ fun _ => ends
  intro c head
  cases fraction? with
  | none => cases head
  | some ds =>
      cases head
      decide

theorem letter_ends {p : Numeral.Power} (sound : p.Sound) (more : Input) :
    ∀ c, (.char p.letter :: more : Input).head? = some (.char c) → c.isDigit = false ∧ c ≠ '.' := by
  rintro c ⟨⟩
  rcases sound.letter with same | same <;> rw [same] <;> decide

/-- A numeral is read as it was spelled. -/
theorem numeral_text (strict : s.Strict) (ends : Ends rest) :
    numeral (s.text.map .char ++ rest) = .ok (s.numeral, rest) := by
  have tailEnds : ∀ c, ((s.power.elim [] Numeral.Power.text).map Glyph.char ++ rest).head? =
      some (.char c) → c.isDigit = false ∧ c ≠ '.' := by
    cases given : s.power with
    | none => exact fun c head => ⟨(ends c head).1, (ends c head).2.1⟩
    | some p => exact letter_ends (strict.power p given) _
  have text : s.text.map .char ++ rest = (Numeral.signText s.sign ++ s.whole).map .char ++
      ((s.fraction.elim [] ('.' :: ·)).map Glyph.char ++
        ((s.power.elim [] Numeral.Power.text).map Glyph.char ++ rest)) := by
    simp only [Numeral.Spelling.text, List.map_append, List.append_assoc]
  rw [text, numeral_whole strict (fraction_no_digit _ fun c head => (tailEnds c head).1),
    fraction_append strict.fraction tailEnds]
  dsimp only [bind, Except.bind]
  rw [exponent_append strict.power ends]
  simp [Numeral.Spelling.numeral]

end

theorem ends_of_space {c : Char} (space : isSpace c = true) :
    c.isDigit = false ∧ c ≠ '.' ∧ c ≠ 'e' ∧ c ≠ 'E' := by
  simp only [isSpace, Bool.or_eq_true, beq_iff_eq] at space
  rcases space with ((rfl | rfl) | rfl) | rfl <;> decide

/-! ## Tokens -/

theorem token_blank {space : List Char} (blank : AreBlank space) (input : Input) :
    token (space.map .char ++ input) = token input := by
  unfold token
  rw [skipSpace_append blank]

theorem token_brace (rest : Input) : token (.char '{' :: rest) = .ok (.opening .object, rest) :=
  rfl

theorem token_quote (rest : Input) :
    token (.char '"' :: rest) = (string rest).map fun p => (.scalar (.text p.1), p.2) := by
  unfold token
  rw [skipSpace_char rfl]
  dsimp only [bind, Except.bind]
  cases string rest <;> rfl

theorem token_true (rest : Input) : token (.char 't' :: rest) =
    (word ['r', 'u', 'e'] rest).map fun after => (.scalar (.flag true), after) := by
  unfold token
  rw [skipSpace_char rfl]
  dsimp only [bind, Except.bind]
  cases word ['r', 'u', 'e'] rest <;> rfl

theorem token_false (rest : Input) : token (.char 'f' :: rest) =
    (word ['a', 'l', 's', 'e'] rest).map fun after => (.scalar (.flag false), after) := by
  unfold token
  rw [skipSpace_char rfl]
  dsimp only [bind, Except.bind]
  cases word ['a', 'l', 's', 'e'] rest <;> rfl

theorem token_number {c : Char} (numeric : c = '-' ∨ c.isDigit = true) (rest : Input) :
    token (.char c :: rest) = number (.char c :: rest) := by
  have visible : isSpace c = false := by
    rcases numeric with rfl | digit
    · rfl
    · cases space : isSpace c with
      | false => rfl
      | true => exact absurd digit (by simp [(ends_of_space space).1])
  unfold token
  rw [skipSpace_char visible]
  dsimp only
  split
  all_goals first
    | exact absurd numeric (by decide)
    | exact if_pos numeric

theorem text_numeric {s : Numeral.Spelling} (strict : s.Strict) :
    ∃ c more, s.text = c :: more ∧ (c = '-' ∨ c.isDigit = true) := by
  obtain ⟨sign, ⟨nonempty, digits⟩, -⟩ := strict
  obtain ⟨d, more, whole⟩ := List.exists_cons_of_ne_nil nonempty
  rw [Numeral.Spelling.text, whole]
  cases given : s.sign with
  | none => exact ⟨d, _, rfl, .inr (digits d (whole ▸ List.mem_cons_self))⟩
  | some negative =>
      cases negative with
      | true => exact ⟨'-', _, rfl, .inl rfl⟩
      | false => exact absurd given sign

/-- A number is read if a double can hold it. -/
theorem token_numeral {s : Numeral.Spelling} (strict : s.Strict) {rest : Input} (ends : Ends rest) :
    token (s.text.map .char ++ rest) =
      if (double? s.numeral).isSome then .ok (.scalar (.number s.numeral), rest)
      else .error .malformed := by
  obtain ⟨c, more, first, numeric⟩ := text_numeric strict
  have read := numeral_text strict ends
  rw [first, List.map_cons, List.cons_append] at read ⊢
  rw [token_number numeric]
  unfold number
  rw [read]
  rfl

end EngineConsole.Json
