import EngineConsole.Proofs.Decimal.Nearest
import EngineConsole.Proofs.Decimal.Scanning
import EngineConsole.Proofs.Text.Utf8

/-!
# What number fields stand for

A number field stands for the longest numeral that its text begins with, blanks aside, rounded to a
double. The numeral always ends between two characters and is always one that can be read, so the
only number to be discarded is one that is too large.
-/

set_option autoImplicit false

namespace EngineConsole

namespace Numeral

/-- A text begins with this numeral, and with no longer one. -/
structure Spelling.Longest (s : Spelling) (cs : List Char) : Prop where
  sound : s.Sound
  leads : s.text <+: cs
  longest : ∀ other : Spelling, other.Sound → other.text <+: cs →
    other.text.length ≤ s.text.length

/-- What is scanned of a text that a numeral begins is the longest numeral. -/
theorem Spelling.Sound.longest {s : Spelling} (sound : s.Sound) (rest : List Char) {n : Numeral}
    (scanned : scan? (s.text ++ rest) = some (n, rest)) : s.Longest (s.text ++ rest) := by
  refine ⟨sound, List.prefix_append _ _, fun other sound' leads => ?_⟩
  obtain ⟨n', rest', scanned', short⟩ := scan?_longest sound' leads
  rw [scanned] at scanned'
  cases scanned'
  rw [List.length_append] at short
  omega

theorem longest_of_scan? {cs rest : List Char} {n : Numeral} (scanned : scan? cs = some (n, rest)) :
    ∃ s : Spelling, s.Longest cs ∧ s.numeral = n := by
  obtain ⟨s, sound, rfl, numeral⟩ := spelling_of_scan? scanned
  exact ⟨s, sound.longest rest scanned, numeral⟩

namespace Spelling

variable {s other : Spelling} {cs : List Char}

/-- There is one longest numeral, if there is any. -/
theorem Longest.text_eq (longest : s.Longest cs) (longest' : other.Longest cs) :
    s.text = other.text := by
  have length := Nat.le_antisymm (longest'.longest s longest.sound longest.leads)
    (longest.longest other longest'.sound longest'.leads)
  exact (List.prefix_of_prefix_length_le longest.leads longest'.leads length.le).eq_of_length length

theorem Longest.numeral_eq (longest : s.Longest cs) (longest' : other.Longest cs) :
    s.numeral = other.numeral :=
  longest.sound.numeral_eq longest'.sound (longest.text_eq longest')

theorem Longest.scan? (longest : s.Longest cs) :
    ∃ rest, scan? cs = some (s.numeral, rest) := by
  obtain ⟨n, rest, scanned, -⟩ := scan?_longest longest.sound longest.leads
  obtain ⟨other, longest', rfl⟩ := longest_of_scan? scanned
  exact ⟨rest, by rw [scanned, longest.numeral_eq longest']⟩

theorem Sound.exists_longest (sound : s.Sound) (leads : s.text <+: cs) :
    ∃ other : Spelling, other.Longest cs := by
  obtain ⟨n, rest, scanned, -⟩ := scan?_longest sound leads
  obtain ⟨other, longest, -⟩ := longest_of_scan? scanned
  exact ⟨other, longest⟩

/-- Every numeral can be read as a double. -/
theorem Sound.read? (sound : s.Sound) :
    (Binary.read? (String.ofList s.text) : Option Double) = some (.ofDecimal s.numeral.value) := by
  have scanned := scan?_text sound ends_nil
  rw [List.append_nil] at scanned
  have other {word : String} (unscanned : Numeral.scan? word.toList = none) :
      String.ofList s.text ≠ word := by
    intro same
    rw [← same, String.toList_ofList, scanned] at unscanned
    cases unscanned
  unfold Binary.read?
  rw [if_neg (other rfl), if_neg (other rfl), if_neg (other rfl), String.toList_ofList, scanned]

theorem mem_signText {sign : Option Bool} {c : Char} (member : c ∈ signText sign) :
    c ∈ ['+', '-', '.', 'e', 'E'] := by
  cases sign with
  | none => cases member
  | some negative => cases negative <;> rw [List.mem_singleton.mp member] <;> decide

theorem Sound.mem_text (sound : s.Sound) {c : Char} (member : c ∈ s.text) :
    c.isDigit = true ∨ c ∈ ['+', '-', '.', 'e', 'E'] := by
  rcases List.mem_append.mp member with sign | member
  · exact .inr (mem_signText sign)
  rcases List.mem_append.mp member with whole | member
  · exact .inl (sound.whole c whole)
  rcases List.mem_append.mp member with fraction | power
  · cases given : s.fraction with
    | none =>
        rw [given] at fraction
        cases fraction
    | some ds =>
        rw [given] at fraction
        rcases List.mem_cons.mp fraction with rfl | digit
        · exact .inr (by decide)
        · exact .inl (sound.fraction ds given c digit)
  · cases given : s.power with
    | none =>
        rw [given] at power
        cases power
    | some p =>
        rw [given] at power
        have found := sound.power p given
        rcases List.mem_cons.mp power with rfl | power
        · right
          rcases found.letter with same | same <;> rw [same] <;> decide
        · rcases List.mem_append.mp power with sign | digit
          · exact .inr (mem_signText sign)
          · exact .inl (found.digits.2 c digit)

/-- A numeral has as many bytes as characters, so what is told in bytes cuts no character. -/
theorem Sound.length_encode (sound : s.Sound) :
    (Text.encode (String.ofList s.text)).length = s.text.length := by
  have single {c : Char} (member : c ∈ s.text) : (String.utf8EncodeChar c).length = 1 := by
    rw [String.length_utf8EncodeChar]
    rcases sound.mem_text member with digit | other
    · rw [Char.utf8Size_eq_one_iff]
      simp only [Char.isDigit, Bool.and_eq_true, decide_eq_true_eq] at digit
      exact UInt32.le_trans digit.2 (by decide)
    · simp only [List.mem_cons, List.not_mem_nil, or_false] at other
      rcases other with rfl | rfl | rfl | rfl | rfl <;> rfl
  rw [Text.encode_eq, String.toList_ofList, List.length_flatMap, List.map_congr_left fun _ => single,
    List.map_const', List.sum_replicate]
  exact Nat.mul_one _

theorem Longest.splitAt_encode (longest : s.Longest cs) : ∃ rest, cs = s.text ++ rest ∧
    (Text.encode (String.ofList cs)).splitAt s.text.length =
      (Text.encode (String.ofList s.text), Text.encode (String.ofList rest)) := by
  obtain ⟨rest, rfl⟩ := longest.leads
  refine ⟨rest, rfl, ?_⟩
  have bytes : Text.encode (String.ofList (s.text ++ rest)) =
      Text.encode (String.ofList s.text) ++ Text.encode (String.ofList rest) := by
    simp only [Text.encode_eq, String.toList_ofList, List.flatMap_append]
  rw [bytes, List.splitAt_eq, ← longest.sound.length_encode, List.take_left, List.drop_left]

end Spelling

end Numeral

/-! ## Fields -/

namespace Field

/-- What a number field stands for if it holds no number. -/
def noNumber : Value :=
  .number (.ofRank false 0)

theorem value_of_longest {raw : String} {s : Numeral.Spelling}
    (longest : s.Longest (Text.trimStart raw.toList)) :
    (Field.number raw).value =
      if (Binary.ofDecimal s.numeral.value : Double).isFinite then
        .number (.ofDecimal s.numeral.value)
      else noNumber := by
  obtain ⟨rest, scanned⟩ := longest.scan?
  unfold value leadingNumber
  dsimp only
  rw [scanned]
  dsimp only
  split <;> rfl

theorem value_of_unscanned {raw : String}
    (none : Numeral.scan? (Text.trimStart raw.toList) = none) :
    (Field.number raw).value = noNumber := by
  unfold value leadingNumber
  dsimp only
  rw [none]
  rfl

theorem value_of_none {raw : String}
    (none : ∀ s : Numeral.Spelling, s.Sound → ¬s.text <+: Text.trimStart raw.toList) :
    (Field.number raw).value = noNumber := by
  cases scanned : Numeral.scan? (Text.trimStart raw.toList) with
  | none => exact value_of_unscanned scanned
  | some found =>
      obtain ⟨s, longest, -⟩ := Numeral.longest_of_scan? scanned
      exact absurd longest.leads (none s longest.sound)

/-- What cannot begin a number stands for none, with or without a sign. -/
theorem value_of_other {raw : String} (sign : Option Bool) {c : Char} {rest : List Char}
    (text : Text.trimStart raw.toList = Numeral.signText sign ++ c :: rest)
    (digit : c.isDigit = false) (other : c ∉ ['+', '-', '.']) :
    (Field.number raw).value = noNumber := by
  simp only [List.mem_cons, List.not_mem_nil, or_false, not_or] at other
  obtain ⟨plus, minus, point⟩ := other
  have first {P : Char → Prop} (holds : P c) : ∀ d, (c :: rest).head? = some d → P d := by
    rintro d ⟨⟩
    exact holds
  have unsigned := Numeral.takeSign_append sign (first ⟨plus, minus⟩)
  have digits := Numeral.takeDigits_of_ends (first digit)
  have fraction := Numeral.takeFraction_of_ends (first point)
  refine value_of_unscanned ?_
  unfold Numeral.scan?
  rw [text, unsigned]
  dsimp only
  rw [digits]
  dsimp only
  rw [fraction]
  rfl

/-- What is appended changes nothing, as long as no numeral reaches into it. -/
theorem value_append {raw more : String}
    (kept : ∀ s : Numeral.Spelling, s.Sound → s.text <+: Text.trimStart (raw ++ more).toList →
      s.text <+: Text.trimStart raw.toList) :
    (Field.number (raw ++ more)).value = (Field.number raw).value := by
  have before : Text.trimStart raw.toList <+: Text.trimStart (raw ++ more).toList := by
    rw [String.toList_append, Text.trimStart, Text.trimStart, List.dropWhile_append]
    split
    next empty =>
      rw [List.isEmpty_iff.mp empty]
      exact List.nil_prefix
    next => exact List.prefix_append _ _
  by_cases any : ∃ s : Numeral.Spelling, s.Sound ∧ s.text <+: Text.trimStart (raw ++ more).toList
  · obtain ⟨s, sound, leads⟩ := any
    obtain ⟨longest, found⟩ := sound.exists_longest leads
    have found' : longest.Longest (Text.trimStart raw.toList) :=
      ⟨found.sound, kept longest found.sound found.leads,
        fun other sound leads => found.longest other sound (leads.trans before)⟩
    rw [value_of_longest found, value_of_longest found']
  · have none (s : Numeral.Spelling) (sound : s.Sound) :
        ¬s.text <+: Text.trimStart (raw ++ more).toList := fun leads => any ⟨s, sound, leads⟩
    rw [value_of_none none, value_of_none fun s sound leads => none s sound (leads.trans before)]

/-- A number field stands for the longest numeral that its text begins with after any blanks, read
as the nearest double. The numeral is a beginning of the text in characters and in bytes alike, and
can be read; if it is too large for a double, and if there is none, the field stands for zero. There
is none after blanks and a sign, if any, unless a digit or a point comes next. What is appended
without lengthening the numeral changes nothing. -/
theorem number_field_reads_longest_numeral (raw : String) :
    (∀ s : Numeral.Spelling, s.Longest (Text.trimStart raw.toList) →
      ∃ (x : Double) (rest : List Char), Text.trimStart raw.toList = s.text ++ rest ∧
        (Text.encode (String.ofList (Text.trimStart raw.toList))).splitAt s.text.length =
          (Text.encode (String.ofList s.text), Text.encode (String.ofList rest)) ∧
        Binary.read? (String.ofList s.text) = some x ∧ x.Rounds s.numeral.value ∧
        (Field.number raw).value = if x.isFinite then .number x else noNumber) ∧
    ((∃ s : Numeral.Spelling, s.Longest (Text.trimStart raw.toList)) ∨
      (∀ s : Numeral.Spelling, s.Sound → ¬s.text <+: Text.trimStart raw.toList) ∧
        (Field.number raw).value = noNumber) ∧
    (∀ sign c rest, Text.trimStart raw.toList = Numeral.signText sign ++ c :: rest →
      c.isDigit = false → c ∉ ['+', '-', '.'] → (Field.number raw).value = noNumber) ∧
    ∀ more, (∀ s : Numeral.Spelling, s.Sound → s.text <+: Text.trimStart (raw ++ more).toList →
        s.text <+: Text.trimStart raw.toList) →
      (Field.number (raw ++ more)).value = (Field.number raw).value := by
  refine ⟨?_, ?_, fun sign _ _ => value_of_other sign, fun _ => value_append⟩
  · intro s longest
    obtain ⟨rest, text, bytes⟩ := longest.splitAt_encode
    exact ⟨.ofDecimal s.numeral.value, rest, text, bytes, longest.sound.read?,
      Binary.rounds_ofDecimal BinaryFormat.normal_double _, value_of_longest longest⟩
  · by_cases any : ∃ s : Numeral.Spelling, s.Sound ∧ s.text <+: Text.trimStart raw.toList
    · obtain ⟨s, sound, leads⟩ := any
      exact .inl (sound.exists_longest leads)
    · have none (s : Numeral.Spelling) (sound : s.Sound) :
          ¬s.text <+: Text.trimStart raw.toList :=
        fun leads => any ⟨s, sound, leads⟩
      exact .inr ⟨none, value_of_none none⟩

/-- An exponent without digits is given back, and a point that comes after it does not reach the
number. -/
theorem exponent_without_digits_is_given_back :
    let s : Numeral.Spelling := ⟨some true, [], some ['5'], none⟩
    s.Longest (Text.trimStart " -.5e+ms".toList) ∧
      (Field.number " -.5e+ms").value = .number (.ofDecimal ⟨true, 5, -1⟩) ∧
      (Field.number (" -.5e+ms" ++ ".7")).value = (Field.number " -.5e+ms").value ∧
      (Field.number "-inf").value = noNumber := by
  intro s
  have sound : s.Sound := by
    refine ⟨.inr (List.cons_ne_nil _ _), nofun, ?_, nofun⟩
    rintro ds ⟨⟩
    exact Decimal.areDigits_digits 5
  have longest : s.Longest (Text.trimStart " -.5e+ms".toList) :=
    sound.longest "e+ms".toList rfl
  have longest' : s.Longest (Text.trimStart (" -.5e+ms" ++ ".7").toList) :=
    sound.longest "e+ms.7".toList rfl
  obtain ⟨number, -, -, appended⟩ := number_field_reads_longest_numeral " -.5e+ms"
  obtain ⟨-, -, word, -⟩ := number_field_reads_longest_numeral "-inf"
  obtain ⟨x, rest, -, -, -, rounds, value⟩ := number s longest
  refine ⟨longest, ?_, appended ".7" fun other sound' leads => ?_,
    word (some true) 'i' ['n', 'f'] rfl rfl (by decide)⟩
  · rw [value, (Binary.rounds_iff BinaryFormat.normal_double).mp rounds]
    exact if_pos (by decide +kernel)
  · have short := longest'.longest other sound' leads
    exact (List.prefix_of_prefix_length_le leads longest'.leads short).trans longest.leads

end Field

end EngineConsole
