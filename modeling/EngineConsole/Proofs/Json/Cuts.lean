import EngineConsole.Proofs.Json.Doubles
import EngineConsole.Proofs.Json.Objects

/-!
# Objects that are cut

What is left of an object that was written, after something was cut off its end, is cut short:
wherever the cut is, the reader comes to the end of the text before it finds a flaw. A number may be
whole again after the cut; the object around it is not.
-/

set_option autoImplicit false

namespace EngineConsole.Json

open Text (Glyph)

/-- What is left of a text from which something was cut off at its end. -/
def Cut (p cs : List Char) : Prop :=
  ∃ lost, lost ≠ [] ∧ p ++ lost = cs

theorem not_cut_nil {p : List Char} : ¬Cut p [] := by
  rintro ⟨lost, some, same⟩
  exact some (List.append_eq_nil_iff.mp same).2

theorem cut_append {p cs ds : List Char} (cut : Cut p (cs ++ ds)) :
    Cut p cs ∨ ∃ q, p = cs ++ q ∧ Cut q ds := by
  obtain ⟨lost, nonempty, same⟩ := cut
  rcases List.append_eq_append_iff.mp same with ⟨more, rfl, rest⟩ | ⟨q, rfl, rest⟩
  · cases more with
    | nil => exact .inr ⟨[], by simp, lost, nonempty, rest⟩
    | cons c more => exact .inl ⟨c :: more, List.cons_ne_nil _ _, rfl⟩
  · exact .inr ⟨q, rfl, lost, nonempty, rest.symm⟩

theorem cut_cons {p cs : List Char} {c : Char} (cut : Cut p (c :: cs)) :
    p = [] ∨ ∃ q, p = c :: q ∧ Cut q cs := by
  obtain ⟨lost, nonempty, same⟩ := cut
  cases p with
  | nil => exact .inl rfl
  | cons d q =>
      obtain ⟨rfl, rest⟩ := List.cons_eq_cons.mp same
      exact .inr ⟨q, rfl, lost, nonempty, rest⟩

theorem cut_singleton {p : List Char} {c : Char} (cut : Cut p [c]) : p = [] :=
  (cut_cons cut).resolve_right fun ⟨_, _, later⟩ => not_cut_nil later

theorem Cut.blank {p cs : List Char} (cut : Cut p cs) (blank : AreBlank cs) : AreBlank p := by
  obtain ⟨lost, -, rfl⟩ := cut
  exact fun c member => blank c (List.mem_append_left _ member)

/-! ## Strings and words -/

theorem word_cut {p cs : List Char} (cut : Cut p cs) :
    word cs (p.map .char) = .error .cutShort := by
  induction cs generalizing p with
  | nil => exact absurd cut not_cut_nil
  | cons c more ih =>
      rcases cut_cons cut with rfl | ⟨q, rfl, later⟩
      · rfl
      · rw [List.map_cons, word, if_pos rfl]
        exact ih later

theorem quad_cut {p quad : List Char} {n : Nat} (digits : IsQuad quad n) (cut : Cut p quad) :
    hexQuad (p.map .char) = .error .cutShort := by
  obtain ⟨first, second, third, fourth⟩ := digits
  have firstSize := (hexValue_of_isHexDigit first).2
  have secondSize := (hexValue_of_isHexDigit second).2
  have thirdSize := (hexValue_of_isHexDigit third).2
  have short : hasBytes 4 (p.map .char) = false := by
    rcases cut_cons cut with rfl | ⟨_, rfl, three⟩
    · rfl
    rcases cut_cons three with rfl | ⟨_, rfl, two⟩
    · simp [hasBytes, Glyph.width, firstSize]
    rcases cut_cons two with rfl | ⟨_, rfl, one⟩
    · simp [hasBytes, Glyph.width, firstSize, secondSize]
    obtain rfl := cut_singleton one
    simp [hasBytes, Glyph.width, firstSize, secondSize, thirdSize]
  exact if_neg (by simp [short])

theorem string_nil : string [] = .error .cutShort := by
  rw [string.eq_def]

theorem string_backslash : string [.char '\\'] = .error .cutShort := by
  rw [string.eq_def]
  rfl

theorem writeChar_cut {p : List Char} {c : Char} (cut : Cut p (writeChar c)) :
    string (p.map .char) = .error .cutShort := by
  have letter {e : Char} (cut : Cut p ['\\', e]) : string (p.map .char) = .error .cutShort := by
    rcases cut_cons cut with rfl | ⟨_, rfl, later⟩
    · exact string_nil
    · obtain rfl := cut_singleton later
      exact string_backslash
  unfold writeChar at cut
  split at cut
  next => exact letter cut
  split at cut
  next => exact letter cut
  split at cut
  next control =>
    split at cut
    next => exact letter cut
    split at cut
    next => exact letter cut
    split at cut
    next => exact letter cut
    split at cut
    next => exact letter cut
    split at cut
    next => exact letter cut
    next =>
      rcases cut_cons cut with rfl | ⟨_, rfl, escape⟩
      · exact string_nil
      rcases cut_cons escape with rfl | ⟨q, rfl, code⟩
      · exact string_backslash
      have short : escapedCode (q.map .char) = .error .cutShort := by
        unfold escapedCode
        rw [quad_cut (isQuad_hexPair control) code]
        rfl
      exact string_code_error short
  next =>
    obtain rfl := cut_singleton cut
    exact string_nil

theorem string_cut {p cs : List Char} (cut : Cut p (cs.flatMap writeChar ++ ['"'])) :
    string (p.map .char) = .error .cutShort := by
  induction cs generalizing p with
  | nil =>
      obtain rfl := cut_singleton cut
      exact string_nil
  | cons c more ih =>
      rw [List.flatMap_cons, List.append_assoc] at cut
      rcases cut_append cut with inside | ⟨q, rfl, later⟩
      · exact writeChar_cut inside
      · rw [List.map_append, string_writeChar, ih later]
        rfl

/-! ## Numbers -/

section

variable {s : Numeral.Spelling} {p : List Char}

/-- The beginnings of numerals that are none, since a digit has to follow. -/
inductive Unfinished : List Char → Prop
  | sign {sign : Option Bool} (strict : sign ≠ some false) : Unfinished (Numeral.signText sign)
  | point {s : Numeral.Spelling} (strict : s.Strict) (whole : s.fraction = none)
      (plain : s.power = none) : Unfinished (s.text ++ ['.'])
  | letter {s : Numeral.Spelling} (strict : s.Strict) (plain : s.power = none) {letter : Char}
      (known : letter = 'e' ∨ letter = 'E') (sign : Option Bool) :
      Unfinished (s.text ++ letter :: Numeral.signText sign)

theorem numeral_unfinished (unfinished : Unfinished p) :
    numeral (p.map .char) = .error .cutShort := by
  cases unfinished with
  | @sign sign strict =>
      cases sign with
      | none => rfl
      | some negative =>
          cases negative with
          | true => rfl
          | false => exact absurd rfl strict
  | @point s strict whole plain =>
      have ends : ∀ c, [Glyph.char '.'].head? = some (.char c) → c.isDigit = false := by
        rintro c ⟨⟩
        rfl
      have begun := numeral_whole strict ends
      have text : (s.text ++ ['.']).map Glyph.char =
          (Numeral.signText s.sign ++ s.whole).map .char ++ [.char '.'] := by
        simp [Numeral.Spelling.text, whole, plain]
      rw [text, begun]
      rfl
  | @letter s strict plain letter known sign =>
      have ends : ∀ c, ((letter :: Numeral.signText sign).map Glyph.char).head? =
          some (.char c) → c.isDigit = false ∧ c ≠ '.' := by
        rintro c ⟨⟩
        rcases known with rfl | rfl <;> decide
      have begun := numeral_whole strict (fraction_no_digit s.fraction fun c head =>
        (ends c head).1)
      have text : (s.text ++ letter :: Numeral.signText sign).map Glyph.char =
          (Numeral.signText s.sign ++ s.whole).map .char ++ ((s.fraction.elim [] ('.' :: ·)).map
            .char ++ (letter :: Numeral.signText sign).map .char) := by
        simp [Numeral.Spelling.text, plain]
      have short : exponent ((letter :: Numeral.signText sign).map .char) = .error .cutShort := by
        rw [List.map_cons, exponent, if_pos known]
        cases sign with
        | none => rfl
        | some negative => cases negative <;> rfl
      rw [text, begun, fraction_append strict.fraction ends]
      dsimp only [bind, Except.bind]
      rw [short]

/-- What may be left of a numeral after a cut: one that is unfinished, or another numeral. -/
def IsLeft (s : Numeral.Spelling) (p : List Char) : Prop :=
  Unfinished p ∨ ∃ s' : Numeral.Spelling, s'.Strict ∧ s'.Begins s ∧ p = s'.text

theorem sign_cut {sign : Option Bool} (strict : sign ≠ some false)
    (cut : Cut p (Numeral.signText sign)) : Unfinished p := by
  cases sign with
  | none => exact absurd cut not_cut_nil
  | some negative =>
      cases negative with
      | true => exact cut_singleton cut ▸ @Unfinished.sign none (by decide)
      | false => exact absurd rfl strict

theorem whole_cut (strict : s.Strict) (cut : Cut p s.whole) :
    IsLeft s (Numeral.signText s.sign ++ p) := by
  have integer := strict.integer
  obtain ⟨sign, whole, fraction?, power?⟩ := s
  obtain ⟨unsigned, wholeSound, noExtraZero, noFraction, noPower⟩ := integer
  obtain ⟨more, lost, same⟩ := cut
  dsimp only at unsigned wholeSound noExtraZero noFraction noPower same
  subst same
  cases p with
  | nil => exact .inl (by simpa using Unfinished.sign unsigned)
  | cons d ds =>
      have digits := (List.forall_mem_append.mp wholeSound.2).1
      have short : (d :: ds).head? = some '0' → (d :: ds).length = 1 := by
        intro zero
        have one := noExtraZero zero
        have nonempty := List.length_pos_iff.mpr lost
        rw [List.length_append, List.length_cons] at one
        omega
      exact .inr ⟨⟨sign, d :: ds, none, none⟩,
        ⟨unsigned, ⟨List.cons_ne_nil _ _, digits⟩, short, noFraction, noPower⟩,
        .whole (List.prefix_append _ _), by simp [Numeral.Spelling.text]⟩

theorem fraction_cut (strict : s.Strict) (cut : Cut p (s.fraction.elim [] ('.' :: ·))) :
    IsLeft s (Numeral.signText s.sign ++ (s.whole ++ p)) := by
  have integer := strict.integer
  obtain ⟨sign, whole, fraction?, power?⟩ := s
  obtain ⟨unsigned, wholeSound, noExtraZero, fractionSound, -⟩ := strict
  dsimp only at integer unsigned wholeSound noExtraZero fractionSound cut ⊢
  cases fraction? with
  | none => exact absurd cut not_cut_nil
  | some ds =>
      rcases cut_cons cut with rfl | ⟨ds', rfl, more, lost, rfl⟩
      · exact .inr ⟨_, integer, .whole List.prefix_rfl, by simp [Numeral.Spelling.text]⟩
      cases ds' with
      | nil =>
          have unfinished := Unfinished.point integer rfl rfl
          exact .inl (by simpa [Numeral.Spelling.text] using unfinished)
      | cons d ds' =>
          have digits := (List.forall_mem_append.mp (fractionSound _ rfl).2).1
          have strict : Numeral.Spelling.Strict ⟨sign, whole, some (d :: ds'), none⟩ := by
            refine ⟨unsigned, wholeSound, noExtraZero, ?_, integer.power⟩
            rintro _ ⟨⟩
            exact ⟨List.cons_ne_nil _ _, digits⟩
          exact .inr ⟨_, strict, .fraction (List.prefix_append _ _),
            by simp [Numeral.Spelling.text]⟩

theorem power_cut (strict : s.Strict) (cut : Cut p (s.power.elim [] Numeral.Power.text)) :
    IsLeft s (s.mantissa.text ++ p) := by
  have mantissa := strict.mantissa
  obtain ⟨sign, whole, fraction?, power?⟩ := s
  obtain ⟨unsigned, wholeSound, noExtraZero, fractionSound, powerSound⟩ := strict
  cases power? with
  | none => exact absurd cut not_cut_nil
  | some power =>
      obtain ⟨letter, sign', digits⟩ := power
      obtain ⟨known, nonempty, areDigits⟩ := powerSound _ rfl
      rcases cut_cons cut with rfl | ⟨q, rfl, afterLetter⟩
      · have begins : Numeral.Spelling.Begins ⟨sign, whole, fraction?, none⟩
            ⟨sign, whole, fraction?, some ⟨letter, sign', digits⟩⟩ := by
          cases fraction? with
          | none => exact .whole List.prefix_rfl
          | some ds => exact .fraction List.prefix_rfl
        exact .inr ⟨_, mantissa, begins, List.append_nil _⟩
      rcases cut_append afterLetter with inside | ⟨ds, rfl, more, lost, rfl⟩
      · obtain rfl : q = [] := by
          cases sign' with
          | none => exact absurd inside not_cut_nil
          | some negative => cases negative <;> exact cut_singleton inside
        exact .inl (.letter mantissa rfl known none)
      cases ds with
      | nil =>
          rw [List.append_nil]
          exact .inl (.letter mantissa rfl known sign')
      | cons d ds =>
          have strict : Numeral.Spelling.Strict ⟨sign, whole, fraction?,
              some ⟨letter, sign', d :: ds⟩⟩ := by
            refine ⟨unsigned, wholeSound, noExtraZero, fractionSound, ?_⟩
            rintro _ ⟨⟩
            exact ⟨known, List.cons_ne_nil _ _, (List.forall_mem_append.mp areDigits).1⟩
          exact .inr ⟨_, strict, .power (List.prefix_append _ _),
            by simp [Numeral.Spelling.text, Numeral.Spelling.mantissa, Numeral.Power.text]⟩

theorem isLeft_of_cut (strict : s.Strict) (cut : Cut p s.text) : IsLeft s p := by
  rcases cut_append cut with inside | ⟨q, rfl, afterSign⟩
  · exact .inl (sign_cut strict.sign inside)
  rcases cut_append afterSign with inside | ⟨q', rfl, afterWhole⟩
  · exact whole_cut strict inside
  rcases cut_append afterWhole with inside | ⟨q'', rfl, afterFraction⟩
  · exact fraction_cut strict inside
  have mantissa : s.mantissa.text ++ q'' = Numeral.signText s.sign ++
      (s.whole ++ (s.fraction.elim [] ('.' :: ·) ++ q'')) := by
    simp [Numeral.Spelling.text, Numeral.Spelling.mantissa]
  rw [← mantissa]
  exact power_cut strict afterFraction

/-- A token that is cut is cut short, or a number stands at the end of the text. -/
def EndsInNumber (cs : List Char) : Prop :=
  token (cs.map .char) = .error .cutShort ∨
    ∃ n, (double? n).isSome = true ∧ token (cs.map .char) = .ok (.scalar (.number n), [])

theorem numeral_endsInNumber (strict : s.Strict)
    (fits : Decimal.ofDigits s.whole ≤ significandBound)
    (inRange : (double? s.numeral).isSome = true) (cut : Cut p s.text) : EndsInNumber p := by
  rcases isLeft_of_cut strict cut with unfinished | ⟨s', strict', begins, rfl⟩
  · left
    have read := numeral_unfinished unfinished
    obtain ⟨lost, -, same⟩ := cut
    obtain ⟨c, more, text, numeric⟩ := text_numeric strict
    cases p with
    | nil => rfl
    | cons d q =>
        obtain ⟨rfl, -⟩ := List.cons_eq_cons.mp (same.trans text)
        rw [List.map_cons] at read ⊢
        rw [token_number numeric, number, read]
        rfl
  · right
    have stays := isSome_double_of_begins fits inRange begins
    have read := token_numeral strict' ends_nil
    rw [List.append_nil, if_pos stays] at read
    exact ⟨_, stays, read⟩

end

theorem text_endsInNumber {p cs : List Char} (cut : Cut p (writeString cs)) : EndsInNumber p := by
  left
  rcases cut_cons cut with rfl | ⟨q, rfl, inside⟩
  · rfl
  · rw [List.map_cons, token_quote, string_cut inside]
    rfl

theorem flag_endsInNumber {p : List Char} {b : Bool} (cut : Cut p (writeFlag b)) :
    EndsInNumber p := by
  left
  cases b with
  | true =>
      rcases cut_cons cut with rfl | ⟨q, rfl, inside⟩
      · rfl
      · rw [List.map_cons, token_true, word_cut inside]
        rfl
  | false =>
      rcases cut_cons cut with rfl | ⟨q, rfl, inside⟩
      · rfl
      · rw [List.map_cons, token_false, word_cut inside]
        rfl

/-! ## Objects -/

section

variable {σ α : Type} {member : σ → String → Input → Except Flaw (σ × Input)} {s : Spacing}
  {text : α → List Char} {step : σ → String × α → Except Flaw σ} {p : List Char}

/-- The reader of a member comes to the end of the text if the member is cut, with a flaw or not. -/
def StopsAtEnd (member : σ → String → Input → Except Flaw (σ × Input)) (s : Spacing)
    (text : α → List Char) (entry : String × α) : Prop :=
  ∀ state p, Cut p (':' :: (s.afterColon ++ text entry.2)) →
    member state entry.1 (p.map .char) = .error .cutShort ∨
      ∃ state', member state entry.1 (p.map .char) = .ok (state', [])

theorem members_nil (state : σ) (spot : Spot) :
    members member state spot [] = .error .cutShort := by
  rw [members.eq_def]
  rfl

theorem members_blank {cs : List Char} (blank : AreBlank cs) (state : σ) (spot : Spot) :
    members member state spot (cs.map .char) = .error .cutShort := by
  rw [members.eq_def, skipSpace_blank blank]

theorem members_member_cut {entry : String × α} (blank : s.Blank)
    (stops : StopsAtEnd member s text entry) (state : σ) {spot : Spot} (awaits : spot ≠ .done)
    (cut : Cut p (writeMember s entry.1 (text entry.2))) :
    members member state spot (p.map .char) = .error .cutShort := by
  obtain ⟨key, value⟩ := entry
  rw [writeMember, List.append_assoc] at cut
  rcases cut_append cut with inside | ⟨q, rfl, item⟩
  · exact members_blank (inside.blank blank.beforeMember) state spot
  have quoted (r : List Char) : (s.beforeMember ++ '"' :: r).map Glyph.char =
      s.beforeMember.map .char ++ .char '"' :: r.map .char := by
    simp
  rcases cut_append item with name | ⟨r, rfl, rest⟩
  · rcases cut_cons name with rfl | ⟨r, rfl, inside⟩
    · rw [List.append_nil]
      exact members_blank blank.beforeMember state spot
    · rw [quoted, members_quote blank.beforeMember state awaits, string_cut inside]
      rfl
  · have written : writeString key.toList ++ r =
        '"' :: (key.toList.flatMap writeChar ++ ['"'] ++ r) := rfl
    rw [written, quoted, members_quote blank.beforeMember state awaits, List.map_append,
      string_write]
    dsimp only [bind, Except.bind]
    rw [String.ofList_toList]
    rcases stops state r rest with short | ⟨next, read⟩
    · rw [short]
    · rw [read]
      dsimp only
      rw [if_pos (by simp)]
      exact members_nil next .done

/-- The members of an object that was written, cut before the closing brace or in front of it. -/
theorem members_cut (blank : s.Blank) {l : List (String × α)} (nonempty : l ≠ [])
    (reads : ∀ entry ∈ l, Reads member s text step entry)
    (stops : ∀ entry ∈ l, StopsAtEnd member s text entry)
    (goes : ∀ entry ∈ l, ∀ state, ∃ next, step state entry = .ok next) (state : σ) {spot : Spot}
    (awaits : spot ≠ .done)
    (cut : Cut p (writeMembers s (l.map fun e => (e.1, text e.2)) ++ (s.beforeEnd ++ ['}']))) :
    members member state spot (p.map .char) = .error .cutShort := by
  induction l generalizing state spot p with
  | nil => exact absurd rfl nonempty
  | cons entry more ih =>
      obtain ⟨next, stepped⟩ := goes entry List.mem_cons_self state
      cases more with
      | nil =>
          rcases cut_append cut with inside | ⟨q, rfl, ending⟩
          · exact members_member_cut blank (stops entry List.mem_cons_self) state awaits inside
          have spaced : AreBlank q := by
            rcases cut_append ending with space | ⟨r, rfl, brace⟩
            · exact space.blank blank.beforeEnd
            · obtain rfl := cut_singleton brace
              rw [List.append_nil]
              exact blank.beforeEnd
          have read := members_member blank (reads entry List.mem_cons_self) state awaits
            (ends_blank spaced)
          rw [stepped] at read
          rw [List.map_append]
          exact read.trans (members_blank spaced next .done)
      | cons other more =>
          have written : writeMembers s ((entry :: other :: more).map fun e => (e.1, text e.2)) =
              writeMember s entry.1 (text entry.2) ++
                ',' :: writeMembers s ((other :: more).map fun e => (e.1, text e.2)) := rfl
          rw [written, List.append_assoc] at cut
          rcases cut_append cut with inside | ⟨q, rfl, later⟩
          · exact members_member_cut blank (stops entry List.mem_cons_self) state awaits inside
          have read {rest : Input} (ends : Ends rest) :=
            members_member blank (reads entry List.mem_cons_self) state awaits ends
          rw [stepped] at read
          rw [List.map_append]
          rcases cut_cons later with rfl | ⟨r, rfl, others⟩
          · exact (read ends_nil).trans (members_nil next .done)
          · refine (read (ends_comma _)).trans ((members_comma next _).trans ?_)
            exact ih (List.cons_ne_nil _ _)
              (fun entry member => reads entry (List.mem_cons_of_mem _ member))
              (fun entry member => stops entry (List.mem_cons_of_mem _ member))
              (fun entry member => goes entry (List.mem_cons_of_mem _ member)) next
              (by decide) others

/-- An object that was written is cut short wherever it is cut. -/
theorem object_cut (blank : s.Blank) {l : List (String × α)}
    (reads : ∀ entry ∈ l, Reads member s text step entry)
    (stops : ∀ entry ∈ l, StopsAtEnd member s text entry)
    (goes : ∀ entry ∈ l, ∀ state, ∃ next, step state entry = .ok next) (state : σ)
    (cut : Cut p (writeObject s (l.map fun e => (e.1, text e.2)))) :
    object member state (p.map .char) = .error .cutShort := by
  have opened {q : List Char}
      (inside : members member state .opened (q.map .char) = .error .cutShort) :
      object member state (('{' :: q).map .char) = .error .cutShort := by
    rw [object, List.map_cons, token_brace]
    dsimp only [bind, Except.bind]
    rw [inside]
    rfl
  cases l with
  | nil =>
      rcases cut_cons cut with rfl | ⟨q, rfl, brace⟩
      · rfl
      · obtain rfl := cut_singleton brace
        exact opened (members_nil state .opened)
  | cons entry more =>
      rcases cut_cons cut with rfl | ⟨q, rfl, inside⟩
      · rfl
      · rw [List.append_assoc] at inside
        exact opened (members_cut blank (List.cons_ne_nil _ _) reads stops goes state (by decide)
          inside)

end

end EngineConsole.Json
