import EngineConsole.Proofs.Json.Tokens
import EngineConsole.Toml.Reader
import EngineConsole.Toml.Writer

/-!
# Words of a TOML document

A string or a count that was written is read as what it was, up to the end of its line, and so is a
key without quotes.
-/

set_option autoImplicit false

namespace EngineConsole.Toml

/-! ## Strings -/

/-- A text that both kinds of quotes can hold: it has no control character but tabs, and no single
quote. -/
def Clean (cs : List Char) : Prop :=
  ∀ c ∈ cs, isPlain c = true ∧ c ≠ '\''

instance (cs : List Char) : Decidable (Clean cs) :=
  decidable_of_iff (cs.all (fun c => isPlain c && c != '\'') = true) (by simp [Clean])

theorem Clean.tail {c : Char} {cs : List Char} (clean : Clean (c :: cs)) : Clean cs :=
  fun d member => clean d (List.mem_cons_of_mem _ member)

theorem plain_cases {c : Char} (plain : isPlain c = true) :
    c = '\t' ∨ (0x20 ≤ c.toNat ∧ c.toNat ≠ 0x7F) := by
  simpa [isPlain] using plain

theorem ne_break_of_plain {c : Char} (plain : isPlain c = true) : c ≠ '\n' := by
  rintro rfl
  exact absurd plain (by decide)

theorem isControl_of_plain {c : Char} (plain : isPlain c = true) : isControl c = false := by
  rcases plain_cases plain with rfl | ⟨above, other⟩
  · decide
  · have low : ¬ c.toNat < 0x20 := Nat.not_lt.mpr above
    simp [isControl, low, other]

theorem escaped_of_plain {c : Char} (plain : isPlain c = true) (text : c ≠ '\\') :
    escaped? c = if c = '\t' then some ['\\', 't'] else none := by
  have low (d : Char) (control : isPlain d = false) : c ≠ d := by
    rintro rfl
    exact absurd plain (by simp [control])
  simp [escaped?, low '\x08' (by decide), low '\x0c' (by decide), low '\r' (by decide), text,
    isControl_of_plain plain]

theorem basic_plain {c : Char} (plain : isPlain c = true) (text : c ≠ '"') (text' : c ≠ '\\')
    (rest : List Char) :
    basic (c :: rest) = (basic rest).map fun r => (c :: r.1, r.2) := by
  rw [basic.eq_def]
  dsimp only
  rw [if_neg text, if_neg text', if_pos plain]
  cases basic rest <;> rfl

theorem basic_tab (rest : List Char) :
    basic ('\\' :: 't' :: rest) = (basic rest).map fun r => ('\t' :: r.1, r.2) := by
  rw [basic.eq_def]
  dsimp only
  rw [if_neg (by decide), if_pos rfl]
  change ((basic rest).bind fun r => some ('\t' :: r.1, r.2)) = _
  cases basic rest <;> rfl

theorem basic_escapeLine {cs : List Char} (clean : Clean cs) (quote : '"' ∉ cs)
    (backslash : '\\' ∉ cs) (rest : List Char) :
    basic (escapeLine cs ++ '"' :: rest) = some (cs, rest) := by
  induction cs with
  | nil =>
      rw [escapeLine, List.nil_append, basic.eq_def]
      rfl
  | cons c more ih =>
      obtain ⟨plain, -⟩ := clean c List.mem_cons_self
      have text : c ≠ '"' := fun same => quote (same ▸ List.mem_cons_self)
      have text' : c ≠ '\\' := fun same => backslash (same ▸ List.mem_cons_self)
      have later := ih clean.tail (fun member => quote (List.mem_cons_of_mem _ member))
        fun member => backslash (List.mem_cons_of_mem _ member)
      rw [escapeLine, if_neg text, if_neg (ne_break_of_plain plain), escaped_of_plain plain text']
      by_cases tab : c = '\t'
      · subst tab
        refine (basic_tab _).trans ?_
        exact congrArg (Option.map fun r => ('\t' :: r.1, r.2)) later
      · rw [if_neg tab]
        refine (basic_plain plain text text' _).trans ?_
        exact congrArg (Option.map fun r => (c :: r.1, r.2)) later

theorem literal_append {cs : List Char} (clean : Clean cs) (rest : List Char) :
    literal (cs ++ '\'' :: rest) = some (cs, rest) := by
  induction cs with
  | nil => rfl
  | cons c more ih =>
      obtain ⟨plain, text⟩ := clean c List.mem_cons_self
      rw [List.cons_append, literal, if_neg text, if_pos plain, ih clean.tail]
      rfl

theorem longestRun_eq_zero {mark : Char} {cs : List Char} :
    longestRun mark 0 cs = 0 ↔ mark ∉ cs := by
  have atLeast (run : Nat) (cs : List Char) : run ≤ longestRun mark run cs := by
    induction cs generalizing run with
    | nil => exact Nat.le_refl _
    | cons c rest ih =>
        rw [longestRun]
        split
        · exact (Nat.le_succ _).trans (ih _)
        · exact Nat.le_max_left _ _
  induction cs with
  | nil => simp [longestRun]
  | cons c rest ih =>
      rw [longestRun]
      split
      next same =>
        have positive : 0 < longestRun mark (0 + 1) rest := atLeast 1 rest
        simp [same, positive.ne']
      next other =>
        simp [ih, Ne.symm other]

/-- A clean text is written between double quotes, or between single ones if it has a double quote
or a backslash itself. -/
theorem writeString_clean {cs : List Char} (clean : Clean cs) :
    writeString cs =
      if '"' ∈ cs ∨ '\\' ∈ cs then writeLiteral cs else writeBasic cs := by
  have control : cs.any isControl = false :=
    List.any_eq_false.mpr fun c member => by simp [isControl_of_plain (clean c member).1]
  have noBreak : '\n' ∉ cs := fun member => ne_break_of_plain (clean _ member).1 rfl
  have singles : longestRun '\'' 0 cs = 0 :=
    longestRun_eq_zero.mpr fun member => (clean _ member).2 rfl
  have doubles : longestRun '"' 0 cs = 0 ↔ '"' ∉ cs := longestRun_eq_zero
  by_cases quote : '"' ∈ cs <;> by_cases backslash : '\\' ∈ cs <;>
    simp [writeString, control, noBreak, singles, doubles, quote, backslash]

theorem string_double {cs : List Char} (single : ∀ rest, cs ≠ '"' :: '"' :: rest) :
    string ('"' :: cs) = basic cs := by
  unfold string
  split
  next same => exact absurd (List.cons.inj same).2 (single _)
  next same => cases (List.cons.inj same).1
  next same => rw [(List.cons.inj same).2]
  next same => cases (List.cons.inj same).1
  next other _ => exact absurd rfl (other cs)

theorem string_single {cs : List Char} (single : ∀ rest, cs ≠ '\'' :: '\'' :: rest) :
    string ('\'' :: cs) = literal cs := by
  unfold string
  split
  next same => cases (List.cons.inj same).1
  next same => exact absurd (List.cons.inj same).2 (single _)
  next same => cases (List.cons.inj same).1
  next same => rw [(List.cons.inj same).2]
  next other => exact absurd rfl (other cs)

theorem string_writeString {cs : List Char} (clean : Clean cs) {rest : List Char}
    (ends : rest.head? ≠ some '"') : string (writeString cs ++ rest) = some (cs, rest) := by
  rw [writeString_clean clean]
  split
  next marked =>
    rw [writeLiteral, List.cons_append, List.append_assoc, List.singleton_append, string_single]
    · exact literal_append clean rest
    · intro more same
      cases cs with
      | nil => simp at marked
      | cons c _ => exact (clean c List.mem_cons_self).2 (List.cons.inj same).1
  next unmarked =>
    obtain ⟨quote, backslash⟩ := not_or.mp unmarked
    rw [writeBasic, List.cons_append, List.append_assoc, List.singleton_append, string_double]
    · exact basic_escapeLine clean quote backslash rest
    · intro more same
      cases cs with
      | nil =>
          obtain ⟨-, same⟩ := List.cons.inj same
          exact ends (by rw [same]; rfl)
      | cons c _ =>
          obtain ⟨plain, -⟩ := clean c List.mem_cons_self
          have text : c ≠ '"' := fun same => quote (same ▸ List.mem_cons_self)
          have text' : c ≠ '\\' := fun same => backslash (same ▸ List.mem_cons_self)
          rw [escapeLine, if_neg text, if_neg (ne_break_of_plain plain),
            escaped_of_plain plain text'] at same
          split at same
          · cases (List.cons.inj same).1
          · exact text (List.cons.inj same).1

/-! ## Values -/

/-- Whichever quote a string begins with, it is read as a string. -/
theorem value_writeString {cs : List Char} (clean : Clean cs) (rest : List Char) :
    value depthLimit (writeString cs ++ '\n' :: rest) =
      some (.text (String.ofList cs), '\n' :: rest) := by
  have ends : ('\n' :: rest).head? ≠ some '"' := by simp
  have read := string_writeString clean ends
  obtain ⟨more, same⟩ : ∃ more, writeString cs = '"' :: more ∨ writeString cs = '\'' :: more := by
    rw [writeString_clean clean]
    split
    · exact ⟨_, .inr rfl⟩
    · exact ⟨_, .inl rfl⟩
  rcases same with same | same
  · rw [same, List.cons_append] at read ⊢
    rw [value, read]
    rfl
  · rw [same, List.cons_append] at read ⊢
    rw [value, read]
    rfl

theorem value_word {c : Char} (other : c ≠ '"' ∧ c ≠ '\'' ∧ c ≠ '[' ∧ c ≠ '\x7b') (depth : Nat)
    (rest : List Char) : value depth (c :: rest) = wordValue (c :: rest) := by
  obtain ⟨double, single, bracket, brace⟩ := other
  unfold value
  split
  next same => exact absurd (List.cons.inj same).1 double
  next same => exact absurd (List.cons.inj same).1 single
  next same => exact absurd (List.cons.inj same).1 bracket
  next same => exact absurd (List.cons.inj same).1 brace
  next => rfl

section

open Decimal (AreDigits digits areDigits_digits digits_ne_nil ofDigits_digits head_digits)

theorem ne_of_isDigit {c d : Char} (digit : c.isDigit = true) (other : d.isDigit = false) :
    c ≠ d := by
  rintro rfl
  exact absurd digit (by simp [other])

theorem isWordChar_of_isDigit {c : Char} (digit : c.isDigit = true) : isWordChar c = true := by
  simp [isWordChar, isBare, Char.isAlphanum, digit]

theorem ungroup_digits {ds : List Char} (nonempty : ds ≠ []) (areDigits : AreDigits ds) :
    ungroup Char.isDigit ds = some ds := by
  induction ds with
  | nil => exact absurd rfl nonempty
  | cons c more ih =>
      have digit := areDigits c List.mem_cons_self
      cases more with
      | nil => simp [ungroup, digit]
      | cons d more =>
          have later : AreDigits (d :: more) :=
            fun c member => areDigits c (List.mem_cons_of_mem _ member)
          have grouped : d ≠ '_' := ne_of_isDigit (later d List.mem_cons_self) (by decide)
          simp [ungroup, digit, grouped, ih (List.cons_ne_nil _ _) later]

theorem inBase_digits {ds : List Char} (nonempty : ds ≠ []) (areDigits : AreDigits ds) :
    inBase 10 Char.isDigit ds = some (Decimal.ofDigits ds) := by
  have sum (n : Nat) : ds.foldlM (fun n c => (Json.hexValue? c).map (n * 10 + ·)) n =
      some (ds.foldl (fun n c => 10 * n + Decimal.digitValue c) n) := by
    clear nonempty
    induction ds generalizing n with
    | nil => rfl
    | cons c more ih =>
        have value : Json.hexValue? c = some (Decimal.digitValue c) :=
          if_pos (areDigits c List.mem_cons_self)
        rw [List.foldlM_cons, value, List.foldl_cons, Nat.mul_comm]
        exact ih (fun c member => areDigits c (List.mem_cons_of_mem _ member)) _
  unfold inBase
  rw [ungroup_digits nonempty areDigits]
  exact sum 0

theorem takeSign_digits {ds : List Char} (areDigits : AreDigits ds) :
    takeSign ds = (false, ds) := by
  unfold takeSign
  split
  next => exact absurd (areDigits '-' List.mem_cons_self) (by decide)
  next => exact absurd (areDigits '+' List.mem_cons_self) (by decide)
  next => rfl

theorem integer_digits (n : Nat) : integer? (digits n) = some (Int.ofNat n) := by
  by_cases zero : n = 0
  · subst zero
    rfl
  have head := head_digits zero
  have areDigits := areDigits_digits n
  have number := inBase_digits (digits_ne_nil n) areDigits
  rw [ofDigits_digits] at number
  generalize digits n = ds at head areDigits number
  unfold integer?
  split
  next => exact absurd rfl head
  next => exact absurd rfl head
  next => exact absurd rfl head
  next =>
    have first : ¬(ds.head? = some '0' ∧ ds.length ≠ 1) := fun both => head both.1
    simp [takeSign_digits areDigits, decimal, first, number]

theorem value_digits {n : Nat} (small : n < 2 ^ 128) (rest : List Char) :
    value depthLimit (digits n ++ '\n' :: rest) = some (.integer n, '\n' :: rest) := by
  have integer := integer_digits n
  have nonempty := digits_ne_nil n
  have areDigits := areDigits_digits n
  generalize digits n = ds at integer nonempty areDigits
  have word : (ds ++ '\n' :: rest).takeWhile isWordChar = ds := by
    rw [List.takeWhile_append_of_pos fun c member => isWordChar_of_isDigit (areDigits c member)]
    simp [isWordChar, isBare]
  have after : (ds ++ '\n' :: rest).dropWhile isWordChar = '\n' :: rest := by
    rw [List.dropWhile_append_of_pos fun c member => isWordChar_of_isDigit (areDigits c member)]
    simp [isWordChar, isBare]
  have named {name : List Char} (letter : ∃ c ∈ name, c.isDigit = false) : ds ≠ name := by
    rintro rfl
    obtain ⟨c, member, other⟩ := letter
    exact absurd (areDigits c member) (by simp [other])
  have fits : integerFits (Int.ofNat n) = true := by
    simp only [integerFits, Bool.and_eq_true, decide_eq_true_eq, Int.ofNat_eq_natCast]
    omega
  have read : wordValue (ds ++ '\n' :: rest) = some (.integer n, '\n' :: rest) := by
    unfold wordValue
    rw [word, after, if_neg (named ⟨'t', by decide, by decide⟩),
      if_neg (named ⟨'f', by decide, by decide⟩), integer]
    dsimp only
    rw [if_pos fits]
    rfl
  cases ds with
  | nil => exact absurd rfl nonempty
  | cons c more =>
      have digit := areDigits c List.mem_cons_self
      have first : c ≠ '"' ∧ c ≠ '\'' ∧ c ≠ '[' ∧ c ≠ '\x7b' :=
        ⟨ne_of_isDigit digit (by decide), ne_of_isDigit digit (by decide),
          ne_of_isDigit digit (by decide), ne_of_isDigit digit (by decide)⟩
      exact (value_word first _ _).trans read

end

/-! ## Keys -/

/-- A key that needs no quotes. -/
def Bare (name : String) : Prop :=
  name ≠ "" ∧ ∀ c ∈ name.toList, isBare c = true

instance (name : String) : Decidable (Bare name) :=
  decidable_of_iff (name ≠ "" ∧ name.toList.all isBare = true) (by simp [Bare])

theorem Bare.head {name : String} (bare : Bare name) :
    ∃ c more, name.toList = c :: more ∧ isBare c = true := by
  obtain ⟨nonempty, all⟩ := bare
  cases chars : name.toList with
  | nil => exact absurd (String.toList_eq_nil_iff.mp chars) nonempty
  | cons c more =>
      rw [chars] at all
      exact ⟨c, more, rfl, all c List.mem_cons_self⟩

theorem ne_of_isBare {c d : Char} (bare : isBare c = true) (other : isBare d = false) : c ≠ d := by
  rintro rfl
  exact absurd bare (by simp [other])

theorem keyPart_bare {name : String} (bare : Bare name) {rest : List Char}
    (ends : ∀ c ∈ rest.head?, isBare c = false) :
    keyPart (name.toList ++ rest) = some (name, rest) := by
  have word : (name.toList ++ rest).takeWhile isBare = name.toList := by
    rw [List.takeWhile_append_of_pos bare.2]
    cases rest with
    | nil => simp
    | cons c more => simp [ends c rfl]
  have after : (name.toList ++ rest).dropWhile isBare = rest := by
    rw [List.dropWhile_append_of_pos bare.2]
    cases rest with
    | nil => rfl
    | cons c more => simp [ends c rfl]
  obtain ⟨c, more, chars, first⟩ := bare.head
  unfold keyPart
  split
  next same =>
    rw [chars] at same
    exact absurd (List.cons.inj same).1 (ne_of_isBare first (by decide))
  next same =>
    rw [chars] at same
    exact absurd (List.cons.inj same).1 (ne_of_isBare first (by decide))
  next =>
    dsimp only
    have nonempty : name.toList.isEmpty = false := by
      rw [chars]
      rfl
    rw [word, after, nonempty, String.ofList_toList]
    rfl

/-- A key is read up to what follows it and the blanks in between, if that is no point. -/
theorem key_bare {name : String} (bare : Bare name) {rest : List Char}
    (ends : ∀ c ∈ rest.head?, isBare c = false) (last : (skipSpace rest).head? ≠ some '.') :
    key (name.toList ++ rest) = some (([], name), skipSpace rest) := by
  obtain ⟨c, more, chars, first⟩ := bare.head
  have start : skipSpace (name.toList ++ rest) = name.toList ++ rest := by
    rw [chars, List.cons_append, skipSpace, List.dropWhile_cons_of_neg]
    simp [isSpace, ne_of_isBare first (d := ' ') (by decide),
      ne_of_isBare first (d := '\t') (by decide)]
  unfold key depthLimit keyParts
  rw [start, keyPart_bare bare ends]
  dsimp only [bind, Option.bind]
  split
  next same => exact absurd (by rw [same]; rfl) last
  next => rfl

end EngineConsole.Toml
