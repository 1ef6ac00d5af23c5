import EngineConsole.Proofs.Toml.Tokens

/-!
# Lines of a TOML document

A document of plain lines is read line by line: blank lines and comments are passed over, a header
opens its table, and an entry goes to the table that was opened last.
-/

set_option autoImplicit false

namespace EngineConsole.Toml

/-! ## Lines -/

inductive Line where
  | blank
  | comment (text : List Char)
  | header (name : String)
  | entry (key : String) (item : Item) (written : List Char)

/-- Whether a text is read as an item, where it ends with its line. -/
def Reads (written : List Char) (item : Item) : Prop :=
  ∀ rest, value depthLimit (skipSpace (written ++ '\n' :: rest)) = some (item, '\n' :: rest)

namespace Line

def chars : Line → List Char
  | .blank => ['\n']
  | .comment text => '#' :: (text ++ ['\n'])
  | .header name => '[' :: (name.toList ++ [']', '\n'])
  | .entry key _ written => key.toList ++ ' ' :: '=' :: ' ' :: (written ++ ['\n'])

theorem length_chars_pos (l : Line) : 0 < l.chars.length := by
  cases l <;> simp [chars]

def Sound : Line → Prop
  | .blank => True
  | .comment text => ∀ c ∈ text, isPlain c = true
  | .header name => Bare name
  | .entry key item written => Bare key ∧ Reads written item

/-- What a line makes of what has been read of a document. -/
def apply (d : Draft) : Line → Option Draft
  | .blank => some d
  | .comment _ => some d
  | .header name => (openTable [] name d.root).map fun root => ⟨root, [name]⟩
  | .entry key item _ => d.add [] key item

end Line

theorem skipSpace_of_head {c : Char} (other : isSpace c = false) (rest : List Char) :
    skipSpace (c :: rest) = c :: rest := by
  rw [skipSpace, List.dropWhile_cons_of_neg]
  simp [other]

theorem isSpace_of_isBare {c : Char} (bare : isBare c = true) : isSpace c = false := by
  have blank : c ≠ ' ' := ne_of_isBare bare (by decide)
  have tab : c ≠ '\t' := ne_of_isBare bare (by decide)
  simp [isSpace, blank, tab]

theorem reads_writeString {cs : List Char} (clean : Clean cs) :
    Reads (writeString cs) (.text (String.ofList cs)) := by
  intro rest
  have read := value_writeString clean rest
  have unspaced : skipSpace (writeString cs ++ '\n' :: rest) = writeString cs ++ '\n' :: rest := by
    rw [writeString_clean clean]
    split
    · exact skipSpace_of_head (by decide) _
    · exact skipSpace_of_head (by decide) _
  rw [unspaced, read]

theorem reads_digits {n : Nat} (small : n < 2 ^ 128) : Reads (Decimal.digits n) (.integer n) := by
  intro rest
  have read := value_digits small rest
  have areDigits := Decimal.areDigits_digits n
  cases chars : Decimal.digits n with
  | nil => exact absurd chars (Decimal.digits_ne_nil n)
  | cons c more =>
      rw [chars] at read areDigits
      have digit := areDigits c List.mem_cons_self
      have unspaced : isSpace c = false := by
        simp [isSpace, ne_of_isDigit digit (d := ' ') (by decide),
          ne_of_isDigit digit (d := '\t') (by decide)]
      rw [List.cons_append, skipSpace_of_head unspaced, ← List.cons_append, read]

/-! ## Passing over lines -/

theorem length_skipSpace_le (cs : List Char) : (skipSpace cs).length ≤ cs.length :=
  (List.dropWhile_suffix _).length_le

theorem length_lineBreak_le {cs after : List Char} (broken : lineBreak cs = some after) :
    after.length ≤ cs.length := by
  unfold lineBreak at broken
  split at broken
  · cases broken
    exact Nat.le_refl _
  · cases broken
    exact Nat.le_succ _
  · cases broken
    exact Nat.le_add_right _ 2
  · cases broken

theorem skipLines_succ {cs : List Char} {n : Nat} (enough : cs.length ≤ n) :
    skipLines (n + 1) cs = skipLines n cs := by
  induction n generalizing cs with
  | zero =>
      obtain rfl := List.length_eq_zero_iff.mp (Nat.le_zero.mp enough)
      rfl
  | succ n ih =>
      have shorter := length_skipSpace_le cs
      rw [skipLines, skipLines]
      generalize skipSpace cs = left at shorter
      split
      next rest =>
        apply ih
        simp only [List.length_cons] at shorter
        omega
      next rest =>
        apply ih
        simp only [List.length_cons] at shorter
        omega
      next rest =>
        cases broken : lineBreak (rest.dropWhile isPlain) with
        | none => rfl
        | some after =>
            have first := length_lineBreak_le broken
            have second := (List.dropWhile_suffix isPlain (l := rest)).length_le
            apply ih
            simp only [List.length_cons] at shorter
            omega
      next => rfl

/-- As many lines as a text has characters are enough to pass over. -/
theorem skipLines_of_le {cs : List Char} {n : Nat} (enough : cs.length ≤ n) :
    skipLines n cs = skipLines cs.length cs := by
  induction n, enough using Nat.le_induction with
  | base => rfl
  | succ n enough ih => rw [skipLines_succ enough, ih]

theorem skipLines_blank (rest : List Char) :
    skipLines ('\n' :: rest).length ('\n' :: rest) = skipLines rest.length rest := by
  rw [List.length_cons, skipLines]
  rfl

theorem skipLines_comment {text : List Char} (plain : ∀ c ∈ text, isPlain c = true)
    (rest : List Char) :
    skipLines ('#' :: (text ++ '\n' :: rest)).length ('#' :: (text ++ '\n' :: rest)) =
      skipLines rest.length rest := by
  have ended : (text ++ '\n' :: rest).dropWhile isPlain = '\n' :: rest := by
    rw [List.dropWhile_append_of_pos plain]
    rfl
  rw [List.length_cons, skipLines, skipSpace_of_head (by decide)]
  split
  next same => cases (List.cons.inj same).1
  next same => cases (List.cons.inj same).1
  next same =>
    obtain rfl := (List.cons.inj same).2
    rw [ended, lineBreak]
    apply skipLines_of_le
    simp only [List.length_append, List.length_cons]
    omega
  next other => exact absurd rfl (other _)

/-- A line with something in it is where passing over stops. -/
theorem skipLines_stop {c : Char} (loud : isBare c = true ∨ c = '[') (n : Nat) (rest : List Char) :
    skipLines n (c :: rest) = some (c :: rest) := by
  have other : isSpace c = false ∧ c ≠ '\n' ∧ c ≠ '\r' ∧ c ≠ '#' := by
    rcases loud with bare | rfl
    · exact ⟨isSpace_of_isBare bare, ne_of_isBare bare (by decide), ne_of_isBare bare (by decide),
        ne_of_isBare bare (by decide)⟩
    · decide
  obtain ⟨space, lf, cr, mark⟩ := other
  cases n with
  | zero => rw [skipLines, skipSpace_of_head space]
  | succ n =>
      rw [skipLines, skipSpace_of_head space]
      split
      next same => exact absurd (List.cons.inj same).1 lf
      next same => exact absurd (List.cons.inj same).1 cr
      next same => exact absurd (List.cons.inj same).1 mark
      next => rfl

/-! ## Reading lines -/

theorem line_header {name : String} (bare : Bare name) (d : Draft) (rest : List Char) :
    line d ((Line.header name).chars ++ rest) =
      ((Line.header name).apply d).map fun d => (d, rest) := by
  have read : key (name.toList ++ ']' :: '\n' :: rest) =
      some (([], name), ']' :: '\n' :: rest) := by
    refine (key_bare bare ?_ ?_).trans ?_
    · simp [isBare]
    · rw [skipSpace_of_head (by decide)]
      simp
    · rw [skipSpace_of_head (by decide)]
  have whole : (Line.header name).chars ++ rest = '[' :: (name.toList ++ ']' :: '\n' :: rest) := by
    simp [Line.chars]
  obtain ⟨c, more, chars, first⟩ := bare.head
  rw [whole]
  unfold line
  split
  next same =>
    rw [chars] at same
    obtain ⟨-, same⟩ := List.cons.inj same
    exact absurd (List.cons.inj same).1 (ne_of_isBare first (by decide))
  next same =>
    obtain ⟨-, rfl⟩ := List.cons.inj same
    rw [read]
    dsimp only [bind, Option.bind, Line.apply]
    cases openTable [] name d.root <;> rfl
  next other => exact absurd rfl (other _)

theorem line_entry {name : String} {item : Item} {written : List Char} (bare : Bare name)
    (reads : Reads written item) (d : Draft) (rest : List Char) :
    line d ((Line.entry name item written).chars ++ rest) =
      ((Line.entry name item written).apply d).map fun d => (d, rest) := by
  have read : key (name.toList ++ ' ' :: '=' :: ' ' :: (written ++ '\n' :: rest)) =
      some (([], name), '=' :: ' ' :: (written ++ '\n' :: rest)) := by
    have blank (cs : List Char) : skipSpace (' ' :: '=' :: cs) = '=' :: cs := rfl
    refine (key_bare bare ?_ ?_).trans ?_
    · simp [isBare]
    · rw [blank]
      simp
    · rw [blank]
  have given : value depthLimit (skipSpace (' ' :: (written ++ '\n' :: rest))) =
      some (item, '\n' :: rest) := reads rest
  have whole : (Line.entry name item written).chars ++ rest =
      name.toList ++ ' ' :: '=' :: ' ' :: (written ++ '\n' :: rest) := by
    simp [Line.chars]
  obtain ⟨c, more, chars, first⟩ := bare.head
  have other : c ≠ '[' := ne_of_isBare first (by decide)
  rw [whole]
  unfold line
  split
  next same =>
    rw [chars] at same
    exact absurd (List.cons.inj same).1 other
  next same =>
    rw [chars] at same
    exact absurd (List.cons.inj same).1 other
  next =>
    rw [read]
    change (value depthLimit (skipSpace (' ' :: (written ++ '\n' :: rest)))).bind _ = _
    rw [given]
    dsimp only [bind, Option.bind, Line.apply]
    cases d.add [] name item <;> rfl

/-- One line is read and the others are left. Passing over a line takes no turn of its own. -/
theorem lines_line {l : Line} (sound : l.Sound) (n : Nat) (d : Draft) (cs : List Char) :
    ∃ n', n ≤ n' ∧
      lines (n + 1) d (l.chars ++ cs) = (l.apply d).bind fun d' => lines n' d' cs := by
  have quiet (same : skipLines (l.chars ++ cs).length (l.chars ++ cs) = skipLines cs.length cs) :
      lines (n + 1) d (l.chars ++ cs) = lines (n + 1) d cs := by
    rw [lines, lines, same]
  have loud {c : Char} {more : List Char} (begins : l.chars ++ cs = c :: more)
      (loud : isBare c = true ∨ c = '[')
      (read : line d (l.chars ++ cs) = (l.apply d).map fun d' => (d', cs)) :
      lines (n + 1) d (l.chars ++ cs) = (l.apply d).bind fun d' => lines n d' cs := by
    rw [begins] at read ⊢
    rw [lines, skipLines_stop loud]
    dsimp only [bind, Option.bind]
    rw [read]
    cases l.apply d <;> rfl
  cases l with
  | blank => exact ⟨n + 1, Nat.le_succ n, quiet (skipLines_blank cs)⟩
  | comment text =>
      refine ⟨n + 1, Nat.le_succ n, quiet ?_⟩
      have passed := skipLines_comment sound cs
      have whole : (Line.comment text).chars ++ cs = '#' :: (text ++ '\n' :: cs) := by
        simp [Line.chars]
      rw [whole, passed]
  | header name => exact ⟨n, Nat.le_refl n, loud rfl (.inr rfl) (line_header sound d cs)⟩
  | entry name item written =>
      obtain ⟨bare, reads⟩ := sound
      obtain ⟨c, more, chars, front⟩ := bare.head
      have begins : (Line.entry name item written).chars ++ cs =
          c :: (more ++ ' ' :: '=' :: ' ' :: (written ++ ['\n']) ++ cs) := by
        simp [Line.chars, chars]
      exact ⟨n, Nat.le_refl n, loud begins (.inl front) (line_entry bare reads d cs)⟩

/-- A document of plain lines is read line by line. -/
theorem lines_chars {ls : List Line} (sound : ∀ l ∈ ls, l.Sound) (d : Draft) {n : Nat}
    (enough : (ls.flatMap Line.chars).length < n) :
    lines n d (ls.flatMap Line.chars) = ls.foldlM Line.apply d := by
  induction ls generalizing d n with
  | nil =>
      obtain ⟨n, rfl⟩ := Nat.exists_eq_add_one_of_ne_zero (Nat.ne_zero_of_lt enough)
      rfl
  | cons l rest ih =>
      obtain ⟨n, rfl⟩ := Nat.exists_eq_add_one_of_ne_zero (Nat.ne_zero_of_lt enough)
      obtain ⟨first, later⟩ := List.forall_mem_cons.mp sound
      have some := l.length_chars_pos
      rw [List.flatMap_cons] at enough ⊢
      rw [List.length_append] at enough
      obtain ⟨n', turns, read⟩ := lines_line first n d (rest.flatMap Line.chars)
      rw [read, List.foldlM_cons]
      cases l.apply d with
      | none => rfl
      | some d' => exact ih later d' (by omega)

/-- No line begins with a byte order mark. -/
theorem Line.Sound.head {l : Line} (sound : l.Sound) :
    ∃ c more, l.chars = c :: more ∧ c ≠ '\uFEFF' := by
  cases l with
  | blank => exact ⟨_, _, rfl, by decide⟩
  | comment text => exact ⟨_, _, rfl, by decide⟩
  | header name => exact ⟨_, _, rfl, by decide⟩
  | entry name item written =>
      obtain ⟨c, more, chars, bare⟩ := sound.1.head
      refine ⟨c, more ++ ' ' :: '=' :: ' ' :: (written ++ ['\n']), ?_, ne_of_isBare bare (by decide)⟩
      simp [Line.chars, chars]

theorem parse_chars {ls : List Line} (sound : ∀ l ∈ ls, l.Sound) :
    parse (String.ofList (ls.flatMap Line.chars)) =
      (ls.foldlM Line.apply {}).map Draft.root := by
  have unmarked (rest : List Char) : ls.flatMap Line.chars ≠ '\uFEFF' :: rest := by
    intro same
    cases ls with
    | nil => cases same
    | cons l _ =>
        obtain ⟨c, more, chars, other⟩ := (sound l List.mem_cons_self).head
        rw [List.flatMap_cons, chars] at same
        exact other (List.cons.inj same).1
  unfold parse
  rw [String.toList_ofList]
  dsimp only
  split
  next same => exact absurd same (unmarked _)
  next => rw [lines_chars sound _ (Nat.lt_succ_self _)]

end EngineConsole.Toml
