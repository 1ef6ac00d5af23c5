import EngineConsole.Console.Command
import EngineConsole.Proofs.Text.Words

/-!
# The language of commands

A command is written as its keyword and its arguments, with gaps of any blanks between and around
them, and is read back from every line on which it is written. What is read is a command that can be
written, and nothing is read only where there is nothing but blanks.
-/

set_option autoImplicit false

namespace EngineConsole.Command

open Text (IsGap IsSolid IsTight splitAtBlank trim)

/-! ## Writing -/

def keywords : Command → List String
  | .help => ["help", "?"]
  | .toggle => ["toggle"]
  | .start => ["start"]
  | .stop => ["stop"]
  | .stats => ["stats"]
  | .chart => ["chart"]
  | .config => ["config"]
  | .set _ _ => ["set"]
  | .load => ["load"]
  | .save => ["save"]
  | .exportConfig => ["export"]
  | .importConfig _ => ["import"]
  | .clear => ["clear"]
  | .status => ["status"]
  | .alerts => ["alerts"]
  | .poll _ => ["poll"]
  | .quit => ["quit", "exit", "q"]

/-- What follows the keyword. A value that is empty is not written. -/
def arguments : Command → List String
  | .set key value => if value = "" then [key] else [key, value]
  | .importConfig path => [path]
  | .poll on => if on then ["on"] else ["off"]
  | _ => []

/-- Texts that follow each other, each after a gap. -/
inductive Follow : List String → List Char → Prop where
  | nil : Follow [] []
  | cons {text : String} {texts : List String} {gap rest : List Char} :
      gap ≠ [] → IsGap gap → Follow texts rest → Follow (text :: texts) (gap ++ text.toList ++ rest)

/-- A line on which a command is written. -/
def Written (c : Command) (line : List Char) : Prop :=
  ∃ keyword ∈ c.keywords, ∃ before rest behind, IsGap before ∧ Follow c.arguments rest ∧
    IsGap behind ∧ line = before ++ (keyword.toList ++ rest) ++ behind

/-- A line on which a command is written, with anything behind it if it has no arguments. -/
def ReadFrom (c : Command) (line : List Char) : Prop :=
  c.Written line ∨ c.arguments = [] ∧ ∃ start b surplus, c.Written start ∧
    Text.isBlank b = true ∧ line = start ++ b :: surplus

/-- A command that can be told from its written form: a key is one word, and the text of an argument
that may have blanks has them inside only. -/
def WellFormed : Command → Prop
  | .set key value => (key ≠ "" ∧ IsSolid key.toList) ∧ IsTight value.toList
  | .importConfig path => path ≠ "" ∧ IsTight path.toList
  | _ => True

/-! ## Words -/

/-- A text behind a word, after a gap if there is any text. -/
inductive Behind : List Char → List Char → Prop where
  | nothing : Behind [] []
  | apart {gap rest : List Char} : gap ≠ [] → IsGap gap → rest ≠ [] → Behind rest (gap ++ rest)

section

variable {cs w rest after : List Char}

theorem Behind.tight (behind : Behind rest after) (word : IsTight w) (some : w ≠ [])
    (tight : IsTight rest) : IsTight (w ++ after) := by
  cases behind with
  | nothing => rwa [List.append_nil]
  | apart _ _ more => exact word.around tight some more _

theorem Behind.nil (behind : Behind [] after) : after = [] := by
  cases behind with
  | nothing => rfl
  | apart _ _ some => exact absurd rfl some

theorem Behind.gap (behind : Behind rest after) (some : rest ≠ []) :
    ∃ gap, gap ≠ [] ∧ IsGap gap ∧ after = gap ++ rest := by
  cases behind with
  | nothing => exact absurd rfl some
  | @apart gap _ apart blank _ => exact ⟨gap, apart, blank, rfl⟩

theorem splitWord_append (solid : IsSolid w) (tight : IsTight rest) (behind : Behind rest after) :
    splitWord (w ++ after) = (w, rest) := by
  cases behind with
  | nothing =>
      rw [List.append_nil, splitWord, Text.splitAtBlank_of_solid solid]
      rfl
  | @apart gap _ some blank _ =>
      obtain ⟨b, more, rfl⟩ := List.exists_cons_of_ne_nil some
      have before : IsGap more := fun c member => blank c (List.mem_cons_of_mem _ member)
      have trimmed := Text.trim_padded tight before (r := []) nofun
      rw [List.append_nil] at trimmed
      rw [List.cons_append, splitWord, Text.splitAtBlank_append solid (blank b List.mem_cons_self)]
      exact congrArg (Prod.mk w) trimmed

/-- A tight text is a word and a tight text behind it. -/
theorem splitWord_cases (tight : IsTight cs) (split : splitWord cs = (w, rest)) :
    IsSolid w ∧ IsTight rest ∧ ∃ after, Behind rest after ∧ cs = w ++ after := by
  obtain ⟨solid, shape⟩ := Text.splitAtBlank_cases cs
  unfold splitWord at split
  obtain ⟨rfl, rfl⟩ := Prod.mk.inj split
  refine ⟨solid, Text.tight_trim _, ?_⟩
  rcases shape with ⟨nothing, whole⟩ | ⟨b, more, blank, split, whole⟩
  · rw [nothing]
    exact ⟨[], .nothing, by rwa [List.append_nil]⟩
  · rw [split, Option.getD_some]
    obtain ⟨l, r, before, behind, padded⟩ := Text.exists_padding more
    have gap : IsGap (b :: l) := before.cons blank
    generalize trim more = rest at padded ⊢
    generalize (Text.splitAtBlank cs).1 = w at whole solid ⊢
    have shown : cs = w ++ (b :: l ++ rest) ++ r := by simp [whole, padded]
    rw [shown] at tight
    obtain rfl : r = [] := tight.gap_eq_nil behind
    rw [List.append_nil] at shown tight
    refine ⟨_, .apart (List.cons_ne_nil b l) gap ?_, shown⟩
    intro nothing
    rw [nothing, List.append_nil] at tight
    exact absurd (tight.gap_eq_nil gap) (List.cons_ne_nil b l)

end

/-! ## Reading a word -/

/-- What the text after the keyword has to be. -/
def Takes (rest : List Char) : Command → Prop
  | .set key value => key ≠ "" ∧ splitWord rest = (key.toList, value.toList)
  | .importConfig path => path ≠ "" ∧ rest = path.toList
  | .poll on => rest = (if on then "on" else "off").toList
  | _ => True

theorem takes_of_ofWord {word : String} {rest : List Char} {c : Command}
    (read : ofWord word rest = .ok c) : word ∈ c.keywords ∧ Takes rest c := by
  unfold ofWord at read
  split at read
  case h_9 =>
    generalize pieces : splitWord rest = words at read
    obtain ⟨key, value⟩ := words
    simp only [List.isEmpty_iff] at read
    split at read
    · cases read
    · rename_i some
      cases read
      exact ⟨List.mem_singleton.mpr rfl, by simpa using some, by simp [pieces]⟩
  case h_13 =>
    split at read
    · cases read
    · rename_i some
      cases read
      exact ⟨List.mem_singleton.mpr rfl, by simpa using some, by simp⟩
  case h_17 =>
    split at read
    · rename_i on
      cases read
      exact ⟨by decide, on⟩
    · split at read
      · rename_i off
        cases read
        exact ⟨by decide, off⟩
      · cases read
  all_goals
    first
    | cases read
      exact ⟨by decide, trivial⟩
    | cases read

theorem ofWord_of_takes {word : String} {rest : List Char} {c : Command}
    (known : word ∈ c.keywords) (takes : Takes rest c) : ofWord word rest = .ok c := by
  cases c with
  | set key value =>
      obtain rfl := List.mem_singleton.mp known
      obtain ⟨some, split⟩ := takes
      simp [ofWord, split, some]
  | importConfig path =>
      obtain rfl := List.mem_singleton.mp known
      obtain ⟨some, rfl⟩ := takes
      simp [ofWord, some]
  | poll on =>
      obtain rfl := List.mem_singleton.mp known
      obtain rfl := takes
      cases on <;> rfl
  | _ =>
      simp only [keywords, List.mem_cons, List.not_mem_nil, or_false] at known
      rcases known with rfl | rfl | rfl <;> rfl

theorem parse_of_split {line : String} {word rest : List Char}
    (split : splitWord (trim line.toList) = (word, rest)) (nonempty : word ≠ []) :
    parse line = (ofWord (String.ofList word) rest).map some := by
  simp [parse, split, nonempty]

theorem map_some_eq_ok_iff {read : Except CommandError Command} {given : Option Command} :
    read.map some = .ok given ↔ ∃ c, read = .ok c ∧ given = some c := by
  cases read with
  | error e => exact ⟨nofun, nofun⟩
  | ok c => simp [Except.map, eq_comm]

/-- A line is read by its first word and what follows it. -/
theorem parse_eq_some_iff {line : String} {c : Command} : parse line = .ok (some c) ↔
    ∃ word rest, splitWord (trim line.toList) = (word, rest) ∧
      String.ofList word ∈ c.keywords ∧ Takes rest c := by
  cases split : splitWord (trim line.toList) with
  | mk word rest =>
      by_cases none : word = []
      · subst none
        have nothing : parse line = .ok none := by simp [parse, split]
        rw [nothing]
        refine ⟨nofun, ?_⟩
        rintro ⟨word, rest, same, known, -⟩
        obtain ⟨rfl, rfl⟩ := Prod.mk.inj same
        exact absurd known (by cases c <;> simp [keywords])
      · rw [parse_of_split split none, map_some_eq_ok_iff]
        constructor
        · rintro ⟨c, read, same⟩
          cases same
          exact ⟨word, rest, rfl, takes_of_ofWord read⟩
        · rintro ⟨word, rest, same, known, takes⟩
          obtain ⟨rfl, rfl⟩ := Prod.mk.inj same
          exact ⟨c, ofWord_of_takes known takes, rfl⟩

variable {c : Command} {after rest : List Char}

theorem keywords_solid {keyword : String} (known : keyword ∈ c.keywords) :
    IsSolid keyword.toList ∧ keyword.toList ≠ [] := by
  cases c <;> simp only [keywords, List.mem_cons, List.not_mem_nil, or_false] at known <;>
    rcases known with rfl | rfl | rfl <;> decide

/-! ## What is written is what is taken -/

theorem Follow.one {text : String} (follow : Follow [text] after) :
    ∃ gap, gap ≠ [] ∧ IsGap gap ∧ after = gap ++ text.toList := by
  obtain _ | @⟨_, _, gap, _, some, blank, last⟩ := follow
  cases last
  exact ⟨gap, some, blank, List.append_nil _⟩

theorem Behind.follow {text : String} (some : text ≠ "") (behind : Behind text.toList after) :
    Follow [text] after := by
  obtain ⟨gap, apart, blank, rfl⟩ := behind.gap (by simpa using some)
  have follow : Follow [text] (gap ++ text.toList ++ []) := .cons apart blank .nil
  rwa [List.append_nil] at follow

/-- What is written behind the keyword is what the command takes. -/
theorem WellFormed.takes (fit : c.WellFormed) (follow : Follow c.arguments after) :
    ∃ rest, Takes rest c ∧ IsTight rest ∧ Behind rest after := by
  cases c with
  | set key value =>
      obtain ⟨⟨some, solid⟩, tight⟩ := fit
      have keySome : key.toList ≠ [] := by simpa using some
      by_cases empty : value = ""
      · subst empty
        replace follow : Follow [key] after := follow
        obtain ⟨gap, apart, blank, rfl⟩ := follow.one
        have split := splitWord_append solid Text.isTight_nil .nothing
        rw [List.append_nil] at split
        exact ⟨_, ⟨some, split⟩, solid.tight, .apart apart blank keySome⟩
      · have valueSome : value.toList ≠ [] := by simpa using empty
        rw [arguments, if_neg empty] at follow
        obtain _ | @⟨_, _, gap, _, apart, blank, last⟩ := follow
        obtain ⟨inner, innerApart, innerBlank, rfl⟩ := last.one
        have behind := Behind.apart innerApart innerBlank valueSome
        refine ⟨key.toList ++ (inner ++ value.toList),
          ⟨some, splitWord_append solid tight behind⟩, behind.tight solid.tight keySome tight, ?_⟩
        rw [List.append_assoc]
        exact .apart apart blank (by simp [keySome])
  | importConfig path =>
      obtain ⟨some, tight⟩ := fit
      obtain ⟨gap, apart, blank, rfl⟩ := follow.one
      exact ⟨_, ⟨some, rfl⟩, tight, .apart apart blank (by simpa using some)⟩
  | poll on =>
      cases on <;>
        obtain ⟨gap, apart, blank, rfl⟩ := follow.one <;>
        exact ⟨_, rfl, by decide, .apart apart blank (by decide)⟩
  | _ =>
      cases follow
      exact ⟨[], trivial, Text.isTight_nil, .nothing⟩

/-- What a command takes behind its keyword is how it is written, or more than it needs. -/
theorem Takes.written (takes : Takes rest c) (tight : IsTight rest) (behind : Behind rest after) :
    c.WellFormed ∧ (Follow c.arguments after ∨ c.arguments = [] ∧ rest ≠ []) := by
  cases c with
  | set key value =>
      obtain ⟨some, split⟩ := takes
      obtain ⟨solid, valueTight, between, shape, rfl⟩ := splitWord_cases tight split
      have keySome : key.toList ≠ [] := by simpa using some
      obtain ⟨gap, apart, blank, rfl⟩ := behind.gap (by simp [keySome])
      refine ⟨⟨⟨some, solid⟩, valueTight⟩, .inl ?_⟩
      rw [← List.append_assoc]
      by_cases empty : value = ""
      · subst empty
        obtain rfl := shape.nil
        exact .cons apart blank .nil
      · rw [arguments, if_neg empty]
        exact .cons apart blank (shape.follow empty)
  | importConfig path =>
      obtain ⟨some, rfl⟩ := takes
      exact ⟨⟨some, tight⟩, .inl (behind.follow some)⟩
  | poll on =>
      obtain rfl := takes
      cases on <;> exact ⟨trivial, .inl (behind.follow (by decide))⟩
  | _ =>
      refine ⟨trivial, ?_⟩
      cases behind with
      | nothing => exact .inl .nil
      | apart _ _ more => exact .inr ⟨rfl, more⟩

/-! ## The language -/

/-- A keyword with a tight text behind it, between two gaps, is the command that takes the text. -/
theorem parse_of_takes {keyword line : String} {before behind : List Char}
    (known : keyword ∈ c.keywords) (takes : Takes rest c) (tight : IsTight rest)
    (apart : Behind rest after) (l : IsGap before) (r : IsGap behind)
    (whole : line.toList = before ++ (keyword.toList ++ after) ++ behind) :
    parse line = .ok (some c) := by
  obtain ⟨solid, some⟩ := keywords_solid known
  apply parse_eq_some_iff.mpr
  refine ⟨keyword.toList, rest, ?_, by rwa [String.ofList_toList], takes⟩
  rw [whole, Text.trim_padded (apart.tight solid.tight some tight) l r]
  exact splitWord_append solid tight apart

theorem WellFormed.parse_of_written {line : String} (fit : c.WellFormed)
    (written : c.Written line.toList) : parse line = .ok (some c) := by
  obtain ⟨keyword, known, before, after, behind, l, follow, r, whole⟩ := written
  obtain ⟨rest, takes, tight, apart⟩ := fit.takes follow
  exact parse_of_takes known takes tight apart l r whole

theorem takes_of_no_arguments (none : c.arguments = []) (rest : List Char) : Takes rest c := by
  cases c with
  | set key value =>
      by_cases empty : value = "" <;> simp [arguments, empty] at none
  | importConfig path => exact absurd none (List.cons_ne_nil _ _)
  | poll on => cases on <;> exact absurd none (List.cons_ne_nil _ _)
  | _ => trivial

theorem parse_of_surplus {line : String} {start surplus : List Char} {b : Char}
    (none : c.arguments = []) (written : c.Written start) (blank : Text.isBlank b = true)
    (whole : line.toList = start ++ b :: surplus) : parse line = .ok (some c) := by
  obtain ⟨keyword, known, before, after, behind, l, follow, r, rfl⟩ := written
  rw [none] at follow
  cases follow
  obtain ⟨inner, outer, gap, r', padded⟩ := Text.exists_padding surplus
  have tight := Text.tight_trim surplus
  generalize trim surplus = rest at padded tight
  have first : IsGap (behind ++ b :: inner) := r.append (gap.cons blank)
  by_cases some : rest = []
  · subst some
    apply parse_of_takes known (takes_of_no_arguments none []) tight .nothing l (first.append r')
    simp [whole, padded]
  · have apart := Behind.apart (List.append_ne_nil_of_right_ne_nil _ (List.cons_ne_nil b inner))
      first some
    apply parse_of_takes known (takes_of_no_arguments none rest) tight apart l r'
    simp [whole, padded]

theorem readFrom_of_parse {line : String} (read : parse line = .ok (some c)) :
    c.WellFormed ∧ c.ReadFrom line.toList := by
  obtain ⟨word, rest, split, known, takes⟩ := parse_eq_some_iff.mp read
  obtain ⟨solid, tight, after, apart, shown⟩ := splitWord_cases (Text.tight_trim _) split
  obtain ⟨before, behind, l, r, whole⟩ := Text.exists_padding line.toList
  rw [shown] at whole
  obtain ⟨fit, follow | ⟨none, more⟩⟩ := takes.written tight apart
  · refine ⟨fit, .inl ⟨_, known, before, after, behind, l, follow, r, ?_⟩⟩
    rw [whole, String.toList_ofList]
  · obtain ⟨gap, some, blank, rfl⟩ := apart.gap more
    obtain ⟨b, inner, rfl⟩ := List.exists_cons_of_ne_nil some
    refine ⟨fit, .inr ⟨none, before ++ word, b, inner ++ rest ++ behind, ?_, ?_, ?_⟩⟩
    · refine ⟨_, known, before, [], [], l, ?_, nofun, ?_⟩
      · rw [none]
        exact .nil
      · simp
    · exact blank b List.mem_cons_self
    · simp [whole]

theorem parse_eq_none_iff {line : String} : parse line = .ok none ↔ IsGap line.toList := by
  rw [← Text.trim_eq_nil_iff]
  have tight := Text.tight_trim line.toList
  cases split : splitWord (trim line.toList) with
  | mk word rest =>
      obtain ⟨_, _, after, apart, whole⟩ := splitWord_cases tight split
      by_cases none : word = []
      · subst none
        have nothing : parse line = .ok none := by simp [parse, split]
        rw [whole, List.nil_append] at tight ⊢
        refine ⟨fun _ => ?_, fun _ => nothing⟩
        cases apart with
        | nothing => rfl
        | apart some gap _ => exact absurd (tight.start_eq_nil gap) some
      · rw [parse_of_split split none, map_some_eq_ok_iff, whole]
        constructor
        · rintro ⟨c, _, absent⟩
          cases absent
        · intro nothing
          exact absurd (List.append_eq_nil_iff.mp nothing).1 none

/-- A command is read from every line on which it is written, whatever the gaps; from nothing else
than a line on which it is written, with a surplus at most where it has no arguments; and nothing is
read where there is nothing but blanks. The blanks around a line do not matter. -/
theorem lines_read_as_written (line : String) :
    (∀ c : Command, c.WellFormed → c.Written line.toList → parse line = .ok (some c)) ∧
      (∀ c : Command, parse line = .ok (some c) ↔ c.WellFormed ∧ c.ReadFrom line.toList) ∧
      (parse line = .ok none ↔ ∀ b ∈ line.toList, Text.isBlank b = true) ∧
      parse line = parse (Text.trimmed line) := by
  refine ⟨?_, ?_, ?_, ?_⟩
  · intro c fit written
    exact fit.parse_of_written written
  · intro c
    constructor
    · exact readFrom_of_parse
    · rintro ⟨fit, written | ⟨none, start, b, surplus, written, blank, whole⟩⟩
      · exact fit.parse_of_written written
      · exact parse_of_surplus none written blank whole
  · exact parse_eq_none_iff
  · unfold parse Text.trimmed
    rw [String.toList_ofList, Text.trim_of_tight (Text.tight_trim _)]

/-- The value of a field may have blanks inside, and the gaps may be any. -/
theorem spaced_value_reads_as_written :
    parse "\u2003set\u00a0Iface \u3000eth 0\t" = .ok (some (.set "Iface" "eth 0")) := by
  apply (lines_read_as_written _).1
  · exact ⟨by decide, by decide⟩
  · have value : Follow ["eth 0"] [' ', '\u3000', 'e', 't', 'h', ' ', '0'] :=
      .cons (List.cons_ne_nil ' ' ['\u3000']) (by decide) .nil
    have both : Follow ["Iface", "eth 0"] "\u00a0Iface \u3000eth 0".toList :=
      .cons (List.cons_ne_nil '\u00a0' []) (by decide) value
    exact ⟨"set", by decide, ['\u2003'], _, ['\t'], by decide, both, by decide, by decide⟩

end EngineConsole.Command
