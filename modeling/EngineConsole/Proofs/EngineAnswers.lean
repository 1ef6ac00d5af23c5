import EngineConsole.Counts.Basic
import EngineConsole.Proofs.Json.Doubles
import EngineConsole.Proofs.Json.Entries
import EngineConsole.RunState

/-!
# What the engine answers

The documents in which counters and the state of the engine arrive. Counters are read if and only
if every member of the document is a count, a whole number that fits a word and is spelled with
digits alone, and they are read exactly. What was written is read back.
-/

set_option autoImplicit false

namespace EngineConsole

open Json (Ends Flaw Input Scalar Tree)

/-! ## Counters -/

namespace Counts

/-- What a value of a document counts: a numeral of digits alone counts what they say, and nothing
else counts anything. -/
inductive Stands : Tree → UInt64 → Prop
  | count {n : Numeral} {w : UInt64} (unsigned : n.negative = false) (plain : n.plain = true)
      (value : Decimal.ofDigits n.whole = w.toNat) : Stands (.number n) w

def valueOf? : Scalar → Option UInt64
  | .number n => wordOf? n
  | _ => none

theorem wordOf_eq_some_iff {n : Numeral} {w : UInt64} :
    wordOf? n = some w ↔
      n.negative = false ∧ n.plain = true ∧ Decimal.ofDigits n.whole = w.toNat := by
  have small := w.toNat_lt
  unfold wordOf?
  dsimp only
  split
  next fits =>
    obtain ⟨plain, unsigned, bounded⟩ := fits
    have bound : Decimal.ofDigits n.whole < 2 ^ 64 := by
      unfold largest at bounded
      omega
    rw [Option.some.injEq, ← UInt64.toNat_inj, UInt64.toNat_ofNat_of_lt' bound]
    simp [plain, unsigned]
  next unfit =>
    have other : ¬(n.negative = false ∧ n.plain = true ∧ Decimal.ofDigits n.whole = w.toNat) := by
      rintro ⟨unsigned, plain, value⟩
      refine unfit ⟨plain, by simp [unsigned], ?_⟩
      unfold largest
      omega
    simp [other]

theorem isSome_double_of_count {s : Numeral.Spelling} {w : UInt64}
    (plain : s.numeral.plain = true) (value : Decimal.ofDigits s.whole = w.toNat) :
    (Json.double? s.numeral).isSome = true := by
  obtain ⟨sign, whole, fraction, power⟩ := s
  obtain ⟨noFraction, noPower⟩ : fraction = none ∧ power = none := by
    simpa [Numeral.Spelling.numeral] using plain
  subst noFraction noPower
  have bound : w.toNat ≤ Json.significandBound := Nat.le_pred_of_lt w.toNat_lt
  dsimp only at value
  refine Json.isSome_double_of_le ?_ ?_
  · simpa [Numeral.Spelling.numeral, Numeral.value, value] using bound
  · simp [Numeral.Spelling.numeral, Numeral.value]

theorem tells_valueOf : Json.Tells valueOf? Stands := by
  intro cs tree w value
  constructor
  · intro given
    obtain ⟨s, scalar, given⟩ := Option.bind_eq_some_iff.mp given
    cases tree with
    | null | flag =>
        cases scalar
        cases given
    | number n =>
        rw [Tree.scalar?] at scalar
        split at scalar
        next =>
          cases scalar
          obtain ⟨unsigned, plain, counted⟩ := wordOf_eq_some_iff.mp given
          exact .count unsigned plain counted
        next => cases scalar
    | text us =>
        obtain ⟨_, -, rfl⟩ := Option.map_eq_some_iff.mp scalar
        cases given
    | list | object => cases scalar
  · rintro ⟨unsigned, plain, counted⟩
    cases value with
    | number strict =>
        rw [Tree.scalar?, if_pos (isSome_double_of_count plain counted)]
        exact wordOf_eq_some_iff.mpr ⟨unsigned, plain, counted⟩

theorem readsScalars_member : Json.ReadsScalars member (Json.enter valueOf?) := by
  intro c key input c' rest
  constructor
  · intro read
    obtain ⟨inner, colon, read⟩ := Json.bind_ok read
    obtain ⟨⟨t, after⟩, token, read⟩ := Json.bind_ok read
    dsimp only at read
    split at read
    next n =>
      split at read
      next w given =>
        cases read
        exact ⟨inner, .number n, colon, token, congrArg (Option.map (c.insert key)) given⟩
      next => cases read
    next => cases read
  · rintro ⟨inner, s, colon, token, stepped⟩
    obtain ⟨w, given, rfl⟩ := Option.map_eq_some_iff.mp stepped
    cases s with
    | number n =>
        have word : wordOf? n = some w := given
        rw [member, colon]
        dsimp only [bind, Except.bind]
        rw [token]
        dsimp only
        rw [word]
    | null | flag | text => cases given

theorem token_digits (w : UInt64) {rest : Input} (ends : Ends rest) :
    ∃ n, Json.token ((Decimal.digits w.toNat).map .char ++ rest) = .ok (.scalar (.number n), rest) ∧
      wordOf? n = some w := by
  have sound := Decimal.Layout.sound_digits false w.toNat
  have token := Json.token_numeral sound.strict ends
  have counted := Decimal.ofDigits_digits w.toNat
  rw [if_pos (isSome_double_of_count rfl counted), Decimal.Layout.text_spelling] at token
  have text : Decimal.Layout.chars ⟨false, Decimal.digits w.toNat, none, none⟩ =
      Decimal.digits w.toNat := by
    simp [Decimal.Layout.chars]
  rw [text] at token
  exact ⟨_, token, wordOf_eq_some_iff.mpr ⟨rfl, rfl, counted⟩⟩

theorem reads_member {s : Json.Spacing} (blank : s.Blank) (e : String × UInt64) :
    Json.Reads member s (fun w => Decimal.digits w.toNat)
      (fun c e => .ok (c.insert e.1 e.2)) e := by
  intro c rest ends
  obtain ⟨n, token, word⟩ := token_digits e.2 ends
  have colon : Json.colon ((':' :: (s.afterColon ++ Decimal.digits e.2.toNat)).map .char ++ rest) =
      .ok (s.afterColon.map .char ++ ((Decimal.digits e.2.toNat).map .char ++ rest)) := by
    rw [List.map_cons, List.cons_append, List.map_append, List.append_assoc]
    exact Json.colon_spaced Json.blank_nil _
  unfold member
  rw [colon]
  dsimp only [bind, Except.bind]
  rw [Json.token_blank blank.afterColon, token]
  dsimp only
  rw [word]
  rfl

theorem parse_compact (c : Counts) : parse c.compact = .ok c := by
  have read := Json.object_write Json.blank_compact
    (fun e _ => reads_member Json.blank_compact e) (Catalog.empty : Counts) (l := c.entries) []
  have inserted (l : List (String × UInt64)) (d : Counts) :
      l.foldlM (fun c e => (.ok (c.insert e.1 e.2) : Except Flaw Counts)) d =
        .ok (l.foldl (fun c e => c.insert e.1 e.2) d) :=
    List.foldlM_pure
  rw [List.append_nil, inserted] at read
  unfold parse Text.glyphs compact
  rw [String.toList_ofList]
  exact read.trans (congrArg Except.ok c.ofList_entries)

end Counts

/-! ## The state of the engine -/

namespace EngineStatus

def entries (s : EngineStatus) : List (String × (Bool ⊕ String)) :=
  [("running", .inl s.running), ("uptime", .inr s.uptime)]

/-- What is written of a status under a name. -/
def written : Bool ⊕ String → List Char
  | .inl running => Json.writeFlag running
  | .inr uptime => Json.writeString uptime.toList

/-- What reading a member that was written does to a draft. -/
def note (d : Draft) (e : String × (Bool ⊕ String)) : Except Flaw Draft :=
  match e.2 with
  | .inl running => if d.running.isSome then .error .unfit else .ok ⟨some running, d.uptime⟩
  | .inr uptime => if d.uptime.isSome then .error .unfit else .ok ⟨d.running, some uptime⟩

theorem colon_compact (text : List Char) (rest : Input) :
    Json.colon ((':' :: (Json.compact.afterColon ++ text)).map .char ++ rest) =
      .ok (text.map .char ++ rest) :=
  Json.colon_spaced Json.blank_nil _

theorem reads_running (running : Bool) :
    Json.Reads member Json.compact written note ("running", .inl running) := by
  intro d rest ends
  have token : Json.token ((written (.inl running)).map .char ++ rest) =
      .ok (.scalar (.flag running), rest) := by
    cases running <;> rfl
  unfold member note
  rw [if_pos rfl, colon_compact]
  dsimp only
  split
  next => rfl
  next =>
    dsimp only [bind, Except.bind]
    unfold readFlag
    rw [token]
    rfl

theorem reads_uptime (uptime : String) :
    Json.Reads member Json.compact written note ("uptime", .inr uptime) := by
  intro d rest ends
  have token : Json.token ((written (.inr uptime)).map .char ++ rest) =
      .ok (.scalar (.text uptime.toList), rest) := by
    rw [written, Json.writeString, List.map_cons, List.cons_append, Json.token_quote,
      Json.string_write]
    rfl
  unfold member note
  have other : "uptime" ≠ "running" := by decide
  rw [if_neg other, if_pos rfl, colon_compact]
  dsimp only
  split
  next => rfl
  next =>
    dsimp only [bind, Except.bind]
    unfold readText
    rw [token]
    dsimp only [bind, Except.bind]
    rw [String.ofList_toList]
    rfl

theorem parse_compact (s : EngineStatus) : parse s.compact = .ok s := by
  have reads : ∀ e ∈ s.entries, Json.Reads member Json.compact written note e :=
    List.forall_mem_cons.mpr ⟨reads_running s.running,
      List.forall_mem_singleton.mpr (reads_uptime s.uptime)⟩
  have members := Json.members_write Json.blank_compact
    (show s.entries ≠ [] from List.cons_ne_nil _ _) reads {}
    (show Json.Spot.opened ≠ .done by decide) []
  have opened : Text.glyphs s.compact = .char '{' :: ((Json.writeMembers Json.compact
      (s.entries.map fun e => (e.1, written e.2)) ++
        (Json.compact.beforeEnd ++ ['}'])).map .char ++ []) := by
    unfold Text.glyphs compact
    rw [String.toList_ofList, List.append_nil, ← List.append_assoc]
    rfl
  unfold parse read
  rw [opened, Json.token_brace]
  dsimp only [bind, Except.bind]
  rw [members]
  rfl

end EngineStatus

/-! ## Both -/

namespace Counts

/-- Counters are read of a document if and only if it is an object of which every member gives a
count, also one that is overridden, and the counters have the last count of each name and nothing
else. What is written of counters is read back, and so is what is written of a status. -/
theorem counts_are_read_exactly :
    (∀ text (c : Counts), parse text = .ok c ↔ ∃ members entries,
      Json.IsDocument text.toList (.object members) ∧
        List.Forall₂ (Json.Gives Stands) members entries ∧
          ∀ key, c.get? key = entries.reverse.lookup key) ∧
    (∀ text tree, Json.IsDocument text.toList tree →
      ((∃ c, parse text = .ok c) ↔
        ∃ members, tree = .object members ∧ ∀ m ∈ members, ∃ e, Json.Gives Stands m e)) ∧
    (∀ c : Counts, parse c.compact = .ok c) ∧
    (∀ (c : Counts) key, key ∉ c.keys → c.count key = 0) ∧
    ∀ s : EngineStatus, EngineStatus.parse s.compact = .ok s := by
  refine ⟨?_, ?_, parse_compact, ?_, EngineStatus.parse_compact⟩
  · intro text c
    have same (entries : List (String × UInt64)) : c = .ofList entries ↔
        ∀ key, c.get? key = entries.reverse.lookup key := Catalog.eq_ofList_iff
    simp only [← same]
    exact readsScalars_member.text_eq_ok_iff tells_valueOf text c
  · intro text tree document
    exact readsScalars_member.document_read_iff tells_valueOf document
  · intro c key absent
    rw [Catalog.mem_keys, Catalog.contains, Option.isSome_iff_ne_none, not_not] at absent
    rw [count, absent]
    rfl

/-- A surrogate without its partner is the name of a counter. -/
theorem name_without_text_is_refused :
    let text := "\x7b\"\\ud800\":1\x7d"
    (∃ members, Json.IsDocument text.toList (.object members) ∧
      ∀ m ∈ members, ∃ w, Stands m.2 w) ∧ ∀ c, parse text ≠ .ok c := by
  intro text
  have digits : Json.IsQuad ['d', '8', '0', '0'] 0xD800 :=
    .intro (w := 13) (x := 8) (y := 0) (z := 0) (by decide) (by decide) (by decide) (by decide)
  have name : Json.IsBody ['\\', 'u', 'd', '8', '0', '0'] [0xD800] := .code digits .nil
  have sound := Decimal.Layout.sound_digits false 1
  have document : Json.IsDocument text.toList (.object
      [([0xD800], .number (Decimal.Layout.spelling ⟨false, ['1'], none, none⟩).numeral)]) := by
    have spelled : text.toList = '{' :: ('"' :: (['\\', 'u', 'd', '8', '0', '0'] ++
        '"' :: ':' :: (Decimal.Layout.spelling ⟨false, ['1'], none, none⟩).text) ++ ['}']) := by
      decide
    rw [spelled]
    exact .tight (.object (.one (.tight name (.number sound.strict))))
  refine ⟨⟨_, document, List.forall_mem_singleton.mpr ⟨1, .count rfl rfl rfl⟩⟩, fun c read => ?_⟩
  obtain ⟨members, same, gives⟩ :=
    (readsScalars_member.document_read_iff tells_valueOf document).mp ⟨c, read⟩
  cases same
  obtain ⟨⟨key, w⟩, named, -⟩ := gives _ List.mem_cons_self
  have whole := Text.ofUnits?_units key.toList
  rw [← named] at whole
  cases whole

/-- The largest count in the place of another one under the same name, which is spelled in two ways;
and a number that is one larger. -/
theorem largest_count_is_read_exactly :
    let text := "\x7b\"a\":0,\"\\u0061\":18446744073709551615\x7d"
    let larger := "\x7b\"a\":18446744073709551616\x7d"
    (∃ c, parse text = .ok c ∧ c.count "a" = 18446744073709551615 ∧ c.count "b" = 0) ∧
      ¬∃ c, parse larger = .ok c := by
  intro text larger
  obtain ⟨read, fits, -, absent, -⟩ := counts_are_read_exactly
  have sound (n : Nat) := (Decimal.Layout.sound_digits false n).strict
  have plain : Json.IsBody ['a'] (Text.units ['a']) :=
    .plain (by decide) (by decide) (by decide) .nil
  have digits : Json.IsQuad ['0', '0', '6', '1'] 0x61 :=
    .intro (w := 0) (x := 0) (y := 6) (z := 1) (by decide) (by decide) (by decide) (by decide)
  have escaped : Json.IsBody ['\\', 'u', '0', '0', '6', '1'] (Text.units ['a']) :=
    .code digits .nil
  let number (n : Nat) : Numeral.Spelling :=
    Decimal.Layout.spelling ⟨false, Decimal.digits n, none, none⟩
  have document : Json.IsDocument text.toList (.object
      [(Text.units ['a'], .number (number 0).numeral),
        (Text.units ['a'], .number (number 18446744073709551615).numeral)]) := by
    have spelled : text.toList = '{' :: (('"' :: (['a'] ++ '"' :: ':' :: (number 0).text)) ++
        ',' :: ('"' :: (['\\', 'u', '0', '0', '6', '1'] ++
          '"' :: ':' :: (number 18446744073709551615).text)) ++ ['}']) := by
      decide
    rw [spelled]
    exact .tight (.object (.more (.tight plain (.number (sound _)))
      (.one (.tight escaped (.number (sound _))))))
  have document' : Json.IsDocument larger.toList (.object
      [(Text.units ['a'], .number (number 18446744073709551616).numeral)]) := by
    have spelled : larger.toList = '{' :: ('"' :: (['a'] ++
        '"' :: ':' :: (number 18446744073709551616).text) ++ ['}']) := by
      decide
    rw [spelled]
    exact .tight (.object (.one (.tight plain (.number (sound _)))))
  have gives : List.Forall₂ (Json.Gives Stands)
      [(Text.units ['a'], .number (number 0).numeral),
        (Text.units ['a'], .number (number 18446744073709551615).numeral)]
      [("a", 0), ("a", 18446744073709551615)] :=
    .cons ⟨rfl, .count rfl rfl (by decide)⟩ (.cons ⟨rfl, .count rfl rfl (by decide)⟩ .nil)
  refine ⟨⟨_, (read text _).mpr ⟨_, _, document, gives, Catalog.get?_ofList _⟩, by decide,
    absent _ "b" (by decide)⟩, ?_⟩
  rw [fits larger _ document']
  rintro ⟨_, ⟨⟩, given⟩
  obtain ⟨⟨key, w⟩, -, stands⟩ := given _ List.mem_cons_self
  cases stands with
  | count _ _ value =>
      have small := w.toNat_lt
      have large : w.toNat = 18446744073709551616 :=
        value.symm.trans (Decimal.ofDigits_digits 18446744073709551616)
      omega

end Counts

end EngineConsole
