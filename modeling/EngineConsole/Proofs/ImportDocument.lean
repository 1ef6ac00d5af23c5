import EngineConsole.Config.Basic
import EngineConsole.Proofs.Json.Doubles
import EngineConsole.Proofs.Json.Entries

/-!
# Documents that are imported

A text is imported as a configuration if and only if it is a document of the grammar that is a flat
mapping: an object whose members have texts for names and truth values, numbers in range or texts
for values. The configuration has the value of the last member of each name, which for a number is
the double that it is read as: the nearest one, if no more than one rounding is needed.
-/

set_option autoImplicit false

namespace EngineConsole

namespace Config

open Json (Tree Scalar)

/-! ## Members -/

/-- A number is read as a double. -/
def Read (n : Numeral) (x : Double) : Prop :=
  Json.double? n = some x

/-- A finite double is the nearest one to a number. -/
def Nearest (n : Numeral) (x : Double) : Prop :=
  x.Rounds n.value ∧ x.isFinite = true

/-- What a value of a document stands for, depending on what numbers mean: null, lists and objects
stand for nothing. -/
inductive Stands (Means : Numeral → Double → Prop) : Tree → Value → Prop
  | flag (b : Bool) : Stands Means (.flag b) (.flag b)
  | number {n : Numeral} {x : Double} (means : Means n x) : Stands Means (.number n) (.number x)
  | text (s : String) : Stands Means (.text (Text.units s.toList)) (.text s)

/-- A member of a document gives an option a value. -/
def Gives (Means : Numeral → Double → Prop) (m : List Nat × Tree) (e : String × Value) : Prop :=
  m.1 = Text.units e.1.toList ∧ Stands Means m.2 e.2

/-- The numbers of members are read as the nearest doubles, if these are finite. -/
def RoundOnce (members : List (List Nat × Tree)) : Prop :=
  ∀ m ∈ members, ∀ n, m.2 = .number n → ∀ x, Read n x ↔ Nearest n x

theorem read_iff_nearest {n : Numeral} (short : n.value.coefficient ≤ 2 ^ 53)
    (within : n.value.exponent.natAbs ≤ Json.exactPower) (x : Double) : Read n x ↔ Nearest n x := by
  have read := Json.double_eq_ofDecimal short within
  have finite := Json.isFinite_double read
  unfold Read Nearest
  rw [read, Binary.rounds_iff BinaryFormat.normal_double, Option.some.injEq]
  constructor
  · rintro rfl
    exact ⟨rfl, finite⟩
  · rintro ⟨rfl, -⟩
    rfl

theorem RoundOnce.gives_iff {members : List (List Nat × Tree)} (once : RoundOnce members)
    {m : List Nat × Tree} (member : m ∈ members) (e : String × Value) :
    Gives Read m e ↔ Gives Nearest m e := by
  obtain ⟨name, tree⟩ := m
  obtain ⟨key, v⟩ := e
  refine and_congr_right fun _ => ?_
  constructor
  · rintro (b | means | s)
    · exact .flag b
    · exact .number ((once _ member _ rfl _).mp means)
    · exact .text s
  · rintro (b | means | s)
    · exact .flag b
    · exact .number ((once _ member _ rfl _).mpr means)
    · exact .text s

theorem RoundOnce.forall₂_iff {members : List (List Nat × Tree)} (once : RoundOnce members)
    (entries : List (String × Value)) :
    List.Forall₂ (Gives Read) members entries ↔ List.Forall₂ (Gives Nearest) members entries := by
  induction members generalizing entries with
  | nil => simp
  | cons m more ih =>
      have later : RoundOnce more := fun m member => once m (List.mem_cons_of_mem _ member)
      cases entries with
      | nil => simp
      | cons e rest =>
          rw [List.forall₂_cons, List.forall₂_cons, once.gives_iff List.mem_cons_self, ih later]

theorem readsScalars_member : Json.ReadsScalars member (Json.enter valueOf?) := by
  intro c key input c' rest
  constructor
  · intro read
    obtain ⟨inner, colon, read⟩ := Json.bind_ok read
    obtain ⟨⟨s, after⟩, scalar, read⟩ := Json.bind_ok read
    obtain ⟨⟨t, inside⟩, token, scalar⟩ := Json.bind_ok scalar
    dsimp only at scalar
    cases t with
    | scalar s' =>
        cases scalar
        dsimp only [Option.bind_some] at read
        split at read
        next value given =>
          cases read
          exact ⟨inner, s', colon, token, by rw [Json.enter, given]; rfl⟩
        next => cases read
    | opening bracket =>
        obtain ⟨after, -, scalar⟩ := Json.bind_ok scalar
        cases scalar
        cases read
  · rintro ⟨inner, s, colon, token, stepped⟩
    obtain ⟨value, given, rfl⟩ := Option.map_eq_some_iff.mp stepped
    have scalar : Json.scalar inner = .ok (some s, rest) := by
      rw [Json.scalar, token]
      rfl
    rw [member, colon]
    dsimp only [bind, Except.bind]
    rw [scalar]
    dsimp only [Option.bind_some]
    rw [given]

theorem tells_valueOf : Json.Tells valueOf? (Stands Read) := by
  intro cs tree v value
  constructor
  · intro given
    cases tree with
    | null | list | object => cases given
    | flag b =>
        cases given
        exact .flag b
    | number n =>
        rw [Tree.scalar?] at given
        split at given
        next =>
          obtain ⟨x, read, rfl⟩ := Option.map_eq_some_iff.mp given
          exact .number read
        next => cases given
    | text us =>
        have units : Json.AreUnits us := by
          cases value with
          | text inside => exact inside.areUnits
        obtain ⟨s, text, given⟩ := Option.bind_eq_some_iff.mp given
        obtain ⟨cs, decoded, rfl⟩ := Option.map_eq_some_iff.mp text
        cases given
        have stands := @Stands.text Read (String.ofList cs)
        rwa [String.toList_ofList, ← (Text.ofUnits?_eq_some_iff units).mp decoded] at stands
  · rintro (b | read | s)
    · rfl
    · have read : Json.double? _ = some _ := read
      rw [Tree.scalar?, read]
      exact congrArg (Option.map _) read
    · rw [Tree.scalar?, Text.ofUnits?_units]
      simp [valueOf?]

/-! ## Documents -/

theorem parse_eq_ok_iff (text : String) (c : Config) :
    parse text = .ok c ↔ ∃ ms entries, Json.IsDocument text.toList (.object ms) ∧
      List.Forall₂ (Gives Read) ms entries ∧ c = .ofList entries :=
  readsScalars_member.text_eq_ok_iff tells_valueOf text c

/-- A document is read as its tree has it. -/
theorem parse_document_iff {text : String} {tree : Tree}
    (document : Json.IsDocument text.toList tree) (c : Config) :
    parse text = .ok c ↔ ∃ ms entries, tree = .object ms ∧ List.Forall₂ (Gives Read) ms entries ∧
      c = .ofList entries :=
  readsScalars_member.document_eq_ok_iff tells_valueOf document c

theorem distinct_of_gives {ms : List (List Nat × Tree)} {entries : List (String × Value)}
    (all : List.Forall₂ (Gives Read) ms entries) (distinct : (ms.map Prod.fst).Nodup) :
    (entries.map Prod.fst).Nodup := by
  have names : ms.map Prod.fst = (entries.map Prod.fst).map fun key => Text.units key.toList := by
    induction all with
    | nil => rfl
    | cons gives _ ih => exact List.cons_eq_cons.mpr ⟨gives.1, ih (List.nodup_cons.mp distinct).2⟩
  rw [names] at distinct
  exact distinct.of_map

theorem parse_perm {text text' : String} {ms ms' : List (List Nat × Tree)}
    (document : Json.IsDocument text.toList (.object ms))
    (document' : Json.IsDocument text'.toList (.object ms')) (perm : ms.Perm ms')
    (distinct : (ms.map Prod.fst).Nodup) {c : Config} (read : parse text = .ok c) :
    parse text' = .ok c := by
  obtain ⟨_, entries, ⟨⟩, all, rfl⟩ := (parse_document_iff document c).mp read
  obtain ⟨entries', all', perm'⟩ := List.perm_comp_forall₂ perm.symm all
  refine (parse_document_iff document' _).mpr ⟨ms', entries', rfl, all', ?_⟩
  exact Catalog.ofList_perm perm'.symm (distinct_of_gives all distinct)

/-- A text is imported if and only if it is a document whose value is an object of which every
member gives an entry, also one that is overridden, and the configuration has the last value of each
name and no other names. No other document is imported, and documents with the same members are
imported alike, in any order if their names are distinct. Where numbers are rounded once, as those
of few digits are, they give the nearest double. -/
theorem exactly_flat_documents_are_imported :
    (∀ text (c : Config), parse text = .ok c ↔ ∃ members entries,
      Json.IsDocument text.toList (.object members) ∧ List.Forall₂ (Gives Read) members entries ∧
        ∀ key, c.get? key = entries.reverse.lookup key) ∧
    (∀ text tree, Json.IsDocument text.toList tree →
      ((∃ c, parse text = .ok c) ↔
        ∃ members, tree = .object members ∧ ∀ m ∈ members, ∃ e, Gives Read m e)) ∧
    (∀ text members, Json.IsDocument text.toList (.object members) → RoundOnce members →
      (∀ c : Config, parse text = .ok c ↔ ∃ entries,
        List.Forall₂ (Gives Nearest) members entries ∧
          ∀ key, c.get? key = entries.reverse.lookup key) ∧
      ((∃ c, parse text = .ok c) ↔ ∀ m ∈ members, ∃ e, Gives Nearest m e)) ∧
    (∀ n : Numeral, n.value.coefficient ≤ 2 ^ 53 → n.value.exponent.natAbs ≤ Json.exactPower →
      ∀ x, Read n x ↔ Nearest n x) ∧
    ∀ text text' members members', Json.IsDocument text.toList (.object members) →
      Json.IsDocument text'.toList (.object members') →
      (members = members' ∨ members.Perm members' ∧ (members.map Prod.fst).Nodup) →
        ∀ c, parse text = .ok c ↔ parse text' = .ok c := by
  have same (c : Config) (entries : List (String × Value)) : c = .ofList entries ↔
      ∀ key, c.get? key = entries.reverse.lookup key := Catalog.eq_ofList_iff
  refine ⟨?_, ?_, ?_, fun n => read_iff_nearest, ?_⟩
  · intro text c
    simp only [parse_eq_ok_iff, same]
  · intro text tree document
    exact readsScalars_member.document_read_iff tells_valueOf document
  · intro text members document once
    have read (c : Config) : parse text = .ok c ↔ ∃ entries,
        List.Forall₂ (Gives Nearest) members entries ∧
          ∀ key, c.get? key = entries.reverse.lookup key := by
      simp only [parse_document_iff document, same, ← once.forall₂_iff]
      constructor
      · rintro ⟨_, entries, ⟨⟩, all, values⟩
        exact ⟨entries, all, values⟩
      · rintro ⟨entries, all, values⟩
        exact ⟨members, entries, rfl, all, values⟩
    refine ⟨read, ?_⟩
    simp only [read, ← exists_forall₂_iff, ← same]
    constructor
    · rintro ⟨_, entries, all, -⟩
      exact ⟨entries, all⟩
    · rintro ⟨entries, all⟩
      exact ⟨_, entries, all, rfl⟩
  · rintro text text' members members' document document' (rfl | ⟨perm, distinct⟩) c
    · rw [parse_document_iff document, parse_document_iff document']
    · have distinct' := (perm.map Prod.fst).nodup_iff.mp distinct
      exact ⟨parse_perm document document' perm distinct,
        parse_perm document' document perm.symm distinct'⟩

/-- A value that a flat mapping may have. -/
def IsFlat : Tree → Prop
  | .flag _ | .text _ => True
  | .number n => ∃ x : Double, x.Rounds n.value ∧ x.isFinite = true
  | .null | .list _ | .object _ => False

/-- A surrogate without its partner, under a name that is given another value after it. -/
theorem lone_surrogate_is_refused :
    let text := "\x7b\"a\":\"\\ud800\",\"a\":true\x7d"
    (∃ members, Json.IsDocument text.toList (.object members) ∧ ∀ m ∈ members, IsFlat m.2) ∧
      ∀ c, parse text ≠ .ok c := by
  intro text
  have document : Json.IsDocument text.toList
      (.object [(Text.units ['a'], .text [0xD800]), (Text.units ['a'], .flag true)]) := by
    have spelled : text.toList = '{' :: (('"' :: (['a'] ++ '"' :: ':' ::
        ('"' :: (['\\', 'u', 'd', '8', '0', '0'] ++ ['"'])))) ++ ',' ::
          ('"' :: (['a'] ++ '"' :: ':' :: ['t', 'r', 'u', 'e'])) ++ ['}']) := by decide
    have name : Json.IsBody ['a'] (Text.units ['a']) :=
      .plain (by decide) (by decide) (by decide) .nil
    have digits : Json.IsQuad ['d', '8', '0', '0'] 0xD800 :=
      .intro (w := 13) (x := 8) (y := 0) (z := 0) (by decide) (by decide) (by decide) (by decide)
    have surrogate : Json.IsBody ['\\', 'u', 'd', '8', '0', '0'] [0xD800] := .code digits .nil
    rw [spelled]
    exact .tight (.object (.more (.tight name (.text surrogate)) (.one (.tight name .true))))
  refine ⟨⟨_, document, by simp [IsFlat]⟩, fun c read => ?_⟩
  obtain ⟨_, _, ⟨⟩, all, -⟩ := (parse_document_iff document c).mp read
  obtain _ | @⟨_, ⟨key, v⟩, _, _, ⟨-, stands⟩, -⟩ := all
  generalize surrogate : [0xD800] = us at stands
  cases stands with
  | text s =>
      have whole := Text.ofUnits?_units s.toList
      rw [← surrogate] at whole
      cases whole

/-- Two documents that differ in their order, their blanks and their escapes. -/
theorem reordered_documents_are_imported_alike :
    let text := "\x7b\"b\":\"é\",\"a\":1e3\x7d"
    let text' := "\n\x7b\"a\":1e3,\"b\":\"\\u00E9\"\x7d"
    ∃ c, parse text = .ok c ∧ parse text' = .ok c ∧ c.get? "a" = some (.number (.ofNat 1000)) ∧
      c.get? "b" = some (.text "é") := by
  intro text text'
  have a : Json.IsBody ['a'] (Text.units ['a']) := .plain (by decide) (by decide) (by decide) .nil
  have b : Json.IsBody ['b'] (Text.units ['b']) := .plain (by decide) (by decide) (by decide) .nil
  have plain : Json.IsBody ['é'] (Text.units ['é']) :=
    .plain (by decide) (by decide) (by decide) .nil
  have digits : Json.IsQuad ['0', '0', 'E', '9'] 0xE9 :=
    .intro (w := 0) (x := 0) (y := 14) (z := 9) (by decide) (by decide) (by decide) (by decide)
  have escaped : Json.IsBody ['\\', 'u', '0', '0', 'E', '9'] (Text.units ['é']) :=
    .code digits .nil
  let s : Numeral.Spelling := ⟨none, ['1'], none, some ⟨'e', none, ['3']⟩⟩
  have strict : s.Strict := by
    have digit (d : Char) (isDigit : d.isDigit = true) : [d] ≠ [] ∧ Decimal.AreDigits [d] :=
      ⟨by simp, List.forall_mem_singleton.mpr isDigit⟩
    refine ⟨by decide, digit '1' rfl, by decide, nofun, ?_⟩
    rintro p ⟨⟩
    exact ⟨.inl rfl, digit '3' rfl⟩
  have document : Json.IsDocument text.toList (.object
      [(Text.units ['b'], .text (Text.units ['é'])), (Text.units ['a'], .number s.numeral)]) := by
    have spelled : text.toList =
        '{' :: (('"' :: (['b'] ++ '"' :: ':' :: ('"' :: (['é'] ++ ['"'])))) ++
          ',' :: ('"' :: (['a'] ++ '"' :: ':' :: s.text)) ++ ['}']) := by decide
    rw [spelled]
    exact .tight (.object (.more (.tight b (.text plain)) (.one (.tight a (.number strict)))))
  have document' : Json.IsDocument text'.toList (.object [(Text.units ['a'], .number s.numeral),
      (Text.units ['b'], .text (Text.units ['é']))]) := by
    have spelled : text'.toList = ['\n'] ++ ('{' :: (('"' :: (['a'] ++ '"' :: ':' :: s.text)) ++
        ',' :: ('"' :: (['b'] ++ '"' :: ':' ::
          ('"' :: (['\\', 'u', '0', '0', 'E', '9'] ++ ['"'])))) ++ ['}']) ++ []) := by decide
    rw [spelled]
    exact .intro (Json.areBlank_of_all rfl)
      (.object (.more (.tight a (.number strict)) (.one (.tight b (.text escaped))))) nofun
  have short : s.numeral.value.coefficient ≤ 2 ^ 53 ∧
      s.numeral.value.exponent.natAbs ≤ Json.exactPower := ⟨by decide, by decide⟩
  obtain ⟨-, -, nearest, once, alike⟩ := exactly_flat_documents_are_imported
  have round : RoundOnce
      [(Text.units ['b'], .text (Text.units ['é'])), (Text.units ['a'], .number s.numeral)] := by
    intro m member n number x
    simp only [List.mem_cons, List.not_mem_nil, or_false] at member
    rcases member with rfl | rfl
    · cases number
    · cases number
      exact once s.numeral short.1 short.2 x
  have thousand : Nearest s.numeral (.ofNat 1000) :=
    ⟨(Binary.rounds_iff BinaryFormat.normal_double).mpr (by decide +kernel), by decide +kernel⟩
  have gives : List.Forall₂ (Gives Nearest)
      [(Text.units ['b'], .text (Text.units ['é'])), (Text.units ['a'], .number s.numeral)]
      [("b", .text "é"), ("a", .number (.ofNat 1000))] :=
    .cons ⟨rfl, .text "é"⟩ (.cons ⟨rfl, .number thousand⟩ .nil)
  obtain ⟨imported, -⟩ := nearest text _ document round
  have read := (imported _).mpr ⟨_, gives, Catalog.get?_ofList _⟩
  have same := alike text text' _ _ document document' (.inr ⟨.swap _ _ _, by decide⟩)
  exact ⟨_, read, (same _).mp read, rfl, rfl⟩

end Config

end EngineConsole
