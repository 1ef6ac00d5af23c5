import EngineConsole.Config.Basic
import EngineConsole.Engine.Http
import EngineConsole.Proofs.Json.WrittenDoubles

/-!
# Configurations as documents

What a configuration is exported as, and what is posted of it, is read option by option. Texts and
truth values come back, and so do the numbers whose text is read as they are; a number that is not
finite makes the document unfit. Whole numbers are written as integers as far as doubles count
without gaps.
-/

set_option autoImplicit false

namespace EngineConsole

open Json (Ends Flaw Input)

/-! ## Values -/

namespace Value

/-- A value as a document gives it back, if numbers come back. -/
def restored : Value → Value
  | .number x => .number x.restored
  | v => v

/-- What the text of a value is read as. -/
def reread : Value → Value
  | .number x => .number ((Json.reread? x).getD x)
  | v => v

/-- The text of a finite number that is not an integer is read as that number. -/
def Steady : Value → Prop
  | .number x => x.isFinite = true → ¬Json.IsInteger x → Json.reread? x = some x
  | _ => True

instance (v : Value) : Decidable v.Steady :=
  match v with
  | .number x => inferInstanceAs
      (Decidable (x.isFinite = true → ¬Json.IsInteger x → Json.reread? x = some x))
  | .flag _ | .text _ => .isTrue trivial

theorem same_restored {v : Value} (finite : v.isFinite = true) : v.restored.same v = true := by
  cases v with
  | flag b => simp [restored, same]
  | text s => simp [restored, same]
  | number x =>
      change x.restored.same x = true
      unfold Binary.restored
      split
      next zero =>
        obtain ⟨plain, negative, rfl⟩ := Binary.isFinite_ofRank_zero x zero
        rw [plain]
        simp [Binary.same, Binary.isZero]
      next =>
        cases x with
        | nan => cases finite
        | infinite => cases finite
        | finite negative rank => simp [Binary.same]

theorem reread_of_steady {v : Value} (finite : v.isFinite = true) (steady : v.Steady) :
    v.reread = v.restored := by
  cases v with
  | flag b => rfl
  | text s => rfl
  | number x =>
      have read : Json.reread? x = some x.restored := by
        by_cases integer : Json.IsInteger x
        · exact Json.reread_of_isInteger integer
        · rw [Json.restored_of_not_isInteger integer]
          exact steady finite integer
      rw [reread, read]
      rfl

theorem steady_of_same {v : Value} (same : v.reread.same v = true) : v.Steady := by
  cases v with
  | flag b => trivial
  | text s => trivial
  | number x =>
      intro finite other
      obtain ⟨y, read⟩ := Json.exists_reread finite
      rw [reread, read, Option.getD_some] at same
      have equal : y.same x = true := same
      have positive : x.isZero = false :=
        Bool.eq_false_of_not_eq_true fun zero => other (Json.isInteger_of_isZero zero)
      cases x with
      | nan | infinite => cases finite
      | finite negative rank =>
          cases y with
          | nan => cases equal
          | infinite => simp [Binary.same, positive] at equal
          | finite negative' rank' =>
              rw [read]
              simpa [Binary.same, positive] using equal

/-- Only what is read as it was is read as an equal value. -/
theorem same_iff_steady {v : Value} (finite : v.isFinite = true) :
    v.reread.same v = true ↔ v.Steady := by
  refine ⟨steady_of_same, fun steady => ?_⟩
  rw [reread_of_steady finite steady]
  exact same_restored finite

/-- Reading what was written for a value: a number that is not finite is read as none at all. -/
theorem scalar_json (v : Value) {rest : Input} (ends : Ends rest) :
    ∃ s, Json.scalar (v.json.map .char ++ rest) = .ok (some s, rest) ∧
      Config.valueOf? s = if v.isFinite then some v.reread else none := by
  have read {t : Json.Scalar} (found : Json.token (v.json.map .char ++ rest) =
      .ok (.scalar t, rest)) : Json.scalar (v.json.map .char ++ rest) = .ok (some t, rest) := by
    unfold Json.scalar
    rw [found]
    rfl
  cases v with
  | flag b => cases b <;> exact ⟨.flag _, read rfl, rfl⟩
  | text s =>
      refine ⟨.text s.toList, read ?_, ?_⟩
      · rw [json, Json.writeString, List.map_cons, List.cons_append, Json.token_quote,
          Json.string_write]
        rfl
      · simp [Config.valueOf?, isFinite, reread]
  | number x =>
      by_cases finite : x.isFinite = true
      · obtain ⟨n, value, found⟩ := Json.token_writeDouble finite ends
        obtain ⟨y, again⟩ := Json.exists_reread finite
        refine ⟨.number n, read found, ?_⟩
        simp [Config.valueOf?, isFinite, reread, finite, value, again]
      · refine ⟨.null, read ?_, ?_⟩
        · cases x with
          | nan | infinite => rfl
          | finite => exact absurd rfl finite
        · simp [Config.valueOf?, isFinite, finite]

end Value

/-! ## Members -/

namespace Config

/-- All numbers are finite. -/
def Finite (c : Config) : Prop :=
  ∀ e ∈ c.entries, e.2.isFinite = true

/-- All numbers come back, integers in any case. -/
def Steady (c : Config) : Prop :=
  ∀ e ∈ c.entries, e.2.Steady

instance (c : Config) : Decidable c.Finite :=
  inferInstanceAs (Decidable (∀ e ∈ c.entries, e.2.isFinite = true))

instance (c : Config) : Decidable c.Steady :=
  inferInstanceAs (Decidable (∀ e ∈ c.entries, e.2.Steady))

/-- What the document of a configuration is read as. -/
def reread (c : Config) : Config :=
  c.map fun _ v => v.reread

/-- What reading a member that was written does to the options read before. -/
def restore (c : Config) (e : String × Value) : Except Flaw Config :=
  if e.2.isFinite then .ok (c.insert e.1 e.2.reread) else .error .unfit

theorem reads_member {s : Json.Spacing} (blank : s.Blank) (e : String × Value) :
    Json.Reads member s Value.json restore e := by
  intro c rest ends
  obtain ⟨key, v⟩ := e
  obtain ⟨t, read, value⟩ := v.scalar_json ends
  have spaced : Json.scalar (s.afterColon.map .char ++ (v.json.map .char ++ rest)) =
      .ok (some t, rest) := by
    rw [← read]
    unfold Json.scalar
    rw [Json.token_blank blank.afterColon]
  have colon : Json.colon ((':' :: (s.afterColon ++ v.json)).map .char ++ rest) =
      .ok (s.afterColon.map .char ++ (v.json.map .char ++ rest)) := by
    rw [List.map_cons, List.cons_append, List.map_append, List.append_assoc]
    exact Json.colon_spaced Json.blank_nil _
  unfold member restore
  rw [colon]
  dsimp only [bind, Except.bind]
  rw [spaced]
  dsimp only [Option.bind_some]
  rw [value]
  cases v.isFinite <;> rfl

theorem foldlM_restore {l : List (String × Value)} (finite : ∀ e ∈ l, e.2.isFinite = true)
    (c : Config) :
    l.foldlM restore c = .ok (l.foldl (fun c e => c.insert e.1 e.2.reread) c) := by
  induction l generalizing c with
  | nil => rfl
  | cons e more ih =>
      have first : restore c e = .ok (c.insert e.1 e.2.reread) :=
        if_pos (finite e List.mem_cons_self)
      rw [List.foldlM_cons, first]
      exact ih (fun e member => finite e (List.mem_cons_of_mem _ member)) _

theorem foldlM_restore_unfit {l : List (String × Value)}
    (infinite : ¬∀ e ∈ l, e.2.isFinite = true) (c : Config) :
    l.foldlM restore c = .error .unfit := by
  induction l generalizing c with
  | nil => exact absurd nofun infinite
  | cons e more ih =>
      rw [List.foldlM_cons]
      by_cases first : e.2.isFinite = true
      · have step : restore c e = .ok (c.insert e.1 e.2.reread) := if_pos first
        rw [step]
        refine ih (fun rest => infinite fun d member => ?_) _
        rcases List.mem_cons.mp member with rfl | later
        · exact first
        · exact rest d later
      · have step : restore c e = .error .unfit := if_neg first
        rw [step]
        rfl

theorem insert_reread (c : Config) :
    c.entries.foldl (fun c e => c.insert e.1 e.2.reread) .empty = c.reread := by
  have mapped : c.reread.entries = c.entries.map fun e => (e.1, e.2.reread) := rfl
  rw [← Catalog.ofList_entries c.reread, mapped, Catalog.ofList, List.foldl_map]

/-- What is read equals what was written if and only if all numbers come back. -/
theorem same_iff_steady {c : Config} (finite : c.Finite) :
    c.reread.same c = true ↔ c.Steady := by
  have pairs {l : List (String × Value)} (finite : ∀ e ∈ l, e.2.isFinite = true) :
      ((l.map fun e => (e.1, e.2.reread)).zip l).all
        (fun p => p.1.1 == p.2.1 && p.1.2.same p.2.2) = true ↔ ∀ e ∈ l, e.2.Steady := by
    induction l with
    | nil => simp
    | cons e more ih =>
        obtain ⟨first, later⟩ := List.forall_mem_cons.mp finite
        rw [List.map_cons, List.zip_cons_cons, List.all_cons, Bool.and_eq_true, ih later,
          List.forall_mem_cons, ← Value.same_iff_steady first]
        simp
  have sizes : c.reread.size = c.size := List.length_map _
  unfold same
  rw [sizes, beq_self_eq_true, Bool.true_and]
  exact pairs finite

/-! ## Documents -/

section

variable {s : Json.Spacing}

theorem read_writeObject (blank : s.Blank) (c : Config) (rest : Input) :
    read ((Json.writeObject s c.members).map .char ++ rest) =
      (c.entries.foldlM restore .empty).bind fun d =>
        if (Json.skipSpace rest).isEmpty then .ok d else .error .malformed :=
  Json.object_write blank (fun e _ => reads_member blank e) _ _

theorem parse_written (blank : s.Blank) (c : Config) :
    parse (String.ofList (Json.writeObject s c.members)) =
      if c.Finite then .ok c.reread else .error .unfit := by
  have read := read_writeObject blank c []
  rw [List.append_nil] at read
  unfold parse Text.glyphs
  rw [String.toList_ofList, read]
  by_cases finite : c.Finite
  · rw [foldlM_restore finite, insert_reread, if_pos finite]
    rfl
  · rw [foldlM_restore_unfit finite, if_neg finite]
    rfl

theorem parse_document (c : Config) :
    parse c.document = if c.Finite then .ok c.reread else .error .unfit :=
  parse_written Json.blank_pretty c

theorem parse_compact (c : Config) :
    parse c.compact = if c.Finite then .ok c.reread else .error .unfit :=
  parse_written Json.blank_compact c

/-- A member stands in a document with this text, which ends where the member ends. -/
def HasMember (s : Json.Spacing) (document key : String) (text : List Char) : Prop :=
  ∃ before after, document.toList = before ++ (Json.writeMember s key text ++ after) ∧
    (after.head? = some ',' ∨ after = s.beforeEnd ++ ['}'])

theorem hasMember_written (s : Json.Spacing) {members : List (String × List Char)}
    {key : String} {text : List Char} (member : (key, text) ∈ members) :
    HasMember s (String.ofList (Json.writeObject s members)) key text := by
  have inside : ∃ before after, Json.writeMembers s members ++ (s.beforeEnd ++ ['}']) =
      before ++ (Json.writeMember s key text ++ after) ∧
        (after.head? = some ',' ∨ after = s.beforeEnd ++ ['}']) := by
    induction members with
    | nil => cases member
    | cons first more ih =>
        cases more with
        | nil =>
            obtain rfl := List.mem_singleton.mp member
            exact ⟨[], _, rfl, .inr rfl⟩
        | cons second more =>
            have written : Json.writeMembers s (first :: second :: more) =
                Json.writeMember s first.1 first.2 ++
                  ',' :: Json.writeMembers s (second :: more) := rfl
            rw [written, List.append_assoc]
            rcases List.mem_cons.mp member with rfl | later
            · exact ⟨[], _, rfl, .inl rfl⟩
            · obtain ⟨before, after, rest, ends⟩ := ih later
              refine ⟨Json.writeMember s first.1 first.2 ++ ',' :: before, after, ?_, ends⟩
              rw [List.cons_append, rest, List.append_assoc]
              rfl
  obtain ⟨before, after, written, ends⟩ := inside
  refine ⟨'{' :: before, after, ?_, ends⟩
  have nonempty : members.isEmpty = false := by
    cases members with
    | nil => cases member
    | cons => rfl
  rw [String.toList_ofList, List.cons_append, ← written, ← List.append_assoc]
  unfold Json.writeObject
  rw [nonempty]
  rfl

end

/-- A configuration of finite numbers is read back from its document and from what is posted of it,
as a configuration that is equal to it if and only if all numbers come back. A whole number of at
most two to the 53rd stands in both as an integer. A configuration with a number that is not finite
has a document that does not fit. -/
theorem document_reads_back_if_finite (c : Config) :
    (c.Finite → ∃ d, parse c.document = .ok d ∧ parse c.compact = .ok d ∧
      (d.same c = true ↔ c.Steady) ∧
      ∀ address posted, Http.sent address (.saveConfig c) = some posted →
        parse posted.body = .ok d) ∧
    (∀ address path,
      Address.target? (Http.baseUrl address ++ (Request.saveConfig c).endpoint.path) = some path →
        Http.sent address (.saveConfig c) =
          some ⟨"POST", path, some "application/json", c.compact⟩) ∧
    (∀ key x (negative : Bool) n, (key, .number x) ∈ c.entries → x.IsWhole negative n → n ≤ 2 ^ 53 →
      let literal := (if negative ∧ n ≠ 0 then ['-'] else []) ++ Decimal.digits n
      HasMember Json.pretty c.document key literal ∧
        HasMember Json.compact c.compact key literal ∧
        ∀ digit ∈ Decimal.digits n, digit.isDigit = true) ∧
    (¬c.Finite → parse c.document = .error .unfit ∧ parse c.compact = .error .unfit) := by
  refine ⟨?_, ?_, ?_, ?_⟩
  · intro finite
    have document : parse c.document = .ok c.reread := (parse_document c).trans (if_pos finite)
    have compact : parse c.compact = .ok c.reread := (parse_compact c).trans (if_pos finite)
    refine ⟨c.reread, document, compact, same_iff_steady finite, ?_⟩
    intro address posted sent
    obtain ⟨path, -, rfl⟩ := Option.map_eq_some_iff.mp sent
    exact compact
  · intro address path found
    unfold Http.sent
    rw [found]
    rfl
  · intro key x negative n member whole small
    have text : (key, (if negative ∧ n ≠ 0 then ['-'] else []) ++ Decimal.digits n) ∈
        c.members := by
      refine List.mem_map.mpr ⟨(key, .number x), member, ?_⟩
      exact congrArg _ (Json.writeDouble_whole whole small)
    exact ⟨hasMember_written _ text, hasMember_written _ text, Decimal.areDigits_digits n⟩
  · intro infinite
    exact ⟨(parse_document c).trans (if_neg infinite), (parse_compact c).trans (if_neg infinite)⟩

/-- A name with a quote, a backslash and a control in it, a tenth, and a zero with a sign, which are
posted to a server; and a number that is not finite. -/
theorem odd_options_read_back :
    let c : Config := .ofList [("a \"b\\\x01", .text "✓\n"),
      ("zero", .number (.ofDecimal ⟨true, 0, 0⟩)), ("tenth", .number (.ofDecimal ⟨false, 1, -1⟩))]
    let d : Config := .ofList [("x", .number (.infinite false))]
    (c.Finite ∧ c.Steady ∧ ∃ body, Http.sent ":8080/" (.saveConfig c) =
        some ⟨"POST", "/api/config", some "application/json", body⟩ ∧
      ∃ read, parse c.document = .ok read ∧ parse body = .ok read ∧ read.same c = true) ∧
    ¬d.Finite ∧ parse d.document = .error .unfit := by
  intro c d
  have finite : c.Finite := by decide +kernel
  have steady : c.Steady := by decide +kernel
  have infinite : ¬d.Finite := by decide +kernel
  have there : Address.target? (Http.baseUrl ":8080/" ++ Endpoint.config.path) =
      some "/api/config" := by decide +kernel
  obtain ⟨reads, posts, -⟩ := document_reads_back_if_finite c
  obtain ⟨-, -, -, unfit⟩ := document_reads_back_if_finite d
  obtain ⟨read, document, compact, same, -⟩ := reads finite
  have sent := posts ":8080/" "/api/config" there
  exact ⟨⟨finite, steady, c.compact, sent, read, document, compact, same.mpr steady⟩, infinite,
    (unfit infinite).1⟩

end Config

end EngineConsole
