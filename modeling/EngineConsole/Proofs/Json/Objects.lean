import EngineConsole.Proofs.Json.Tokens

/-!
# Objects read back

An object that was written is read member by member, in the order in which it was written and
whatever the spacing. What reading does with a member is left open: the whole reading is the fold
of it over the members, and so is the first flaw.
-/

set_option autoImplicit false

namespace EngineConsole.Json

open Text (Glyph)

/-! ## Spacing -/

/-- What stands between the tokens is blank. -/
structure Spacing.Blank (s : Spacing) : Prop where
  beforeMember : AreBlank s.beforeMember
  afterColon : AreBlank s.afterColon
  beforeEnd : AreBlank s.beforeEnd

theorem blank_compact : compact.Blank :=
  ⟨nofun, nofun, nofun⟩

theorem areBlank_of_all {cs : List Char} (all : cs.all isSpace = true) : AreBlank cs :=
  List.all_eq_true.mp all

theorem blank_pretty : pretty.Blank :=
  ⟨areBlank_of_all rfl, areBlank_of_all rfl, areBlank_of_all rfl⟩

theorem ends_comma (rest : Input) : Ends (.char ',' :: rest) := by
  rintro c ⟨⟩
  decide

theorem ends_spaced {space : List Char} (blank : AreBlank space) {rest : Input} (ends : Ends rest) :
    Ends (space.map .char ++ rest) := by
  refine head_map_append ?_ fun _ => ends
  intro c head
  exact ends_of_space (blank c (List.mem_of_mem_head? head))

theorem ends_brace (rest : Input) : Ends (.char '}' :: rest) := by
  rintro c ⟨⟩
  decide

theorem ends_blank {space : List Char} (blank : AreBlank space) : Ends (space.map .char) := by
  have spaced := ends_spaced blank ends_nil
  rwa [List.append_nil] at spaced

theorem ends_closing {s : Spacing} (blank : s.Blank) (rest : Input) :
    Ends ((s.beforeEnd ++ ['}']).map .char ++ rest) := by
  rw [List.map_append, List.append_assoc]
  exact ends_spaced blank.beforeEnd (ends_brace rest)

/-! ## Members -/

section

variable {σ α : Type} {member : σ → String → Input → Except Flaw (σ × Input)} {s : Spacing}
  {text : α → List Char} {step : σ → String × α → Except Flaw σ}

/-- The reader of a member reads what was written for an entry, doing a step with it. -/
def Reads (member : σ → String → Input → Except Flaw (σ × Input)) (s : Spacing)
    (text : α → List Char) (step : σ → String × α → Except Flaw σ) (entry : String × α) : Prop :=
  ∀ state rest, Ends rest →
    member state entry.1 ((':' :: (s.afterColon ++ text entry.2)).map .char ++ rest) =
      (step state entry).map (·, rest)

theorem members_end {space : List Char} (blank : AreBlank space) (state : σ) {spot : Spot}
    (closes : spot ≠ .next) (rest : Input) :
    members member state spot ((space ++ ['}']).map .char ++ rest) = .ok (state, rest) := by
  have visible : skipSpace ((space ++ ['}']).map .char ++ rest) = .char '}' :: rest := by
    rw [List.map_append, List.append_assoc, skipSpace_append blank]
    exact skipSpace_char rfl rest
  rw [members.eq_def, visible]
  exact if_pos ⟨rfl, closes⟩

theorem members_comma (state : σ) (rest : Input) :
    members member state .done (.char ',' :: rest) = members member state .next rest := by
  rw [members.eq_def, skipSpace_char rfl]
  dsimp only
  rw [if_neg (by simp), if_pos rfl, if_pos rfl]
  exact if_pos (Nat.lt_succ_self _)

theorem members_quote {space : List Char} (blank : AreBlank space) (state : σ) {spot : Spot}
    (awaits : spot ≠ .done) (rest : Input) :
    members member state spot (space.map .char ++ .char '"' :: rest) = (do
      let (key, after) ← string rest
      let (state, after) ← member state (String.ofList key) after
      if after.length < (space.map Glyph.char ++ .char '"' :: rest).length then
        members member state .done after
      else .error .malformed) := by
  rw [members.eq_def, skipSpace_append blank, skipSpace_char rfl]
  dsimp only
  rw [if_neg (by simp), if_neg awaits, if_pos rfl]

theorem members_member {entry : String × α} (blank : s.Blank)
    (reads : Reads member s text step entry) (state : σ) {spot : Spot} (awaits : spot ≠ .done)
    {rest : Input} (ends : Ends rest) :
    members member state spot ((writeMember s entry.1 (text entry.2)).map .char ++ rest) =
      (step state entry).bind fun state => members member state .done rest := by
  obtain ⟨key, value⟩ := entry
  let item : Input := (':' :: (s.afterColon ++ text value)).map .char ++ rest
  have written : (writeMember s key (text value)).map Glyph.char ++ rest =
      s.beforeMember.map .char ++
        .char '"' :: ((key.toList.flatMap writeChar ++ ['"']).map .char ++ item) := by
    simp [writeMember, writeString, item]
  have shorter : rest.length < (s.beforeMember.map Glyph.char ++
      .char '"' :: ((key.toList.flatMap writeChar ++ ['"']).map Glyph.char ++ item)).length := by
    simp only [item, List.length_append, List.length_cons, List.length_map]
    omega
  have read := reads state rest ends
  rw [written, members_quote blank.beforeMember state awaits, string_write]
  dsimp only [bind, Except.bind]
  rw [String.ofList_toList, read]
  cases step state (key, value) with
  | error flaw => rfl
  | ok next => exact if_pos shorter

theorem members_write (blank : s.Blank) {l : List (String × α)} (nonempty : l ≠ [])
    (reads : ∀ entry ∈ l, Reads member s text step entry) (state : σ) {spot : Spot}
    (awaits : spot ≠ .done) (rest : Input) :
    members member state spot ((writeMembers s (l.map fun e => (e.1, text e.2)) ++
        (s.beforeEnd ++ ['}'])).map .char ++ rest) =
      (l.foldlM step state).map (·, rest) := by
  induction l generalizing state spot with
  | nil => exact absurd rfl nonempty
  | cons entry more ih =>
      have first := reads entry List.mem_cons_self
      cases more with
      | nil =>
          rw [List.map_cons, List.map_nil, writeMembers, List.map_append, List.append_assoc,
            members_member blank first state awaits (ends_closing blank rest)]
          simp only [List.foldlM_cons, List.foldlM_nil]
          cases step state entry with
          | error flaw => rfl
          | ok next => exact members_end blank.beforeEnd next (by decide) rest
      | cons other more =>
          have later := fun state => ih (List.cons_ne_nil _ _)
            (fun entry member => reads entry (List.mem_cons_of_mem _ member)) state
            (show Spot.next ≠ .done by decide)
          have written : writeMembers s ((entry :: other :: more).map fun e => (e.1, text e.2)) =
              writeMember s entry.1 (text entry.2) ++
                ',' :: writeMembers s ((other :: more).map fun e => (e.1, text e.2)) := rfl
          rw [written, List.append_assoc, List.map_append, List.append_assoc, List.cons_append,
            List.map_cons, List.cons_append,
            members_member blank first state awaits (ends_comma _), List.foldlM_cons]
          cases step state entry with
          | error flaw => rfl
          | ok next => exact (members_comma next _).trans (later next)

/-- Reading an object that was written folds the step over its entries; what follows the object
must be blank. -/
theorem object_write (blank : s.Blank) {l : List (String × α)}
    (reads : ∀ entry ∈ l, Reads member s text step entry) (state : σ) (rest : Input) :
    object member state ((writeObject s (l.map fun e => (e.1, text e.2))).map .char ++ rest) =
      (l.foldlM step state).bind fun state =>
        if (skipSpace rest).isEmpty then .ok state else .error .malformed := by
  generalize written : writeObject s (l.map fun e => (e.1, text e.2)) = cs
  have all : members member state .opened ((cs.drop 1).map .char ++ rest) =
      (l.foldlM step state).map (·, rest) := by
    rw [← written]
    cases l with
    | nil =>
        rw [members.eq_def]
        rfl
    | cons entry more =>
        have inner := members_write blank (List.cons_ne_nil _ _) reads state
          (show Spot.opened ≠ .done by decide) rest
        rw [← List.append_assoc] at inner
        exact inner
  have opens : cs.map Glyph.char ++ rest = .char '{' :: ((cs.drop 1).map .char ++ rest) := by
    rw [← written]
    unfold writeObject
    split <;> rfl
  unfold object
  rw [opens, token_brace]
  dsimp only [bind, Except.bind]
  rw [all]
  cases l.foldlM step state <;> rfl

end

/-! ## What reading preserves -/

theorem bind_ok {α β : Type} {x : Except Flaw α} {f : α → Except Flaw β} {b : β}
    (went : (x >>= f) = .ok b) : ∃ a, x = .ok a ∧ f a = .ok b := by
  cases x with
  | error flaw => cases went
  | ok a => exact ⟨a, rfl, went⟩

section

variable {σ : Type} {member : σ → String → Input → Except Flaw (σ × Input)} {P : σ → Prop}
  {state state' : σ} {spot : Spot} {input rest : Input}

theorem members_keep
    (keeps : ∀ s key i s' r, P s → member s key i = .ok (s', r) → P s')
    (read : members member state spot input = .ok (state', rest)) (start : P state) :
    P state' := by
  induction state, spot, input using members.induct generalizing state' rest with
  | case1 state spot input none =>
      rw [members, none] at read
      cases read
  | case2 state spot input g after head closing =>
      rw [members, head] at read
      dsimp only at read
      rw [if_pos closing] at read
      cases read
      exact start
  | case3 state input after shorter head goesOn ih =>
      rw [members, head] at read
      dsimp only at read
      rw [if_neg goesOn, if_pos rfl, if_pos rfl, if_pos shorter] at read
      exact ih read start
  | case4 state input after longer head goesOn =>
      rw [members, head] at read
      dsimp only at read
      rw [if_neg goesOn, if_pos rfl, if_pos rfl, if_neg longer] at read
      cases read
  | case5 state input g after head other goesOn =>
      rw [members, head] at read
      dsimp only at read
      rw [if_neg goesOn, if_pos rfl, if_neg other] at read
      cases read
  | case6 state spot input after due head goesOn ih =>
      rw [members, head] at read
      dsimp only at read
      rw [if_neg goesOn, if_neg due, if_pos rfl] at read
      obtain ⟨key, -, read⟩ := bind_ok read
      obtain ⟨next, one, read⟩ := bind_ok read
      split at read
      next shorter => exact ih _ _ shorter read (keeps _ _ _ _ _ start one)
      next => cases read
  | case7 state spot input g after head goesOn due other =>
      rw [members, head] at read
      dsimp only at read
      rw [if_neg goesOn, if_neg due, if_neg other] at read
      cases read

/-- What reading a member preserves is true of what an object is read as. -/
theorem object_keeps
    (keeps : ∀ s key i s' r, P s → member s key i = .ok (s', r) → P s')
    (read : object member state input = .ok state') (start : P state) : P state' := by
  unfold object at read
  obtain ⟨⟨t, inside⟩, -, read⟩ := bind_ok read
  dsimp only at read
  split at read
  next =>
    unfold finish at read
    obtain ⟨⟨whole, after⟩, found, read⟩ := bind_ok read
    dsimp only at read
    split at read
    · cases read
      exact members_keep keeps found start
    · cases read
  next => cases read

end

end EngineConsole.Json
