import EngineConsole.Proofs.Json.Scalars

/-!
# Objects of the grammar

A reader of members that takes scalars only reads the documents of the grammar that are objects of
scalars, and no other texts. What it makes of one is the fold of its step over the members of the
tree, in the order in which they stand there.
-/

set_option autoImplicit false

namespace EngineConsole.Json

open Text (Glyph ofUnits?)

/-! ## Tokens between members -/

theorem colon_spells {input rest : Input} (read : colon input = .ok rest) :
    ∃ space, AreBlank space ∧ input = space.map .char ++ .char ':' :: rest := by
  obtain ⟨space, blank, spells⟩ := skipSpace_spells input
  refine ⟨space, blank, ?_⟩
  unfold colon at read
  split at read
  next => cases read
  next g more first =>
    split at read
    next same =>
      cases read
      rw [first, same] at spells
      exact spells
    next => cases read

theorem brace_spells {input rest : Input} (read : token input = .ok (.opening .object, rest)) :
    ∃ space, AreBlank space ∧ input = space.map .char ++ .char '{' :: rest := by
  obtain ⟨space, blank, spells⟩ := skipSpace_spells input
  refine ⟨space, blank, ?_⟩
  unfold token at read
  split at read
  next => cases read
  next => cases read
  next c more first =>
    rw [first] at spells
    split at read
    next =>
      cases read
      exact spells
    next => cases read
    iterate 4
      · obtain ⟨_, -, read⟩ := bind_ok read
        cases read
    next =>
      split at read
      next =>
        obtain ⟨_, -, read⟩ := bind_ok read
        dsimp only at read
        split at read <;> cases read
      next => cases read

section

variable {σ : Type}

theorem members_done_spaced {member : σ → String → Input → Except Flaw (σ × Input)}
    {space : List Char} (blank : AreBlank space) (state : σ) (input : Input) :
    members member state .done (space.map .char ++ input) = members member state .done input := by
  rw [members.eq_def, members.eq_def member state .done input, skipSpace_append blank]
  cases visible : skipSpace input with
  | nil => rfl
  | cons g rest =>
      obtain ⟨space', -, spells⟩ := skipSpace_spells input
      have shorter : rest.length < input.length := by
        rw [spells, visible, List.length_append, List.length_cons]
        omega
      have shorter' : rest.length < (space.map Glyph.char ++ input).length := by
        rw [List.length_append]
        omega
      dsimp only
      rw [if_pos shorter, if_pos shorter', if_pos rfl, if_pos rfl]

/-- The reader of a member reads one scalar and does a step with it, if it can. -/
def ReadsScalars (member : σ → String → Input → Except Flaw (σ × Input))
    (step : σ → String → Scalar → Option σ) : Prop :=
  ∀ {state key input state' rest}, member state key input = .ok (state', rest) ↔
    ∃ inner s, colon input = .ok inner ∧ token inner = .ok (.scalar s, rest) ∧
      step state key s = some state'

/-- The step with a member of a tree: its name must be a text and its value a scalar. -/
def take (step : σ → String → Scalar → Option σ) (state : σ) (m : List Nat × Tree) : Option σ :=
  (ofUnits? m.1).bind fun name => m.2.scalar?.bind (step state (String.ofList name))

def Tree.members? : Tree → Option (List (List Nat × Tree))
  | .object ms => some ms
  | _ => none

variable {member : σ → String → Input → Except Flaw (σ × Input)}
  {step : σ → String → Scalar → Option σ} (reads : ReadsScalars member step)

include reads

/-! ## What stands there is read -/

theorem ReadsScalars.value {space before cs : List Char} {tree : Tree} (blank : AreBlank space)
    (blankBefore : AreBlank before) (value : IsValue cs tree) {rest : Input} (ends : Ends rest)
    (state : σ) (key : String) :
    (member state key ((space ++ ':' :: (before ++ cs)).map .char ++ rest)).toOption =
      (tree.scalar?.bind (step state key)).map (·, rest) := by
  have colon : colon ((space ++ ':' :: (before ++ cs)).map .char ++ rest) =
      .ok (before.map .char ++ (cs.map .char ++ rest)) := by
    rw [← colon_spaced blank]
    simp
  refine Option.ext fun ⟨state', after⟩ => ?_
  rw [← ok_iff, reads, Option.map_eq_some_iff]
  constructor
  · rintro ⟨inner, s, read, found, stepped⟩
    rw [colon] at read
    cases read
    rw [token_blank blankBefore] at found
    obtain ⟨scalar, rfl⟩ := (token_scalar value ends).mp found
    exact ⟨state', by rw [scalar]; exact stepped, rfl⟩
  · rintro ⟨_, taken, ⟨⟩⟩
    obtain ⟨s, scalar, stepped⟩ := Option.bind_eq_some_iff.mp taken
    refine ⟨_, s, colon, ?_, stepped⟩
    rw [token_blank blankBefore]
    exact (token_scalar value ends).mpr ⟨scalar, rfl⟩

theorem ReadsScalars.named {cs : List Char} {m : List Nat × Tree} (item : Named IsValue cs m)
    {rest : Input} (ends : Ends rest) (state : σ) {spot : Spot} (awaits : spot ≠ .done) :
    (members member state spot (cs.map .char ++ rest)).toOption =
      (take step state m).bind fun state => (members member state .done rest).toOption := by
  obtain @⟨space, name, space', _, us, tree, blank, body, blank', ⟨before, value, after⟩⟩ := item
  next first cs last =>
  let inner : Input := last.map .char ++ rest
  let item : Input := (space' ++ ':' :: (first ++ cs)).map .char ++ inner
  have written : (space ++ '"' :: (name ++ '"' ::
      (space' ++ ':' :: (first ++ (cs ++ last))))).map Glyph.char ++ rest =
        space.map .char ++ .char '"' :: ((name ++ ['"']).map .char ++ item) := by
    simp [item, inner]
  have shorter : inner.length < (space.map Glyph.char ++
      .char '"' :: ((name ++ ['"']).map Glyph.char ++ item)).length := by
    simp only [item, List.length_append, List.length_cons, List.length_map]
    omega
  rw [written, members_quote blank state awaits, toOption_bind, string_body body item,
    Option.bind_map, take, Option.bind_assoc]
  refine Option.bind_congr fun key _ => ?_
  have one := reads.value blank' before value (ends_spaced after ends) state (String.ofList key)
  dsimp only [Function.comp_apply]
  rw [toOption_bind, one, Option.bind_map]
  refine Option.bind_congr fun next _ => ?_
  refine congrArg Except.toOption ((if_pos shorter).trans ?_)
  exact members_done_spaced after next rest

theorem ReadsScalars.listed {cs : List Char} {ms : List (List Nat × Tree)}
    (inside : Listed (Named IsValue) cs ms) (state : σ) {spot : Spot} (awaits : spot ≠ .done)
    (rest : Input) :
    (members member state spot ((cs ++ ['}']).map .char ++ rest)).toOption =
      (ms.foldlM (take step) state).map (·, rest) := by
  induction inside generalizing state spot with
  | @one cs m item =>
      have ending : (cs ++ ['}']).map Glyph.char ++ rest = cs.map .char ++ .char '}' :: rest := by
        simp
      rw [ending, reads.named item (ends_brace rest) state awaits, List.foldlM_cons]
      cases take step state m with
      | none => rfl
      | some next =>
          exact congrArg Except.toOption
            (members_end blank_nil next (show Spot.done ≠ .next by decide) rest)
  | @more cs cs' m ms item _ ih =>
      have ending : (cs ++ ',' :: cs' ++ ['}']).map Glyph.char ++ rest =
          cs.map .char ++ .char ',' :: ((cs' ++ ['}']).map .char ++ rest) := by
        simp
      rw [ending, reads.named item (ends_comma _) state awaits, List.foldlM_cons]
      cases take step state m with
      | none => rfl
      | some next =>
          exact (congrArg Except.toOption (members_comma next _)).trans (ih next (by decide))

omit reads in
theorem finish_spaced {space : List Char} (blank : AreBlank space)
    {result : Except Flaw (σ × Input)} {o : Option σ}
    (read : result.toOption = o.map (·, space.map .char)) : (finish result).toOption = o := by
  rw [finish, toOption_bind, read]
  cases o with
  | none => rfl
  | some s =>
      dsimp only [Option.map_some, Option.bind_some]
      rw [skipSpace_blank blank]
      rfl

/-- A document is read member by member, if it is an object. -/
theorem ReadsScalars.document {cs : List Char} {tree : Tree} (document : IsDocument cs tree)
    (state : σ) :
    (object member state (cs.map .char)).toOption =
      tree.members?.bind fun ms => ms.foldlM (take step) state := by
  obtain @⟨space, cs, space', _, blank, value, blank'⟩ := document
  rw [object, toOption_bind, List.map_append, List.map_append, token_blank blank,
    token_value value (ends_blank blank')]
  have opened {inside : List Char} {ms : List (List Nat × Tree)}
      (all : (members member state .opened ((inside ++ ['}']).map .char ++
        space'.map .char)).toOption = (ms.foldlM (take step) state).map (·, space'.map .char)) :
      (finish (members member state .opened ((inside ++ ['}']).map .char ++
        space'.map .char))).toOption = ms.foldlM (take step) state := finish_spaced blank' all
  unfold Tree.begun
  cases value with
  | null | true | false | list | emptyList => rfl
  | @number s =>
      dsimp only
      cases (Tree.number s.numeral).scalar? <;> rfl
  | @text body us =>
      dsimp only
      cases (Tree.text us).scalar? <;> rfl
  | emptyObject inside =>
      exact opened (congrArg Except.toOption (members_end inside state (by decide) _))
  | object inside => exact opened (reads.listed inside state (by decide) _)

/-! ## What is read stands there -/

/-- What may stand between a spot and the closing brace. -/
inductive Onward : Spot → List Char → List (List Nat × Tree) → Prop
  | close {spot : Spot} {space : List Char} (closes : spot ≠ .next) (blank : AreBlank space) :
      Onward spot space []
  | names {spot : Spot} {cs : List Char} {ms : List (List Nat × Tree)} (awaits : spot ≠ .done)
      (listed : Listed (Named IsValue) cs ms) : Onward spot cs ms
  | comma {space cs : List Char} {ms : List (List Nat × Tree)} (blank : AreBlank space)
      (listed : Listed (Named IsValue) cs ms) : Onward .done (space ++ ',' :: cs) ms

omit reads in
/-- A member in front of what may stand after one. -/
theorem Onward.preceded {spot : Spot} (due : spot ≠ .done)
    {space name space' before text cs : List Char} {us : List Nat} {tree : Tree}
    {ms : List (List Nat × Tree)} (blank : AreBlank space) (body : IsBody name us)
    (blank' : AreBlank space') (blankBefore : AreBlank before) (value : IsValue text tree)
    (onward : Onward .done cs ms) :
    Onward spot (space ++ '"' :: (name ++ '"' :: (space' ++ ':' :: (before ++ (text ++ cs)))))
      ((us, tree) :: ms) := by
  have item {last : List Char} (blankAfter : AreBlank last) : Named IsValue _ (us, tree) :=
    .intro blank body blank' (.intro blankBefore value blankAfter)
  cases onward with
  | close _ blankAfter => exact .names due (.one (item blankAfter))
  | names awaits => exact absurd rfl awaits
  | comma blankAfter listed =>
      have more := Listed.more (item blankAfter) listed
      exact .names due (by simpa using more)

theorem ReadsScalars.value_spells {state state' : σ} {key : String} {input rest : Input}
    (read : member state key input = .ok (state', rest)) :
    ∃ space before cs tree, AreBlank space ∧ AreBlank before ∧ IsValue cs tree ∧
      tree.scalar?.bind (step state key) = some state' ∧
        input = (space ++ ':' :: (before ++ cs)).map .char ++ rest := by
  obtain ⟨inner, s, colon, token, stepped⟩ := reads.mp read
  obtain ⟨space, blank, rfl⟩ := colon_spells colon
  obtain ⟨before, cs, tree, blank', value, scalar, rfl⟩ := token_spells token
  refine ⟨space, before, cs, tree, blank, blank', value, ?_, by simp⟩
  rw [scalar]
  exact stepped

theorem ReadsScalars.spells {state state' : σ} {spot : Spot} {input rest : Input}
    (read : members member state spot input = .ok (state', rest)) :
    ∃ cs ms, Onward spot cs ms ∧ ms.foldlM (take step) state = some state' ∧
      input = (cs ++ ['}']).map .char ++ rest := by
  induction state, spot, input using members.induct generalizing state' rest with
  | case1 state spot input none =>
      rw [members, none] at read
      cases read
  | case2 state spot input g after head closing =>
      rw [members, head] at read
      dsimp only at read
      rw [if_pos closing] at read
      cases read
      obtain ⟨rfl, closes⟩ := closing
      obtain ⟨space, blank, spells⟩ := skipSpace_spells input
      refine ⟨space, [], .close closes blank, rfl, ?_⟩
      rw [spells, head]
      simp
  | case3 state input after shorter head goesOn ih =>
      rw [members, head] at read
      dsimp only at read
      rw [if_neg goesOn, if_pos rfl, if_pos rfl, if_pos shorter] at read
      obtain ⟨cs, ms, onward, taken, same⟩ := ih read
      obtain ⟨space, blank, spells⟩ := skipSpace_spells input
      cases onward with
      | close closes => exact absurd rfl closes
      | names awaits listed =>
          refine ⟨space ++ ',' :: cs, ms, .comma blank listed, taken, ?_⟩
          rw [spells, head, same]
          simp
  | case4 state input after longer head goesOn =>
      rw [members, head] at read
      dsimp only at read
      rw [if_neg goesOn, if_pos rfl, if_pos rfl, if_neg longer] at read
      cases read
  | case5 state input g after head other goesOn =>
      rw [members, head] at read
      dsimp only at read
      rw [if_neg goesOn, if_pos rfl, if_neg other] at read
      cases read
  | case6 state spot input after due head goesOn ih =>
      rw [members, head] at read
      dsimp only at read
      rw [if_neg goesOn, if_neg due, if_pos rfl] at read
      obtain ⟨⟨key, afterKey⟩, string, read⟩ := bind_ok read
      obtain ⟨⟨next, afterValue⟩, one, read⟩ := bind_ok read
      split at read
      next shorter =>
        obtain ⟨cs, ms, onward, taken, same⟩ := ih _ _ shorter read
        obtain ⟨space, blank, spells⟩ := skipSpace_spells input
        obtain ⟨name, body, named⟩ := string_spells string
        obtain ⟨space', before, text, tree, blank', blankBefore, value, stepped, valued⟩ :=
          reads.value_spells one
        dsimp only at named valued same
        have all : ((Text.units key, tree) :: ms).foldlM (take step) state = some state' := by
          rw [List.foldlM_cons, take, Text.ofUnits?_units]
          dsimp only [Option.bind_some]
          rw [stepped]
          exact taken
        refine ⟨_, _, onward.preceded due blank body blank' blankBefore value, all, ?_⟩
        rw [spells, head, named, valued, same]
        simp
      next => cases read
  | case7 state spot input g after head goesOn due other =>
      rw [members, head] at read
      dsimp only at read
      rw [if_neg goesOn, if_neg due, if_neg other] at read
      cases read

/-- Whatever is read as an object is a document of the grammar. -/
theorem ReadsScalars.document_spells {state state' : σ} {input : Input}
    (read : object member state input = .ok state') :
    ∃ cs ms, IsDocument cs (.object ms) ∧ ms.foldlM (take step) state = some state' ∧
      input = cs.map .char := by
  unfold object at read
  obtain ⟨⟨t, inside⟩, first, read⟩ := bind_ok read
  dsimp only at read
  split at read
  next =>
    unfold finish at read
    obtain ⟨⟨all, after⟩, found, read⟩ := bind_ok read
    dsimp only at read
    split at read
    next empty =>
      cases read
      obtain ⟨space, blank, rfl⟩ := brace_spells first
      obtain ⟨cs, ms, onward, taken, rfl⟩ := reads.spells found
      obtain ⟨space', blank', spells⟩ := skipSpace_spells after
      rw [List.isEmpty_iff.mp empty, List.append_nil] at spells
      have document {text : List Char} (value : IsValue ('{' :: (text ++ ['}'])) (.object ms)) :
          IsDocument (space ++ ('{' :: (text ++ ['}']) ++ space')) (.object ms) :=
        .intro blank value blank'
      rw [spells]
      cases onward with
      | close _ blankInside => exact ⟨_, _, document (.emptyObject blankInside), taken, by simp⟩
      | names _ listed => exact ⟨_, _, document (.object listed), taken, by simp⟩
    next => cases read
  next => cases read

end

end EngineConsole.Json
