import EngineConsole.Proofs.FormEditing

/-!
# The history of a form

Fields are declared, typed into and shown values, in any order. Whatever is done concerns the one
field that it names, so what a field holds is told by the acts of that name alone: it is for what it
was last declared to be for, and what is refused leaves everything as it was.
-/

set_option autoImplicit false

namespace EngineConsole

namespace Form

/-! ## Acts -/

inductive Act where
  | declare (key : String) (kind : FieldKind)
  | edit (key raw : String)
  | put (key : String) (value : Value)

namespace Act

def key : Act → String
  | .declare key _ => key
  | .edit key _ => key
  | .put key _ => key

def declares? (key : String) : Act → Option FieldKind
  | .declare name kind => if name = key then some kind else none
  | .edit _ _ => none
  | .put _ _ => none

/-- What becomes of the field that an act names, or of its absence. -/
def upon (field : Option Field) : Act → Option Field
  | .declare _ kind => some (.blank kind)
  | .edit key raw => field.map fun old => (typed key old raw).toOption.getD old
  | .put _ value => field.map fun old => old.showing value

end Act

/-- Typing that is refused leaves the form as it is. -/
def perform (form : Form) : Act → Form
  | .declare key kind => form.declare key kind
  | .edit key raw => (form.edit key raw).toOption.getD form
  | .put key value => form.put key value

def after (acts : List Act) : Form :=
  acts.foldl perform .empty

theorem after_concat (acts : List Act) (act : Act) :
    after (acts ++ [act]) = (after acts).perform act :=
  List.foldl_concat _ _ _ _

/-! ## What an act comes to -/

variable {form : Form} {key raw : String}

/-- What a flag is given to understand. -/
def tickWord (raw : String) : String :=
  Text.lowerAscii (Text.trimmed raw)

theorem edit_of_field {field : Field} (declared : form.get? key = some field) :
    form.edit key raw = (typed key field raw).map fun new => form.update key fun _ => new := by
  unfold edit
  rw [declared]

theorem edit_of_none (unknown : form.get? key = none) :
    form.edit key raw = .error (.noSuchField key) := by
  unfold edit
  rw [unknown]

/-- What is typed is taken by the field alone, if it is there and takes it. -/
theorem perform_edit (form : Form) (key raw : String) :
    form.perform (.edit key raw) =
      form.update key fun old => (typed key old raw).toOption.getD old := by
  refine Catalog.ext_get? fun name => ?_
  rw [Catalog.get?_update]
  dsimp only [perform]
  cases declared : form.get? key with
  | none =>
      rw [edit_of_none declared]
      refine (ite_eq_right_iff.mpr ?_).symm
      rintro rfl
      rw [declared]
      exact declared.symm
  | some field =>
      rw [edit_of_field declared]
      cases accepted : typed key field raw with
      | error e =>
          refine (ite_eq_right_iff.mpr ?_).symm
          rintro rfl
          rw [declared, Option.map_some, accepted]
          exact declared.symm
      | ok new =>
          refine (Catalog.get?_update form key name fun _ => new).trans ?_
          refine ite_congr rfl ?_ fun _ => rfl
          rintro rfl
          rw [declared, Option.map_some, Option.map_some, accepted]
          rfl

theorem get?_perform (form : Form) (act : Act) (name : String) :
    (form.perform act).get? name =
      if name = act.key then act.upon (form.get? name) else form.get? name := by
  cases act with
  | declare key kind => exact Catalog.get?_insert form key name (.blank kind)
  | edit key raw =>
      rw [perform_edit]
      exact Catalog.get?_update form key name fun old => (typed key old raw).toOption.getD old
  | put key value => exact Catalog.get?_update form key name fun old => old.showing value

theorem typed_flag {ticked new : Bool} (ticks : Field.tick? (tickWord raw) = some new) :
    typed key (.flag ticked) raw = .ok (.flag new) := by
  unfold typed
  dsimp only
  rw [← tickWord, ticks]

theorem typed_flag_of_none {ticked : Bool} (none : Field.tick? (tickWord raw) = none) :
    typed key (.flag ticked) raw = .error (.notTick key (tickWord raw)) := by
  unfold typed
  dsimp only
  rw [← tickWord, none]

/-- Two things are refused: a field that was not declared, and a word that is no tick in a field for
ticks. -/
theorem edit_eq_error_iff {e : EditError} : form.edit key raw = .error e ↔
    (form.get? key = none ∧ e = .noSuchField key) ∨
      ∃ ticked, form.get? key = some (.flag ticked) ∧ Field.tick? (tickWord raw) = none ∧
        e = .notTick key (tickWord raw) := by
  cases declared : form.get? key with
  | none => simp [edit_of_none declared, eq_comm]
  | some field =>
      rw [edit_of_field declared]
      cases field with
      | number old | text old => simp [typed, Except.map]
      | flag ticked =>
          cases ticks : Field.tick? (tickWord raw) with
          | none => simp [typed_flag_of_none ticks, Except.map, eq_comm]
          | some new => simp [typed_flag ticks, Except.map]

/-- What each field is for is declared, and changed by nothing else. -/
theorem kind_perform (form : Form) (act : Act) (name : String) :
    ((form.perform act).get? name).map Field.kind =
      (act.declares? name).or ((form.get? name).map Field.kind) := by
  rw [get?_perform]
  by_cases named : name = act.key
  · subst named
    rw [if_pos rfl]
    cases act with
    | declare key kind => simp [Act.upon, Act.declares?, Act.key]
    | edit key raw =>
        have kept (old : Field) : ((typed key old raw).toOption.getD old).kind = old.kind := by
          cases accepted : typed key old raw with
          | error e => rfl
          | ok new => exact kind_typed accepted
        simp only [Act.upon, Option.map_map, Function.comp_def, kept]
        rfl
    | put key value =>
        simp only [Act.upon, Option.map_map, Function.comp_def, Field.kind_showing]
        rfl
  · have silent : act.declares? name = none := by
      cases act with
      | declare key kind => exact if_neg (Ne.symm named)
      | edit | put => rfl
    rw [if_neg named, silent, Option.none_or]

theorem kinds_perform {act : Act} (other : ∀ key kind, act ≠ .declare key kind) :
    (form.perform act).kinds = form.kinds := by
  refine Catalog.ext_get? fun name => ?_
  have silent : act.declares? name = none := by
    cases act with
    | declare key kind => exact absurd rfl (other key kind)
    | edit | put => rfl
  have kind := kind_perform form act name
  rw [silent, Option.none_or] at kind
  simpa only [kinds, Catalog.get?_map] using kind

theorem put_of_none {value : Value} (unknown : form.get? key = none) :
    form.put key value = form := by
  refine Catalog.ext_get? fun name => ?_
  rw [put, Catalog.get?_update]
  refine ite_eq_right_iff.mpr ?_
  rintro rfl
  rw [unknown]
  rfl

/-! ## What a history comes to -/

/-- Only what was done to a field matters to it. -/
theorem get?_after (acts : List Act) (key : String) :
    (after acts).get? key = (acts.filter fun act => act.key = key).foldl Act.upon none := by
  induction acts using List.reverseRecOn with
  | nil => rfl
  | append_singleton acts act ih =>
      rw [after_concat, get?_perform, ih, List.filter_append]
      by_cases named : key = act.key
      · simp [named]
      · simp [named, Ne.symm named]

/-- A field is for what it was last declared to be for. -/
theorem kind_after (acts : List Act) (key : String) :
    ((after acts).get? key).map Field.kind = (acts.filterMap (Act.declares? key)).getLast? := by
  induction acts using List.reverseRecOn with
  | nil => rfl
  | append_singleton acts act ih =>
      rw [after_concat, kind_perform, ih, List.filterMap_append, List.getLast?_append]
      cases declares : act.declares? key <;> simp [declares]

theorem mem_keys_after (acts : List Act) (key : String) :
    key ∈ (after acts).keys ↔ ∃ kind, .declare key kind ∈ acts := by
  have kinds := kind_after acts key
  rw [Catalog.mem_keys, Catalog.contains, ← Option.isSome_map (f := Field.kind), kinds,
    List.getLast?_isSome]
  simp only [ne_eq, List.filterMap_eq_nil_iff, not_forall]
  constructor
  · rintro ⟨act, member, declares⟩
    cases act with
    | declare name kind =>
        by_cases same : name = key
        · exact ⟨kind, same ▸ member⟩
        · exact absurd (if_neg same) declares
    | edit | put => exact absurd rfl declares
  · rintro ⟨kind, member⟩
    exact ⟨_, member, by simp [Act.declares?]⟩

/-- After any history the fields are those that were declared, in the order of their names, and each
is for what it was last declared to be for; nothing but a declaration makes it one for something
else. A declaration leaves a blank field, whatever was there. What is done to one field is nothing
to any other, so that each holds what the acts of its name made of it. Typing is refused where there
is no field and where a flag is given a word that is no tick. Then the form stays as it is, as it
does when a value is put where there is no field. What is typed where a number or a text belongs
stands there as it was typed, and a tick stands where it was given to a flag. -/
theorem fields_keep_to_their_acts (acts : List Act) :
    let form := after acts
    (form.keys.Pairwise (· < ·) ∧ ∀ key, key ∈ form.keys ↔ ∃ kind, .declare key kind ∈ acts) ∧
    (∀ key, (form.get? key).map Field.kind = (acts.filterMap (Act.declares? key)).getLast?) ∧
    (∀ act, (∀ key kind, act ≠ .declare key kind) → (after (acts ++ [act])).kinds = form.kinds) ∧
    (∀ key kind, (after (acts ++ [.declare key kind])).get? key = some (.blank kind)) ∧
    (∀ act key, key ≠ act.key → (after (acts ++ [act])).get? key = form.get? key) ∧
    (∀ key, form.get? key = (acts.filter fun act => act.key = key).foldl Act.upon none) ∧
    (∀ key raw e, form.edit key raw = .error e ↔
      (form.get? key = none ∧ e = .noSuchField key) ∨
        ∃ ticked, form.get? key = some (.flag ticked) ∧ Field.tick? (tickWord raw) = none ∧
          e = .notTick key (tickWord raw)) ∧
    (∀ key raw e, form.edit key raw = .error e → after (acts ++ [.edit key raw]) = form) ∧
    (∀ key value, form.get? key = none → after (acts ++ [.put key value]) = form) ∧
    (∀ key raw edited, form.edit key raw = .ok edited → after (acts ++ [.edit key raw]) = edited) ∧
    ∀ key raw,
      let held := (after (acts ++ [.edit key raw])).get? key
      (∀ old, form.get? key = some (.number old) → held = some (.number raw)) ∧
      (∀ old, form.get? key = some (.text old) → held = some (.text raw)) ∧
      ∀ old ticked, form.get? key = some (.flag old) → Field.tick? (tickWord raw) = some ticked →
        held = some (.flag ticked) := by
  intro form
  have typedIn (key raw : String) : (after (acts ++ [.edit key raw])).get? key =
      (form.get? key).map fun old => (typed key old raw).toOption.getD old := by
    rw [after_concat]
    exact (get?_perform form (.edit key raw) key).trans (if_pos rfl)
  refine ⟨⟨?_, mem_keys_after acts⟩, kind_after acts, ?_, ?_, ?_, get?_after acts, ?_, ?_, ?_, ?_,
    ?_⟩
  · exact List.pairwise_map.mpr form.ascending
  · intro act other
    rw [after_concat]
    exact kinds_perform other
  · intro key kind
    rw [after_concat]
    exact (get?_perform form (.declare key kind) key).trans (if_pos rfl)
  · intro act key other
    rw [after_concat, get?_perform, if_neg other]
  · exact fun key raw e => edit_eq_error_iff
  · intro key raw e refused
    rw [after_concat, perform, show (after acts).edit key raw = .error e from refused]
    rfl
  · intro key value unknown
    rw [after_concat]
    exact put_of_none unknown
  · intro key raw edited accepted
    rw [after_concat, perform, show (after acts).edit key raw = .ok edited from accepted]
    rfl
  · intro key raw held
    refine ⟨?_, ?_, ?_⟩
    · intro old declared
      refine (typedIn key raw).trans ?_
      rw [declared]
      rfl
    · intro old declared
      refine (typedIn key raw).trans ?_
      rw [declared]
      rfl
    · intro old ticked declared ticks
      refine (typedIn key raw).trans ?_
      rw [declared, Option.map_some, typed_flag ticks]
      rfl

/-- A flag takes a word in any case and between blanks, and keeps its tick when it is given another.
A field that is declared again is blank and for something else, and a name without one takes
nothing. -/
theorem flag_keeps_tick_when_refused :
    let acts : List Act := [.declare "Rate" .text, .edit "Rate" " 7 ", .declare "Debug" .flag,
      .edit "Debug" " ON ", .declare "Rate" .number, .edit "Iface" "eth0"]
    let form := after acts
    form.keys.Pairwise (· < ·) ∧ form.get? "Debug" = some (.flag true) ∧
      form.get? "Rate" = some (.number "") ∧
      form.edit "Debug" "maybe" = .error (.notTick "Debug" "maybe") ∧
      after (acts ++ [.edit "Debug" "maybe"]) = form ∧
      after (acts ++ [.put "Iface" (.text "eth0")]) = form ∧
      (after (acts ++ [.edit "Rate" " 7 "])).get? "Rate" = some (.number " 7 ") := by
  intro acts form
  obtain ⟨⟨ascending, -⟩, -, -, -, -, -, -, stays, unheard, -, typed⟩ :=
    fields_keep_to_their_acts acts
  have debug : form.get? "Debug" = some (.flag true) := by decide
  have rate : form.get? "Rate" = some (.number "") := by decide
  have maybe : form.edit "Debug" "maybe" = .error (.notTick "Debug" "maybe") := by decide
  exact ⟨ascending, debug, rate, maybe, stays _ _ _ maybe, unheard _ _ (by decide),
    (typed "Rate" " 7 ").1 "" rate⟩

end Form

end EngineConsole
