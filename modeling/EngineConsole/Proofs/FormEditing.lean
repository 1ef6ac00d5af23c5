import EngineConsole.Proofs.Catalogs
import EngineConsole.Proofs.Decimal.Scanning
import EngineConsole.Proofs.ExportImport
import Mathlib.Data.Finset.Card

/-!
# A form edits a configuration faithfully

What is shown in a form is what is read from it, as long as each value is of the kind of its field;
fields that the configuration does not name stand for what they stood for. A configuration that was
read from a form always fits it, so one that is saved and loaded again is submitted unchanged,
whatever was typed.
-/

set_option autoImplicit false

namespace EngineConsole

/-! ## Fields -/

namespace Field

/-- A value that a field can hold without loss. -/
def Fits (field : Field) (value : Value) : Prop :=
  FieldKind.of value = field.kind ∧ value.isFinite = true

instance (field : Field) (value : Value) : Decidable (field.Fits value) :=
  inferInstanceAs (Decidable (_ ∧ _))

theorem fits_value (field : Field) : field.Fits field.value :=
  ⟨by cases field <;> rfl, field.finite_value⟩

theorem Fits.of_kind {field other : Field} {value : Value} (fits : field.Fits value)
    (same : other.kind = field.kind) : other.Fits value :=
  ⟨fits.1.trans same.symm, fits.2⟩

/-- A value that fits is read back from the field that shows it. -/
theorem Fits.value_showing {field : Field} {value : Value} (fits : field.Fits value) :
    (field.showing value).value = value := by
  obtain ⟨kind, finite⟩ := fits
  cases field with
  | flag ticked =>
      cases value with
      | flag b => rfl
      | number | text => cases kind
  | number raw =>
      cases value with
      | number x => exact congrArg Value.number (leadingNumber_display finite)
      | flag | text => cases kind
  | text raw =>
      cases value with
      | text s => rfl
      | flag | number => cases kind

theorem showing_showing (field : Field) (value : Value) :
    (field.showing value).showing value = field.showing value := by
  cases field <;> rfl

end Field

/-! ## Forms -/

namespace Form

variable (form : Form) (config : Config)

/-- Each value of a configuration that has a field fits it. -/
def Fits : Prop :=
  ∀ e ∈ config.entries, ∀ field ∈ form.get? e.1, field.Fits e.2

instance : Decidable (form.Fits config) :=
  inferInstanceAs (Decidable (∀ e ∈ config.entries, ∀ field ∈ form.get? e.1, field.Fits e.2))

theorem Fits.get? {form : Form} {config : Config} (fits : form.Fits config) {key : String}
    {field : Field} {value : Value} (declared : form.get? key = some field)
    (given : config.get? key = some value) : field.Fits value :=
  fits (key, value) (Catalog.get?_eq_some_iff.mp given) field declared

theorem contains_fill (key : String) : (form.fill config).contains key = form.contains key := by
  rw [Catalog.contains, get?_fill, Option.isSome_map]
  rfl

/-- What a filled form stands for: the values given, and the other fields as they were. -/
theorem Fits.get?_values_fill {form : Form} {config : Config} (fits : form.Fits config)
    (key : String) : (form.fill config).values.get? key =
      (form.get? key).map fun field => (config.get? key).getD field.value := by
  rw [values, Catalog.get?_map, get?_fill, Option.map_map]
  cases declared : form.get? key with
  | none => rfl
  | some field =>
      cases given : config.get? key with
      | none => rfl
      | some value => exact congrArg some (fits.get? declared given).value_showing

theorem keys_values_fill : (form.fill config).values.keys = form.keys := by
  have put (form : Form) (e : String × Value) : (form.put e.1 e.2).keys = form.keys :=
    Catalog.keys_map _ _
  have filled (l : List (String × Value)) (form : Form) :
      (l.foldl (fun form e => form.put e.1 e.2) form).keys = form.keys := by
    induction l generalizing form with
    | nil => rfl
    | cons e rest ih => exact (ih (form.put e.1 e.2)).trans (put form e)
  exact (Catalog.keys_map _ _).trans (filled config.entries form)

theorem fill_fill : (form.fill config).fill config = form.fill config := by
  refine Catalog.ext_get? fun key => ?_
  simp only [get?_fill, Option.map_map]
  congr 1
  funext field
  cases config.get? key with
  | none => rfl
  | some value => exact field.showing_showing value

/-- The fields that are set are those that the configuration names. -/
theorem matching_eq : form.matching config = (form.keys.toFinset ∩ config.keys.toFinset).card := by
  have common : form.keys.toFinset ∩ config.keys.toFinset =
      (config.keys.filter fun key => form.contains key).toFinset := by
    ext key
    simp only [Finset.mem_inter, List.mem_toFinset, List.mem_filter, Catalog.mem_keys]
    exact and_comm
  rw [common, List.toFinset_card_of_nodup (config.nodup_keys.filter _), Catalog.keys,
    List.filter_map, List.length_map]
  rfl

theorem matching_fill : (form.fill config).matching config = form.matching config := by
  unfold matching
  simp only [contains_fill]

/-! ## The fields of a form -/

/-- What each field is for. -/
def kinds : Catalog FieldKind :=
  form.map fun _ field => field.kind

theorem kinds_put (key : String) (value : Value) : (form.put key value).kinds = form.kinds := by
  refine Catalog.ext_get? fun name => ?_
  rw [kinds, kinds, put, Catalog.get?_map, Catalog.get?_map, Catalog.get?_update]
  split
  · cases form.get? name with
    | none => rfl
    | some field => exact congrArg some (field.kind_showing value)
  · rfl

theorem kinds_fill : (form.fill config).kinds = form.kinds := by
  have filled (l : List (String × Value)) (form : Form) :
      (l.foldl (fun form e => form.put e.1 e.2) form).kinds = form.kinds := by
    induction l generalizing form with
    | nil => rfl
    | cons e rest ih => exact (ih (form.put e.1 e.2)).trans (form.kinds_put e.1 e.2)
  exact filled config.entries form

theorem kind_typed {key raw : String} {field new : Field}
    (accepted : typed key field raw = .ok new) : new.kind = field.kind := by
  cases field with
  | flag ticked =>
      unfold typed at accepted
      dsimp only at accepted
      split at accepted <;> cases accepted
      rfl
  | number old | text old =>
      cases accepted
      rfl

theorem kinds_edit {form edited : Form} {key raw : String}
    (accepted : form.edit key raw = .ok edited) : edited.kinds = form.kinds := by
  unfold edit at accepted
  split at accepted
  next => cases accepted
  next field declared =>
    cases typed : typed key field raw with
    | error e =>
        rw [typed] at accepted
        cases accepted
    | ok new =>
        rw [typed] at accepted
        cases accepted
        refine Catalog.ext_get? fun name => ?_
        rw [kinds, kinds, Catalog.get?_map, Catalog.get?_map, Catalog.get?_update]
        split
        next same =>
          rw [same, declared]
          exact congrArg some (kind_typed typed)
        next => rfl

/-- What was read from a form fills any form with the same fields, so that the same is read. -/
theorem values_fill_values {form other : Form} (same : other.kinds = form.kinds) :
    (other.fill form.values).values = form.values := by
  have kind (key : String) : (other.get? key).map Field.kind = (form.get? key).map Field.kind := by
    have known := congrArg (fun c : Catalog FieldKind => c.get? key) same
    simpa only [kinds, Catalog.get?_map] using known
  have fits : other.Fits form.values := by
    rintro ⟨key, value⟩ member field declared
    have given := Catalog.get?_eq_some_iff.mpr member
    rw [values, Catalog.get?_map] at given
    obtain ⟨origin, known, rfl⟩ := Option.map_eq_some_iff.mp given
    have alike := kind key
    rw [known, Option.mem_def.mp declared] at alike
    exact origin.fits_value.of_kind (Option.some.inj alike)
  refine Catalog.ext_get? fun key => ?_
  have alike := kind key
  rw [fits.get?_values_fill, values, Catalog.get?_map]
  cases known : form.get? key with
  | none =>
      rw [known] at alike
      rw [Option.map_eq_none_iff.mp alike]
      rfl
  | some origin =>
      rw [known] at alike
      obtain ⟨field, declared, -⟩ := Option.map_eq_some_iff.mp alike
      rw [declared]
      rfl

end Form

/-! ## Runs -/

section

variable {world : World} {log : History} {s t : Station}

theorem Move.kinds_reform (m : Move) (form : Form) : (m.reform form).kinds = form.kinds := by
  cases m with
  | operate o =>
      cases o with
      | edit key raw =>
          change ((form.edit key raw).toOption.getD form).kinds = form.kinds
          cases typed : form.edit key raw with
          | error e => rfl
          | ok edited => exact Form.kinds_edit typed
      | put key value => exact form.kinds_put key value
      | importConfig file =>
          change (((Config.import? file).toOption.map form.fill).getD form).kinds = form.kinds
          cases Config.import? file with
          | error f => rfl
          | ok config => exact form.kinds_fill config
      | startup | load | save | toggle | clear | askStatus | exportConfig | startPolling
      | stopPolling => rfl
  | handle c =>
      cases c with
      | configLoaded result =>
          cases result with
          | error f => rfl
          | ok config => exact form.kinds_fill config
      | configSaved | statsFetched | statsCleared | toggleFinished | engineStatus
      | alertExpired => rfl
  | work | wake | outside => rfl

/-- No run adds a field to the form or takes one away, nor makes it a field for something else. -/
theorem Run.kinds_eq (run : Run world s log t) : t.desk.form.kinds = s.desk.form.kinds := by
  induction run with
  | begin => rfl
  | step _ step ih => rw [step.form_eq, Move.kinds_reform, ih]

end

/-- A configuration whose values are of the kinds of their fields is taken over into the form: what
is then read has the form's options, with the values given and, for the options that are not named,
what their fields stood for. As many fields are set as options are in both, and setting them again
changes nothing. Whatever was typed before or is typed meanwhile, a form that was saved and is
handed back by a load is read as it was saved, and the next save submits the same. -/
theorem form_edits_config_faithfully :
    (∀ (desk : Desk) (config : Config), desk.form.Fits config →
      let filled := desk.adopt config
      filled.config = config ∧ filled.form.values.keys = desk.form.keys ∧
      (∀ key value, desk.form.contains key = true → config.get? key = some value →
        filled.form.values.get? key = some value) ∧
      (∀ key field, desk.form.get? key = some field → config.get? key = none →
        filled.form.values.get? key = some field.value) ∧
      desk.form.matching config = (desk.form.keys.toFinset ∩ config.keys.toFinset).card ∧
      filled.form.fill filled.config = filled.form ∧
      filled.form.matching filled.config = desk.form.matching config) ∧
    ∀ s log t u, Run .any s log t →
      Step .any t (.handle (.configLoaded (.ok s.desk.form.values))) u →
        s.desk.save = [.send (.saveConfig s.desk.form.values)] ∧
        u.desk.form.values = s.desk.form.values ∧ u.desk.save = s.desk.save := by
  refine ⟨fun desk config fits => ⟨rfl, desk.form.keys_values_fill config, ?_, ?_,
    desk.form.matching_eq config, desk.form.fill_fill config, desk.form.matching_fill config⟩, ?_⟩
  · intro key value declared given
    obtain ⟨field, declared⟩ := Option.isSome_iff_exists.mp declared
    refine (fits.get?_values_fill key).trans ?_
    rw [declared, given]
    rfl
  · intro key field declared absent
    refine (fits.get?_values_fill key).trans ?_
    rw [declared, absent]
    rfl
  · intro s log t u run loaded
    have values : u.desk.form.values = s.desk.form.values := by
      rw [loaded.form_eq]
      exact Form.values_fill_values run.kinds_eq
    refine ⟨rfl, values, ?_⟩
    rw [Desk.save, Desk.save, values]

/-- Zero keeps its sign, an option without a field is passed over, and a field that the
configuration does not name keeps what was typed into it. What was typed since a save is lost when
the engine hands back what was saved. -/
theorem form_shows_negative_zero :
    let form : Form := .ofList [("Burst", .number "3.5 ms"), ("DebugPrint", .flag false),
      ("Rate", .number "fast")]
    let config : Config := .ofList [("DebugPrint", .flag true), ("Iface", .text "eth0"),
      ("Rate", .number (.ofRank true 0))]
    let desk : Desk := .fresh form 20 5000
    let first : Station := .opened form {} { config := form.values } 0 "12:00:00"
    (desk.form.Fits config ∧
      (desk.adopt config).form.values.get? "Rate" = some (.number (.ofRank true 0)) ∧
      (desk.adopt config).form.values.get? "Burst" = some (.number (Field.leadingNumber "3.5 ms")) ∧
      (desk.adopt config).form.fill config = (desk.adopt config).form) ∧
    ∃ log t u, Run .any first log t ∧ t.desk.form.get? "Rate" = some (.number "7") ∧
      Step .any t (.handle (.configLoaded (.ok form.values))) u ∧
      u.desk.save = first.desk.save := by
  intro form config desk first
  obtain ⟨fills, returns⟩ := form_edits_config_faithfully
  have fits : desk.form.Fits config := by decide
  obtain ⟨-, -, given, kept, -, again, -⟩ := fills desk config fits
  refine ⟨⟨fits, given "Rate" _ rfl rfl, kept "Burst" (.number "3.5 ms") rfl rfl, again⟩, ?_⟩
  have opened : Run .any first [] first := .begin
  have asked := opened.step (.operate .load)
  have typed := asked.step (.operate (.edit "Rate" "7"))
  have run := typed.step (@Step.work _ _ [] [] (.begin .loadConfig none) rfl)
  obtain ⟨-, -, submitted⟩ := returns first _ _ _ run (@Step.handle _ _ _ [] rfl)
  exact ⟨_, _, _, run, rfl, .handle rfl, submitted⟩

end EngineConsole
