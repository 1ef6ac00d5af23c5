import EngineConsole.Console.Session
import EngineConsole.Proofs.ConfigDocument
import EngineConsole.Proofs.ConfigProvenance
import EngineConsole.Proofs.Json.Scalars
import EngineConsole.Proofs.Text.Utf8

/-!
# Export and import

Every number that gets into the console is finite: one that was read from a document, one that a
field stands for, and so one that was submitted and comes back. What the console holds can therefore
always be exported and imported again. The import brings back all numbers whose text is read as they
are, and for another number the one that its text is read as.
-/

set_option autoImplicit false

namespace EngineConsole

open Json (Input)

/-! ## Numbers that are read -/

namespace Config

theorem Finite.insert {c : Config} (finite : c.Finite) (key : String) {v : Value}
    (small : v.isFinite = true) : Config.Finite (c.insert key v) := by
  intro e member
  rcases Catalog.mem_place member with rfl | old
  · exact small
  · exact finite e old

theorem finite_of_member {c d : Config} {key : String} {input rest : Input} (finite : c.Finite)
    (read : member c key input = .ok (d, rest)) : d.Finite := by
  unfold member at read
  obtain ⟨after, -, read⟩ := Json.bind_ok read
  obtain ⟨⟨t, after⟩, found, read⟩ := Json.bind_ok read
  dsimp only at read
  split at read
  next value known =>
    cases read
    refine finite.insert key ?_
    obtain ⟨t, rfl, stands⟩ := Option.bind_eq_some_iff.mp known
    unfold Json.scalar at found
    obtain ⟨⟨u, after⟩, -, found⟩ := Json.bind_ok found
    dsimp only at found
    split at found
    next =>
      cases found
      cases t with
      | null => cases stands
      | flag b | text cs =>
          cases stands
          rfl
      | number n =>
          obtain ⟨x, double, rfl⟩ := Option.map_eq_some_iff.mp stands
          exact Json.isFinite_double double
    next =>
      obtain ⟨_, -, found⟩ := Json.bind_ok found
      cases found
  next => cases read

/-- A configuration that was read, from whatever it was, has finite numbers. -/
theorem finite_of_read {input : Input} {c : Config} (read : Config.read input = .ok c) :
    c.Finite :=
  Json.object_keeps (fun _ _ _ _ _ finite read => finite_of_member finite read) read nofun

theorem finite_of_import {file : Option (List UInt8)} {c : Config}
    (read : import? file = .ok c) : c.Finite := by
  obtain ⟨bytes, text, -, -, parsed⟩ := import?_eq_ok.mp read
  exact finite_of_read parsed

end Config

/-! ## Numbers that are entered -/

theorem Field.finite_value (field : Field) : field.value.isFinite = true := by
  have zero : (Binary.ofRank false 0 : Double).isFinite = true := by decide
  cases field with
  | flag ticked => rfl
  | text raw => rfl
  | number raw =>
      change (leadingNumber raw).isFinite = true
      unfold leadingNumber
      split
      · exact zero
      · dsimp only
        split
        next finite => exact finite
        next => exact zero

/-- Whatever was typed, a form stands for finite numbers. -/
theorem Form.finite_values (form : Form) : Config.Finite form.values := by
  intro e member
  obtain ⟨⟨key, field⟩, -, rfl⟩ := List.mem_map.mp member
  exact field.finite_value

/-! ## Runs -/

section

variable {form : Form} {options : Options} {engine : Engine} {latency : Nat} {clock : String}
  {log : History} {s : Station} {config : Config}

theorem History.finite_submitted (member : config ∈ History.submitted log) : config.Finite := by
  obtain ⟨⟨before, move⟩, -, submits⟩ := List.mem_filterMap.mp member
  unfold Deed.submits? at submits
  split at submits
  next =>
    cases submits
    exact before.desk.form.finite_values
  next => cases submits

/-- What a save under way or at its end has submitted was submitted by the operator. -/
theorem Run.mem_submitted (run : Run .any (.opened form options engine latency clock) log s)
    (found : .saveConfig config ∈ s.agenda.underway ∨
      config ∈ (log.handled ++ s.agenda.arrived).filterMap Completion.submitted?) :
    config ∈ log.submitted := by
  have balance := run.saves_balance config
  rw [← List.count_pos_iff, balance]
  rcases found with under | ended
  · have := Multiset.count_pos.mpr under
    omega
  · have := List.count_pos_iff.mpr ended
    omega

theorem Run.finite_config (run : Run .any (.opened form options engine latency clock) log s)
    (sound : ∀ loaded, .configLoaded (.ok loaded) ∈ log.handled → loaded.Finite) :
    s.desk.config.Finite := by
  have brought : ∀ entry ∈ log.brought, entry.2.Finite := by
    rintro ⟨source, brought⟩ member
    obtain ⟨⟨before, move⟩, deed, brings⟩ := List.mem_filterMap.mp member
    cases move with
    | operate o =>
        cases o with
        | importConfig file =>
            obtain ⟨read, found, same⟩ := Option.map_eq_some_iff.mp brings
            cases same
            cases imported : Config.import? file with
            | error f =>
                rw [imported] at found
                cases found
            | ok c =>
                rw [imported] at found
                cases found
                exact Config.finite_of_import imported
        | startup | load | save | toggle | clear | askStatus | exportConfig | startPolling
        | stopPolling | edit | put => cases brings
    | handle c =>
        have handled : c ∈ log.handled := List.mem_filterMap.mpr ⟨_, deed, rfl⟩
        cases c with
        | configLoaded result =>
            cases result with
            | error f => cases brings
            | ok loaded =>
                cases brings
                exact sound _ handled
        | configSaved submitted result =>
            cases result with
            | error f => cases brings
            | ok u =>
                cases brings
                have ended := List.mem_append_left s.agenda.arrived handled
                exact History.finite_submitted
                  (run.mem_submitted (.inr (List.mem_filterMap.mpr ⟨_, ended, rfl⟩)))
        | statsFetched | statsCleared | toggleFinished | engineStatus | alertExpired => cases brings
    | work | wake | outside => cases brings
  rw [run.config_eq, Station.desk_opened]
  cases last : log.brought.getLast? with
  | none => exact nofun
  | some entry => exact brought entry (List.mem_of_getLast? last)

end

/-! ## Documents -/

namespace Config

theorem json_restored (v : Value) : v.restored.json = v.json := by
  cases v with
  | flag b => rfl
  | text s => rfl
  | number x =>
      change Json.writeDouble x.restored = Json.writeDouble x
      unfold Binary.restored
      split
      next zero =>
        obtain ⟨plain, negative, rfl⟩ := Binary.isFinite_ofRank_zero x zero
        have whole (negative : Bool) :
            Double.IsWhole (.finite negative ⟨0, by decide⟩) negative 0 :=
          ⟨⟨0, by decide⟩, rfl, by decide⟩
        rw [plain, Json.writeDouble_whole (whole false) (Nat.zero_le _),
          Json.writeDouble_whole (whole negative) (Nat.zero_le _)]
        simp
      next => rfl

/-- What comes back as it was has the same document. -/
theorem document_reread {c : Config} (finite : c.Finite) (steady : c.Steady) :
    c.reread.document = c.document := by
  have members : c.reread.members = c.members := by
    unfold Config.members reread Catalog.map
    rw [List.map_map]
    refine List.map_congr_left fun e member => ?_
    change (e.1, e.2.reread.json) = (e.1, e.2.json)
    rw [Value.reread_of_steady (finite e member) (steady e member), json_restored]
  unfold document
  rw [members]

theorem steady_of_isShort {c : Config}
    (short : ∀ key x, (key, Value.number x) ∈ c.entries → Json.IsShort x) : c.Steady := by
  rintro ⟨key, v⟩ member
  cases v with
  | flag b => trivial
  | text s => trivial
  | number x =>
      intro finite other
      rw [Json.reread_of_isShort finite (short key x member), Json.restored_of_not_isInteger other]

theorem import_document {c : Config} (finite : c.Finite) :
    Config.import? (some (Text.encode c.document)) = .ok c.reread := by
  refine import?_eq_ok.mpr ⟨_, _, rfl, Text.decode?_encode _, ?_⟩
  rw [parse_document, if_pos finite]

end Config

/-! ## Filling a form -/

/-- Filling a form sets the fields that the configuration names, and no other. -/
theorem Form.get?_fill (form : Form) (config : Config) (key : String) :
    (form.fill config).get? key =
      (form.get? key).map fun field => ((config.get? key).map field.showing).getD field := by
  have filled {l : List (String × Value)} (ascending : l.Pairwise fun a b => a.1 < b.1)
      (form : Form) : (l.foldl (fun form e => Form.put form e.1 e.2) form).get? key =
        (form.get? key).map fun field =>
          ((Catalog.find? key l).map field.showing).getD field := by
    induction l generalizing form with
    | nil => simp [Catalog.find?]
    | cons e more ih =>
        obtain ⟨k, v⟩ := e
        obtain ⟨first, ascending⟩ := List.pairwise_cons.mp ascending
        rw [List.foldl_cons, ih ascending, Form.put, Catalog.get?_update, Catalog.find?]
        by_cases named : key = k
        · have absent : Catalog.find? key more = none := by
            refine Catalog.find?_of_forall_ne fun e member same => ?_
            have after := first e member
            rw [← same, ← named] at after
            exact String.lt_irrefl key after
          rw [if_pos named, if_pos named, absent, Option.map_map]
          rfl
        · rw [if_neg named, if_neg named]
  exact filled config.ascending form

/-! ## The round trip -/

section

variable {form : Form} {options : Options} {engine : Engine} {latency : Nat} {clock : String}
  {log : History} {s : Station}

/-- With an engine that hands out finite numbers, all numbers in the console are finite. What is
exported at one time can be imported at any later one, and the form then shows it in the fields that
it names; it is what the console had if and only if all numbers come back. The document of what was
read from any text is a canonical form of it under the same condition, which numbers of short texts
meet. -/
theorem exports_can_be_restored
    (run : Run .any (.opened form options engine latency clock) log s)
    (sound : ∀ loaded, .configLoaded (.ok loaded) ∈ log.handled → loaded.Finite) :
    (s.desk.config.Finite ∧ (∀ config ∈ log.submitted, config.Finite) ∧
      (∀ config, .saveConfig config ∈ s.agenda.underway → config.Finite) ∧
      (∀ form : Form, Config.Finite form.values) ∧
      (∀ input config, Config.read input = .ok config → config.Finite)) ∧
    (∀ printed name contents,
      (Session.carryOut ⟨s, printed⟩ .exportConfig).2 = some (.offer name contents) →
      ∀ world log' t, Run world s log' t → ∀ printed',
        let file := some (Text.encode contents)
        let restored := (Session.importFile ⟨t, printed'⟩ file).station
        ∃ config, Config.import? file = .ok config ∧
          (config.same s.desk.config = true ↔ s.desk.config.Steady) ∧
          restored.desk.config = config ∧
          restored.shown = t.shown ++ [.alert (t.desk.alerts.upcoming t.agenda.now .success
            "Configuration imported successfully")] ∧
          ∀ key, restored.desk.form.get? key = (t.desk.form.get? key).map fun field =>
            ((config.get? key).map field.showing).getD field) ∧
    (∀ text config, Config.parse text = .ok config → ∃ again,
      Config.parse config.document = .ok again ∧ (again.same config = true ↔ config.Steady) ∧
        (config.Steady → again.document = config.document)) ∧
    ∀ config : Config,
      (∀ key x, (key, Value.number x) ∈ config.entries → Json.IsShort x) → config.Steady := by
  have finite := run.finite_config sound
  refine ⟨⟨finite, fun _ => History.finite_submitted, ?_, Form.finite_values,
    fun _ _ => Config.finite_of_read⟩, ?_, ?_, fun _ => Config.steady_of_isShort⟩
  · intro config under
    exact History.finite_submitted (run.mem_submitted (.inl under))
  · intro printed name contents offered world log' t later printed'
    obtain ⟨rfl, rfl⟩ := Errand.offer.inj (Option.some.inj offered)
    have read := Config.import_document finite
    dsimp only
    refine ⟨s.desk.config.reread, read, Config.same_iff_steady finite, ?_⟩
    unfold Session.importFile
    rw [read]
    exact ⟨rfl, rfl, t.desk.form.get?_fill s.desk.config.reread⟩
  · intro text config parsed
    have finite := Config.finite_of_read parsed
    exact ⟨config.reread, (config.parse_document).trans (if_pos finite),
      Config.same_iff_steady finite, Config.document_reread finite⟩

end

/-- What an engine handed out is exported, and imported after polling was stopped. -/
theorem loaded_config_can_be_restored :
    let config : Config := .ofList [("Iface", .text "eth0"), ("Rate", .number (.ofNat 5))]
    let first : Station := .opened (Form.declare .empty "Iface" .text) {} { config } 0 "12:00:00"
    ∃ log s, Run .any first log s ∧ .configLoaded (.ok config) ∈ log.handled ∧
      ∃ restored, Config.import? (some (Text.encode s.desk.config.document)) = .ok restored ∧
        restored.same config = true := by
  intro config first
  obtain ⟨log, s, run, handled, held⟩ : ∃ log s, Run .any first log s ∧
      log.handled = [.configLoaded (.ok config)] ∧ s.desk.config = config := by
    have opened : Run .any first [] first := .begin
    have asked := opened.step (.operate .load)
    have served := asked.step (@Step.work _ _ [] [] (.begin .loadConfig none) rfl)
    have run := served.step (@Step.handle _ _ (.configLoaded (.ok config)) [] rfl)
    exact ⟨_, _, run, rfl, rfl⟩
  have finite : config.Finite := by decide +kernel
  have steady : config.Steady := by decide +kernel
  have sound : ∀ loaded, .configLoaded (.ok loaded) ∈ log.handled → loaded.Finite := by
    intro loaded member
    rw [handled] at member
    cases List.mem_singleton.mp member
    exact finite
  obtain ⟨-, restores, -⟩ := exports_can_be_restored run sound
  have stopping : Step .any s (.operate .stopPolling) _ := .operate .stopPolling
  have stopped := Run.single stopping
  obtain ⟨restored, read, same, -⟩ := restores [] Desk.exportName _ rfl .any _ _ stopped []
  rw [held] at same
  exact ⟨log, s, run, handled ▸ List.mem_cons_self, restored, read, same.mpr steady⟩

/-- A number is entered and saved, and comes back from the export as its neighbour:
`449.49106478873813` as `449.4910647887382`. -/
theorem exported_number_is_changed :
    let first : Station :=
      .opened (Form.declare .empty "Rate" .number) {} { config := .empty } 0 "12:00:00"
    let config : Config := .ofList [("Rate", .number (.ofDecimal ⟨false, 44949106478873813, -14⟩))]
    let other : Config := .ofList [("Rate", .number (.ofDecimal ⟨false, 4494910647887382, -13⟩))]
    ∃ log s, Run .any first log s ∧ log.handled = [.configSaved config (.ok ())] ∧
      ∃ name contents,
        (Session.carryOut ⟨s, []⟩ .exportConfig).2 = some (.offer name contents) ∧
        Config.import? (some (Text.encode contents)) = .ok other ∧
        other.same s.desk.config = false := by
  have values : Form.values (.ofList [("Rate", .number "449.49106478873813")]) =
      .ofList [("Rate", .number (.ofDecimal ⟨false, 44949106478873813, -14⟩))] := by
    decide +kernel
  intro first config other
  have finite : config.Finite := by decide +kernel
  have reread : config.reread = other := by decide +kernel
  have changed : other.same config = false := by decide +kernel
  obtain ⟨log, s, run, handled, held⟩ : ∃ log s, Run .any first log s ∧
      log.handled = [.configSaved config (.ok ())] ∧ s.desk.config = config := by
    have opened : Run .any first [] first := .begin
    have typed := opened.step (.operate (.edit "Rate" "449.49106478873813"))
    have asked := typed.step (.operate .save)
    have served := asked.step (@Step.work _ _ [] []
      (.begin (.saveConfig (Form.values (.ofList [("Rate", .number "449.49106478873813")]))) none)
      rfl)
    have run := served.step (@Step.handle _ _
      (.configSaved (Form.values (.ofList [("Rate", .number "449.49106478873813")])) (.ok ())) []
      rfl)
    exact ⟨_, _, run, congrArg (fun c => [Completion.configSaved c (.ok ())]) values, values⟩
  have read := Config.import_document finite
  rw [reread] at read
  refine ⟨log, s, run, handled, _, _, rfl, ?_, ?_⟩
  · exact held ▸ read
  · exact held ▸ changed

end EngineConsole
