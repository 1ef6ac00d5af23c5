import EngineConsole.Proofs.Readings

/-!
# Alerts and failures

Each step raises the one alert that is its due, or none, so that the alerts of a run tell what its
steps were. A step that applies a failure does nothing else: what the operator has before him stays
as it is, and the engine is asked for nothing.
-/

set_option autoImplicit false

namespace EngineConsole

/-! ## Failures -/

/-- A file that cannot be taken over, or one that nobody takes. -/
def Operation.fails : Operation → Bool
  | .exportConfig taken => !taken
  | .importConfig file => !(Config.import? file).isOk
  | _ => false

def Completion.fails : Completion → Bool
  | .configLoaded result => !result.isOk
  | .configSaved _ result => !result.isOk
  | .statsFetched result => !result.isOk
  | .statsCleared result => !result.isOk
  | .toggleFinished result => !result.isOk
  | .engineStatus result => !result.isOk
  | .alertExpired _ => false

/-- Files are exported or imported. -/
def Operation.transfers : Operation → Bool
  | .exportConfig _ => true
  | .importConfig _ => true
  | _ => false

namespace Move

def alert? : Move → Option AlertKind
  | .operate o => o.alert?
  | .handle c => c.alert?
  | _ => none

def fails : Move → Bool
  | .operate o => o.fails
  | .handle c => c.fails
  | _ => false

end Move

theorem Operation.importConfig_fails (file : Option (List UInt8)) :
    (Operation.importConfig file).fails = true ↔
      file = none ∨ (∃ bytes, file = some bytes ∧ Text.decode? bytes = none) ∨
        ∃ bytes text flaw, file = some bytes ∧ Text.decode? bytes = some text ∧
          Config.parse text = .error flaw := by
  cases file with
  | none => simp [fails, Config.import?, Except.isOk, Except.toBool]
  | some bytes =>
      cases decoded : Text.decode? bytes with
      | none => simp [fails, Config.import?, decoded, Except.isOk, Except.toBool]
      | some text =>
          cases parsed : Config.parse text <;>
            simp [fails, Config.import?, decoded, parsed, Except.mapError, Except.isOk,
              Except.toBool]

namespace Desk

variable (desk : Desk) (m : Moment)

/-- What the operator has before him is as it was, and nothing is asked of the engine. -/
structure Stands (outcome : Desk × List Effect) : Prop where
  config : outcome.1.config = desk.config
  form : outcome.1.form = desk.form
  state : outcome.1.state = desk.state
  counts : outcome.1.counts = desk.counts
  chart : outcome.1.chart = desk.chart
  requests : Effect.requests outcome.2 = []

theorem stands_operate {o : Operation} (fails : o.fails = true) :
    desk.Stands (desk.operate m o) := by
  cases o with
  | exportConfig taken =>
      cases taken with
      | true => cases fails
      | false => exact ⟨rfl, rfl, rfl, rfl, rfl, rfl⟩
  | importConfig file =>
      dsimp only [Operation.fails] at fails
      dsimp only [operate]
      cases imported : Config.import? file with
      | ok config =>
          rw [imported] at fails
          cases fails
      | error f => exact ⟨rfl, rfl, rfl, rfl, rfl, rfl⟩
  | startup | load | save | toggle | clear | askStatus | startPolling | stopPolling | edit | put =>
      cases fails

theorem stands_handle {c : Completion} (fails : c.fails = true) :
    desk.Stands (desk.handle m c) := by
  cases c with
  | configLoaded result =>
      cases result with
      | ok config => cases fails
      | error f => cases f <;> exact ⟨rfl, rfl, rfl, rfl, rfl, rfl⟩
  | configSaved _ result | statsFetched result | statsCleared result | toggleFinished result
  | engineStatus result =>
      cases result with
      | ok value => cases fails
      | error f => exact ⟨rfl, rfl, rfl, rfl, rfl, rfl⟩
  | alertExpired id => cases fails

end Desk

/-! ## Steps -/

/-- From one state to the next, one alert of a kind was raised, which is visible behind the others,
or the alerts were left alone. -/
inductive Station.Raises (s s' : Station) : Option AlertKind → Prop where
  | kept : s'.raised = s.raised → s'.desk.alerts = s.desk.alerts → Raises s s' none
  | raised (kind : AlertKind) (message : String) :
      s'.raised = s.raised ++ [⟨s.desk.alerts.nextId, kind, message, s.agenda.now⟩] →
      s'.desk.alerts =
        s.desk.alerts.add ⟨s.desk.alerts.nextId, kind, message, s.agenda.now⟩ →
      Raises s s' (some kind)

section

variable {s s' : Station} {m : Move}

theorem Station.raises_take {outcome : Desk × List Effect} {kind? : Option AlertKind}
    (raises : s.desk.Raises s.moment outcome kind?) : s.Raises (s.take outcome) kind? := by
  cases raises with
  | kept alerts effects =>
      apply Station.Raises.kept
      · simp [Station.raised_take, effects]
      · rw [Station.desk_take, alerts]
  | raised kind message alerts effects =>
      apply Station.Raises.raised kind message
      · rw [Station.raised_take, effects]
        rfl
      · rw [Station.desk_take, alerts]
        rfl

theorem Step.raises (step : Step .any s m s') (other : ∀ id, m ≠ .handle (.alertExpired id)) :
    s.Raises s' m.alert? := by
  cases step with
  | operate o => exact Station.raises_take (s.desk.raises_operate s.moment o)
  | @handle c rest head =>
      have lasts : c.expires? = none := by
        cases c with
        | alertExpired id => exact absurd rfl (other id)
        | configLoaded | configSaved | statsFetched | statsCleared | toggleFinished
        | engineStatus => rfl
      let taken : Station := { s with agenda := { s.agenda with arrived := rest } }
      have raises : taken.Raises (taken.handle c) c.alert? :=
        taken.raises_take (taken.desk.raises_handle taken.moment lasts)
      change s.Raises (taken.handle c) c.alert?
      generalize c.alert? = kind? at raises ⊢
      cases raises with
      | kept raised alerts => exact .kept raised alerts
      | raised kind message raised alerts => exact .raised kind message raised alerts
  | work | wake | outside => exact .kept rfl rfl

/-- An expiry raises no alert and takes away the one it is about, if that is visible. -/
theorem Step.alert_expired {id : Nat} (step : Step .any s (.handle (.alertExpired id)) s') :
    s'.raised = s.raised ∧ s'.desk.alerts = s.desk.alerts.remove id := by
  cases step with
  | @handle _ rest head =>
      let taken : Station := { s with agenda := { s.agenda with arrived := rest } }
      refine ⟨taken.raised_expire id, ?_⟩
      have desk := taken.desk_take (taken.desk.expire id)
      have alerts : (taken.desk.expire id).1.alerts = s.desk.alerts.remove id := by
        unfold Desk.expire
        split
        next => rfl
        next hidden =>
          exact (AlertBoard.remove_of_not_shows (Bool.eq_false_iff.mpr hidden)).symm
      exact (congrArg Desk.alerts desk).trans alerts

theorem Step.stands (step : Step .any s m s') (fails : m.fails = true) :
    s.desk.Stands (Deed.mk s m).outcome := by
  cases m with
  | operate o => exact s.desk.stands_operate s.moment fails
  | handle c => exact s.desk.stands_handle s.moment fails
  | work | wake | outside => cases fails

end

/-! ## Runs -/

/-- The alerts that are due to the steps of a run. -/
def History.alerts (log : History) : List AlertKind :=
  log.filterMap fun d => d.move.alert?

theorem History.alerts_append (log : History) (d : Deed) :
    History.alerts (log ++ [d]) = log.alerts ++ d.move.alert?.toList := by
  cases due : d.move.alert? <;> simp [History.alerts, due]

section

variable {form : Form} {options : Options} {engine : Engine} {latency : Nat} {clock : String}
  {log : History} {s : Station}

theorem Run.alerts_eq (run : Run .any (.opened form options engine latency clock) log s) :
    s.raised.map (·.kind) = log.alerts := by
  induction run with
  | begin => rfl
  | @step log s s' m run step ih =>
      rw [History.alerts_append, ← ih]
      by_cases expiry : ∃ id, m = .handle (.alertExpired id)
      · obtain ⟨id, rfl⟩ := expiry
        rw [step.alert_expired.1]
        exact (List.append_nil _).symm
      · have raises := step.raises fun id same => expiry ⟨id, same⟩
        dsimp only
        generalize m.alert? = kind? at raises ⊢
        cases raises with
        | kept raised => simp [raised]
        | raised kind message raised => simp [raised]

/-- Where nothing is done but to start and stop polling, all requests are fetches. -/
theorem History.issued_polling
    (only : ∀ d ∈ log, ∀ o, d.move = .operate o → o = .startPolling ∨ o = .stopPolling) :
    ∀ r ∈ log.issued, r = .fetchStats := by
  intro r member
  obtain ⟨⟨before, m⟩, done, issued⟩ := List.mem_flatMap.mp member
  cases m with
  | operate o =>
      rw [Deed.issued_operate] at issued
      obtain rfl | rfl := only _ done o rfl <;> cases issued
  | handle c =>
      rw [Deed.issued_handle] at issued
      cases c with
      | statsCleared result =>
          cases result with
          | ok u => exact List.mem_singleton.mp issued
          | error f => cases issued
      | configLoaded | configSaved | statsFetched | toggleFinished | engineStatus
      | alertExpired => cases issued
  | work job => exact Deed.issued_work issued
  | wake | outside => cases issued

/-- Whatever is handled was asked for, and that is nothing but fetches where the operator does no
more than start and stop polling. -/
theorem Run.alerts_polling (run : Run .any (.opened form options engine latency clock) log s)
    (only : ∀ d ∈ log, ∀ o, d.move = .operate o → o = .startPolling ∨ o = .stopPolling) :
    log.alerts = [] := by
  have known : Completion.matters log.handled ≤ Request.matters log.issued := by
    rw [← run.balance, add_assoc]
    exact (Multiset.le_add_right _ _).trans (Multiset.le_add_left _ _)
  refine List.filterMap_eq_nil_iff.mpr fun ⟨before, m⟩ done => ?_
  cases m with
  | operate o => obtain rfl | rfl := only _ done o rfl <;> rfl
  | work | wake | outside => rfl
  | handle c =>
      have handled : c ∈ log.handled := List.mem_filterMap.mpr ⟨_, done, rfl⟩
      have fetch {about : Matter} (fits : c.matter? = some about) : about = .stats := by
        have member : about ∈ Completion.matters log.handled :=
          Multiset.mem_coe.mpr (List.mem_filterMap.mpr ⟨c, handled, fits⟩)
        obtain ⟨r, issued, rfl⟩ := List.mem_map.mp (Multiset.mem_of_le known member)
        rw [History.issued_polling only r issued]
        rfl
      cases c with
      | statsFetched | alertExpired => rfl
      | configLoaded | configSaved | statsCleared | toggleFinished | engineStatus =>
          cases fetch rfl

/-- A step raises exactly the alert that is its due, if it has one, and an alert goes only with its
expiry. Whatever fails, the configuration, the form, the state, the counters and the chart are as
they were, and nothing is asked of the engine; nor is anything when files are exported or imported.
An import fails if there is no file, or it is no text, or no configuration. So the alerts of a run
are those that were due, and polling alone has none. -/
theorem alerts_are_due_to_steps
    (run : Run .any (.opened form options engine latency clock) log s) :
    (∀ m s', Step .any s m s' →
      (∀ kind, m.alert? = some kind → ∃ message,
        let alert : Alert := ⟨s.desk.alerts.nextId, kind, message, s.agenda.now⟩
        s'.raised = s.raised ++ [alert] ∧
          s'.desk.alerts.visible = s.desk.alerts.visible ++ [alert]) ∧
      (m.alert? = none → s'.raised = s.raised ∧
        ((∀ id, m ≠ .handle (.alertExpired id)) → s'.desk.alerts = s.desk.alerts)) ∧
      (∀ id, m = .handle (.alertExpired id) → s'.desk.alerts = s.desk.alerts.remove id) ∧
      (m.fails = true → s'.desk.config = s.desk.config ∧ s'.desk.form = s.desk.form ∧
        s'.desk.state = s.desk.state ∧ s'.desk.counts = s.desk.counts ∧
        s'.desk.chart = s.desk.chart ∧ (Deed.mk s m).issued = []) ∧
      ∀ o, m = .operate o → o.transfers = true → (Deed.mk s m).issued = []) ∧
    (∀ file, (Operation.importConfig file).fails = true ↔
      file = none ∨ (∃ bytes, file = some bytes ∧ Text.decode? bytes = none) ∨
        ∃ bytes text flaw, file = some bytes ∧ Text.decode? bytes = some text ∧
          Config.parse text = .error flaw) ∧
    (s.raised.map (·.kind) = log.alerts ∧
      s.raised.length = log.countP fun d => d.move.alert?.isSome) ∧
    ((∀ d ∈ log, ∀ o, d.move = .operate o → o = .startPolling ∨ o = .stopPolling) →
      s.raised = []) := by
  have alerts := run.alerts_eq
  refine ⟨fun m s' step => ⟨?_, ?_, ?_, ?_, ?_⟩, Operation.importConfig_fails, ⟨alerts, ?_⟩, ?_⟩
  · intro kind due
    have other : ∀ id, m ≠ .handle (.alertExpired id) := by
      rintro id rfl
      cases due
    have raises := step.raises other
    rw [due] at raises
    cases raises with
    | raised kind message raised alerts =>
        refine ⟨message, raised, ?_⟩
        rw [alerts]
        rfl
  · intro none
    by_cases expiry : ∃ id, m = .handle (.alertExpired id)
    · obtain ⟨id, rfl⟩ := expiry
      exact ⟨step.alert_expired.1, fun other => absurd rfl (other id)⟩
    · have raises := step.raises fun id same => expiry ⟨id, same⟩
      rw [none] at raises
      cases raises with
      | kept raised alerts => exact ⟨raised, fun _ => alerts⟩
  · rintro id rfl
    exact step.alert_expired.2
  · intro fails
    have stands := step.stands fails
    rw [step.desk_eq]
    refine ⟨stands.config, stands.form, stands.state, stands.counts, stands.chart, ?_⟩
    cases m with
    | operate | handle => exact stands.requests
    | work | wake | outside => cases fails
  · rintro o rfl transfers
    rw [Deed.issued_operate]
    cases o with
    | exportConfig | importConfig => rfl
    | startup | load | save | toggle | clear | askStatus | startPolling | stopPolling | edit
    | put => cases transfers
  · rw [← List.length_map (f := fun alert : Alert => alert.kind), alerts, History.alerts,
      List.length_filterMap_eq_countP]
  · intro only
    rw [run.alerts_polling only] at alerts
    exact List.map_eq_nil_iff.mp alerts

end

/-- A file that is not there, and a clearing while the engine is cut off: two alerts, and no request
but the one for the clearing. -/
theorem failed_import_and_clearing_raise_one_each :
    let first : Station :=
      .opened .empty {} { config := .empty, offline := true } 0 "12:00:00"
    let cutOff : Failure := .unreachable "/api/stats/clear" "connection refused"
    ∃ log s s', Run .any first log s ∧ log.issued = [.clearStats] ∧
      s.raised.map (·.kind) = [.error] ∧
      Step .any s (.handle (.statsCleared (.error cutOff))) s' ∧
      s'.desk.counts = s.desk.counts ∧
      ∃ message, s'.raised = s.raised ++ [⟨1, .error, message, 0⟩] := by
  intro first cutOff
  have opened : Run .any first [] first := .begin
  have imported := opened.step (.operate (.importConfig none))
  have asked := imported.step (.operate (.clear true))
  have run := asked.step (@Step.work _ _ [.expiry 5000 0] [] (.begin .clearStats none) rfl)
  obtain ⟨steps, -, ⟨alerts, -⟩, -⟩ := alerts_are_due_to_steps run
  obtain ⟨raises, -, -, stands, -⟩ :=
    steps (.handle (.statsCleared (.error cutOff))) _ (@Step.handle _ _ _ [] rfl)
  obtain ⟨message, raised, -⟩ := raises .error rfl
  exact ⟨_, _, _, run, rfl, alerts, @Step.handle _ _ _ [] rfl, (stands rfl).2.2.2.1, message,
    raised⟩

end EngineConsole
