import EngineConsole.Proofs.Run.Outcome
import EngineConsole.Proofs.Text.Utf8

/-!
# Where the configuration comes from

The configuration that the desk has is the one that was taken over last, in the order in which
loads, saves and imports were applied. A save submits what the form stood for when the operator
asked for it, and keeps to that until it ends. The form is changed by the operator, and by a
configuration that was loaded or imported.
-/

set_option autoImplicit false

namespace EngineConsole

/-! ## What moves do to the configuration and the form -/

def Move.brings? : Move → Option (Source × Config)
  | .operate o => o.brings?
  | .handle c => c.brings?
  | _ => none

def Move.reform (form : Form) : Move → Form
  | .operate o => o.reform form
  | .handle c => c.reform form
  | _ => form

/-- What a move has taken over: the configuration that was loaded, the one that was submitted and is
saved, or the one that the text of an imported file stands for. -/
inductive Move.Brings : Move → Source → Config → Prop
  | loaded (config : Config) : Brings (.handle (.configLoaded (.ok config))) .loaded config
  | saved (submitted : Config) : Brings (.handle (.configSaved submitted (.ok ()))) .saved submitted
  | imported {bytes : List UInt8} {text : String} {config : Config}
      (decoded : Text.decode? bytes = some text) (parsed : Config.parse text = .ok config) :
      Brings (.operate (.importConfig (some bytes))) .imported config

theorem Config.import?_eq_ok {file : Option (List UInt8)} {config : Config} :
    Config.import? file = .ok config ↔ ∃ bytes text,
      file = some bytes ∧ Text.decode? bytes = some text ∧ parse text = .ok config := by
  cases file with
  | none => simp [import?]
  | some bytes =>
      cases decoded : Text.decode? bytes with
      | none => simp [import?, decoded]
      | some text => cases parsed : parse text <;> simp [import?, decoded, parsed, Except.mapError]

theorem Move.brings_iff {m : Move} {source : Source} {config : Config} :
    m.brings? = some (source, config) ↔ m.Brings source config := by
  constructor
  · intro brings
    cases m with
    | operate o =>
        cases o with
        | importConfig file =>
            cases read : Config.import? file with
            | ok config =>
                obtain ⟨bytes, text, rfl, decoded, parsed⟩ := Config.import?_eq_ok.mp read
                simp only [brings?, Operation.brings?, read, Except.toOption,
                  Option.map_some] at brings
                cases brings
                exact .imported decoded parsed
            | error f => simp [brings?, Operation.brings?, read, Except.toOption] at brings
        | startup | load | save | toggle | clear | askStatus | exportConfig | startPolling
        | stopPolling | edit | put => cases brings
    | handle c =>
        cases c with
        | configLoaded result =>
            cases result with
            | ok config =>
                cases brings
                exact .loaded _
            | error f => cases brings
        | configSaved submitted result =>
            cases result with
            | ok u =>
                cases brings
                exact .saved _
            | error f => cases brings
        | statsFetched | statsCleared | toggleFinished | engineStatus | alertExpired =>
            cases brings
    | work | wake | outside => cases brings
  · intro brings
    cases brings with
    | loaded | saved => rfl
    | imported decoded parsed =>
        have read := Config.import?_eq_ok.mpr ⟨_, _, rfl, decoded, parsed⟩
        simp [brings?, Operation.brings?, read, Except.toOption]

/-- What is taken over fills the form, unless the form is where it comes from. -/
theorem Move.Brings.reform {m : Move} {source : Source} {config : Config}
    (brings : m.Brings source config) (form : Form) :
    m.reform form = if source = .saved then form else form.fill config := by
  cases brings with
  | loaded | saved => rfl
  | imported decoded parsed =>
      have read := Config.import?_eq_ok.mpr ⟨_, _, rfl, decoded, parsed⟩
      simp [Move.reform, Operation.reform, read, Except.toOption]

/-- The configurations that were taken over, in the order in which they were. -/
def History.brought (log : History) : List (Source × Config) :=
  log.filterMap fun d => d.move.brings?

section

variable {world : World} {first s s' : Station} {m : Move} {log : History}

theorem Step.config_eq (step : Step world s m s') :
    s'.desk.config = (m.brings?.map (·.2)).getD s.desk.config := by
  rw [step.desk_eq]
  cases m with
  | operate o => exact s.desk.config_operate s.moment o
  | handle c => exact s.desk.config_handle s.moment c
  | work | wake | outside => rfl

theorem Step.form_eq (step : Step world s m s') : s'.desk.form = m.reform s.desk.form := by
  rw [step.desk_eq]
  cases m with
  | operate o => exact s.desk.form_operate s.moment o
  | handle c => exact s.desk.form_handle s.moment c
  | work | wake | outside => rfl

theorem History.brought_append (log : History) (d : Deed) :
    History.brought (log ++ [d]) = log.brought ++ d.move.brings?.toList := by
  cases brings : d.move.brings? <;> simp [History.brought, brings]

theorem Run.config_eq (run : Run world first log s) :
    s.desk.config = (log.brought.getLast?.map (·.2)).getD first.desk.config := by
  induction run with
  | begin => rfl
  | @step log s s' m run step ih =>
      rw [step.config_eq, History.brought_append]
      cases m.brings? with
      | none =>
          rw [Option.toList_none, List.append_nil]
          exact ih
      | some entry =>
          rw [Option.toList_some, List.getLast?_concat]
          rfl

theorem Run.form_eq (run : Run world first log s) :
    s.desk.form = log.foldl (fun form d => d.move.reform form) first.desk.form := by
  induction run with
  | begin => rfl
  | step run step ih =>
      rw [step.form_eq, List.foldl_append, ih]
      rfl

/-- Whoever changes the form: the operator, a load that went well, an import of a file that is a
configuration. -/
theorem Step.form_changed (step : Step world s m s') (changed : s'.desk.form ≠ s.desk.form) :
    (∃ key raw, m = .operate (.edit key raw)) ∨ (∃ key value, m = .operate (.put key value)) ∨
      ∃ source config, m.Brings source config ∧ source ≠ .saved ∧
        s'.desk.form = s.desk.form.fill config := by
  have filled {source : Source} {config : Config} (brings : m.Brings source config)
      (other : source ≠ .saved) : ∃ source config, m.Brings source config ∧ source ≠ .saved ∧
        s'.desk.form = s.desk.form.fill config := by
    refine ⟨source, config, brings, other, ?_⟩
    rw [step.form_eq, brings.reform, if_neg other]
  rw [step.form_eq] at changed
  cases m with
  | operate o =>
      cases o with
      | edit key raw => exact .inl ⟨key, raw, rfl⟩
      | put key value => exact .inr (.inl ⟨key, value, rfl⟩)
      | importConfig file =>
          cases read : Config.import? file with
          | ok config =>
              obtain ⟨bytes, text, rfl, decoded, parsed⟩ := Config.import?_eq_ok.mp read
              exact .inr (.inr (filled (.imported decoded parsed) nofun))
          | error f =>
              refine absurd ?_ changed
              simp [Move.reform, Operation.reform, read, Except.toOption]
      | startup | load | save | toggle | clear | askStatus | exportConfig | startPolling
      | stopPolling => exact absurd rfl changed
  | handle c =>
      cases c with
      | configLoaded result =>
          cases result with
          | ok config => exact .inr (.inr (filled (.loaded config) nofun))
          | error f => exact absurd rfl changed
      | configSaved | statsFetched | statsCleared | toggleFinished | engineStatus | alertExpired =>
          exact absurd rfl changed
  | work | wake | outside => exact absurd rfl changed

end

/-! ## What saves submit -/

def Request.submits? : Request → Option Config
  | .saveConfig submitted => some submitted
  | _ => none

def Completion.submitted? : Completion → Option Config
  | .configSaved submitted _ => some submitted
  | _ => none

def Deed.submits? (d : Deed) : Option Config :=
  match d.move with
  | .operate .save => some d.before.desk.form.values
  | _ => none

/-- What the form stood for each time that the operator asked for a save. -/
def History.submitted (log : History) : List Config :=
  log.filterMap Deed.submits?

theorem Deed.submits_issued (d : Deed) :
    d.issued.filterMap Request.submits? = d.submits?.toList := by
  obtain ⟨s, m⟩ := d
  cases m with
  | operate o =>
      rw [issued_operate]
      cases o with
      | toggle =>
          dsimp only [Operation.requests]
          split
          · rfl
          · cases s.desk.state <;> rfl
      | clear agreed => cases agreed <;> rfl
      | startup | load | save | askStatus | exportConfig | importConfig | startPolling
      | stopPolling | edit | put => rfl
  | handle c =>
      rw [issued_handle]
      cases c with
      | statsCleared result => cases result <;> rfl
      | configLoaded | configSaved | statsFetched | toggleFinished | engineStatus | alertExpired =>
          rfl
  | work job =>
      refine List.filterMap_eq_nil_iff.mpr fun r member => ?_
      rw [issued_work member]
      rfl
  | wake | outside => rfl

theorem History.submits_issued (log : History) :
    log.issued.filterMap Request.submits? = log.submitted := by
  induction log with
  | nil => rfl
  | cons d rest ih =>
      have whole : History.issued (d :: rest) = d.issued ++ History.issued rest :=
        List.flatMap_cons
      rw [whole, List.filterMap_append, d.submits_issued, ih]
      cases submits : d.submits? <;> simp [History.submitted, submits]

theorem Request.count_save (l : List Request) (config : Config) :
    (Request.matters l).count (.save config) = (l.filterMap Request.submits?).count config := by
  rw [Request.count_matters, List.count_filterMap]
  refine List.countP_congr fun r _ => ?_
  cases r <;> simp [Request.matter, Request.submits?]

theorem Completion.count_save (l : List Completion) (config : Config) :
    (Completion.matters l).count (.save config) =
      (l.filterMap Completion.submitted?).count config := by
  rw [Completion.count_matters, List.count_filterMap]
  refine List.countP_congr fun c _ => ?_
  cases c <;> simp [Completion.matter?, Completion.submitted?]

theorem Request.count_saveConfig (l : List Request) (config : Config) :
    (l.filterMap Request.submits?).count config = l.count (.saveConfig config) := by
  rw [List.count_filterMap, List.count_eq_countP]
  refine List.countP_congr fun r _ => ?_
  cases r <;> simp [Request.submits?]

/-- What comes of working on a save: it goes on, or it ends as the save of what it submitted,
which is all that an engine can take over from it. -/
theorem Agenda.Ran.saved {a b : Agenda} {job : Job} {config : Config} (ran : Ran a job b)
    (saves : job.request? = some (.saveConfig config)) :
    (b.arrived = a.arrived ∨ ∃ result, b.arrived = a.arrived ++ [.configSaved config result]) ∧
      (b.engine.config ≠ a.engine.config → b.engine.config = config) := by
  have ended {c : Completion} {r : Request} (asked : job.request? = some r)
      (fits : c.matter? = some r.matter) : ∃ result, c = .configSaved config result := by
    obtain rfl := Option.some.inj (asked.symm.trans saves)
    cases c with
    | configSaved submitted result =>
        obtain rfl := Matter.save.inj (Option.some.inj fits)
        exact ⟨result, rfl⟩
    | configLoaded | statsFetched | statsCleared | toggleFinished | engineStatus => cases fits
    | alertExpired => cases fits
  cases ran with
  | @served r seen asked alive silent engine arrived under =>
      obtain ⟨result, saved⟩ := ended asked (Engine.matter_serve { a.engine with seen } a.uptime r)
      refine ⟨.inr ⟨result, saved ▸ arrived⟩, fun changed => ?_⟩
      have takes := Engine.config_serve { a.engine with seen } a.uptime r
      rw [← engine, saved] at takes
      cases result with
      | ok u => exact takes
      | error f => exact absurd takes changed
  | scripted asked alive answer engine arrived under =>
      obtain ⟨result, saved⟩ := ended asked (Scripted.matter_completion answer)
      exact ⟨.inr ⟨result, saved ▸ arrived⟩, fun changed => absurd (congrArg _ engine) changed⟩
  | kept asked alive engine arrived under =>
      exact ⟨.inl arrived, fun changed => absurd (congrArg Engine.config engine) changed⟩
  | crashed asked dead engine arrived under | idle asked alive engine arrived under =>
      exact ⟨.inl arrived, fun changed => absurd (congrArg _ engine) changed⟩
  | expired asked alive none engine arrived under => cases asked.symm.trans saves

section

variable {form : Form} {options : Options} {engine : Engine} {latency : Nat} {clock : String}
  {log : History} {s s' : Station} {m : Move}

/-- Each save carries what it submitted to its end. -/
theorem Run.saves_balance (run : Run .any (.opened form options engine latency clock) log s)
    (config : Config) :
    log.submitted.count config = s.agenda.underway.count (.saveConfig config) +
      ((log.handled ++ s.agenda.arrived).filterMap Completion.submitted?).count config +
      log.crashed.count (.saveConfig config) := by
  have counts := congrArg (Multiset.count (.save config)) run.balance
  have underway : (s.agenda.underway.map Request.matter).count (.save config) =
      s.agenda.underway.count (.saveConfig config) :=
    (Request.count_save _ _).trans
      ((Request.count_saveConfig _ _).trans (Multiset.coe_count _ _).symm)
  rw [Agenda.concerns, Multiset.count_add, Multiset.count_add, Multiset.count_add, underway,
    Completion.count_save, Completion.count_save, Request.count_save, Request.count_save,
    Request.count_saveConfig, log.submits_issued] at counts
  rw [← counts, List.filterMap_append, List.count_append]
  omega

/-- The desk has the configuration that was taken over last: one that was loaded, one that was
saved, or what the bytes of an imported file say. A save submits what the form stands for when it is
asked for, the same all the way to its end. The form is changed by the operator, and by what is
loaded or what an imported file says. -/
theorem config_is_taken_over_last
    (run : Run .any (.opened form options engine latency clock) log s) :
    s.desk.config = (log.brought.getLast?.map (·.2)).getD .empty ∧
    (∀ (m : Move) source config, m.brings? = some (source, config) ↔ m.Brings source config) ∧
    (∀ d ∈ log, d.move = .operate .save → d.issued = [.saveConfig d.before.desk.form.values]) ∧
    (∀ config, log.submitted.count config = s.agenda.underway.count (.saveConfig config) +
      ((log.handled ++ s.agenda.arrived).filterMap Completion.submitted?).count config +
      log.crashed.count (.saveConfig config)) ∧
    (∀ job s' config, Step .any s (.work job) s' → job.request? = some (.saveConfig config) →
      (s'.agenda.arrived = s.agenda.arrived ∨
        ∃ result, s'.agenda.arrived = s.agenda.arrived ++ [.configSaved config result]) ∧
      (s'.agenda.engine.config ≠ s.agenda.engine.config →
        s'.agenda.engine.config = config)) ∧
    s.desk.form = log.foldl (fun form d => d.move.reform form) form ∧
    (∀ (m : Move) source config, m.Brings source config →
      ∀ form, m.reform form = if source = .saved then form else form.fill config) ∧
    (∀ m s', Step .any s m s' → s'.desk.form ≠ s.desk.form →
      (∃ key raw, m = .operate (.edit key raw)) ∨ (∃ key value, m = .operate (.put key value)) ∨
        ∃ source config, m.Brings source config ∧ source ≠ .saved ∧
          s'.desk.form = s.desk.form.fill config) := by
  refine ⟨?_, fun _ _ _ => Move.brings_iff, ?_, run.saves_balance, ?_, ?_,
    fun _ _ _ brings => brings.reform, ?_⟩
  · have config := run.config_eq
    rwa [Station.desk_opened] at config
  · rintro ⟨before, move⟩ - rfl
    exact Deed.issued_operate before .save
  · intro job s' config step saves
    cases step with
    | @work before after job member =>
        exact (Agenda.ran { s.agenda with ready := before ++ after } job).saved saves
  · have form := run.form_eq
    rwa [Station.desk_opened] at form
  · intro m s' step changed
    exact step.form_changed changed

end

/-- A field is edited again while its save is under way, and then a file is imported. -/
theorem save_keeps_to_what_it_submitted :
    let first : Station :=
      .opened (Form.declare .empty "Iface" .text) {} { config := .empty } 0 "12:00:00"
    let file := Text.encode "\x7b\"Iface\":\"eth2\"\x7d"
    ∃ log s s', Run .any first log s ∧ s.desk.config = .ofList [("Iface", .text "eth0")] ∧
      s.desk.form.values = .ofList [("Iface", .text "eth1")] ∧
      Step .any s (.operate (.importConfig (some file))) s' ∧
      s'.desk.config = .ofList [("Iface", .text "eth2")] ∧
      s'.desk.form.values = .ofList [("Iface", .text "eth2")] := by
  have parsed : Config.parse "\x7b\"Iface\":\"eth2\"\x7d" =
      .ok (.ofList [("Iface", .text "eth2")]) := by decide +kernel
  intro first file
  have opened : Run .any first [] first := .begin
  have typed := opened.step (.operate (.edit "Iface" "eth0"))
  have asked := typed.step (.operate .save)
  have changed := asked.step (.operate (.edit "Iface" "eth1"))
  have served := changed.step
    (@Step.work _ _ [] [] (.begin (.saveConfig (.ofList [("Iface", .text "eth0")])) none) rfl)
  have run := served.step
    (@Step.handle _ _ (.configSaved (.ofList [("Iface", .text "eth0")]) (.ok ())) [] rfl)
  have imported := run.step (.operate (.importConfig (some file)))
  have brings := Move.Brings.imported (Text.decode?_encode _) parsed
  obtain ⟨config, -, -, -, -, form, -⟩ := config_is_taken_over_last run
  obtain ⟨config', taken, -, -, -, form', fills, -⟩ := config_is_taken_over_last imported
  refine ⟨_, _, _, run, config, by rw [form]; rfl, .operate _, ?_, ?_⟩
  · rw [config', History.brought_append, (taken _ _ _).mpr brings, Option.toList_some,
      List.getLast?_concat]
    rfl
  · rw [form', List.foldl_append, List.foldl_cons, List.foldl_nil, fills _ _ _ brings]
    rfl

end EngineConsole
