import EngineConsole.Proofs.ConfigProvenance
import EngineConsole.Proofs.Run.Simulated
import EngineConsole.Proofs.StartStop

/-!
# Agreement with a simulated engine

What the desk knows of an engine that nobody else deals with is right, but for what waits in the
queue: whether the engine runs, and which configuration it has. Serving a request and queueing its
completion are one step, so completions are queued in the order in which the engine changed.
-/

set_option autoImplicit false

namespace EngineConsole

/-! ## Whether the engine runs -/

def Completion.isGrant : Completion → Bool
  | .toggleFinished (.ok _) => true
  | _ => false

/-- An engine is started or stopped with every grant, and never else. -/
theorem Engine.running_serve (e : Engine) (uptime : String) (r : Request) :
    (e.serve uptime r).1.running = (e.running ^^ (e.serve uptime r).2.isGrant) := by
  have still : e.running = (e.running ^^ false) := (Bool.xor_false _).symm
  unfold Engine.serve
  split
  next => cases r <;> exact still
  next =>
    cases r with
    | start =>
        dsimp only [Engine.start]
        split
        · exact still
        next idle =>
          split
          · exact still
          · rw [Bool.not_eq_true _ |>.mp idle]
            rfl
    | stop =>
        dsimp only [Engine.stop]
        split
        next runs =>
          rw [runs]
          rfl
        next => exact still
    | loadConfig | saveConfig | fetchStats | clearStats | askStatus => exact still

theorem Completion.eq_of_isGrant {c : Completion} (grant : c.isGrant = true) :
    c = .toggleFinished (.ok ()) := by
  cases c with
  | toggleFinished result =>
      cases result with
      | ok u => rfl
      | error f => cases grant
  | configLoaded | configSaved | statsFetched | statsCleared | engineStatus => cases grant
  | alertExpired => cases grant

private theorem no_grant {l : List Completion} (none : l.countP Completion.isGrant = 0) :
    l.any Completion.isGrant = false := by
  rw [List.any_eq_false]
  intro c queued
  exact List.countP_eq_zero.mp none c queued

section

variable {form : Form} {options : Options} {engine : Engine} {latency : Nat} {clock : String}
  {log : History} {s s' : Station} {m : Move}

theorem Step.isRunning_eq {world : World} (step : Step world s m s') :
    s'.desk.state.isRunning =
      (s.desk.state.isRunning ^^ (Deed.mk s m).handled?.any Completion.isGrant) := by
  have still : s.desk.state.isRunning = (s.desk.state.isRunning ^^ false) :=
    (Bool.xor_false _).symm
  rw [step.state_eq]
  cases m with
  | handle c =>
      cases c with
      | toggleFinished result =>
          cases result with
          | ok u => exact (RunState.isRunning_toggled _).trans (Bool.xor_true _).symm
          | error f => exact still
      | configLoaded | configSaved | statsFetched | statsCleared | engineStatus | alertExpired =>
          exact still
  | operate | work | wake | outside => exact still

/-- One start or stop at most is under way or granted in the queue. -/
theorem Run.grants_le (run : Run .any (.opened form options engine latency clock) log s) :
    (s.agenda.underway.map Request.matter).count .toggle +
      s.agenda.arrived.countP Completion.isGrant ≤ 1 := by
  have queued : s.agenda.arrived.countP Completion.isGrant ≤
      (Completion.matters s.agenda.arrived).count .toggle := by
    rw [Completion.count_matters]
    refine List.countP_mono_left ?_
    intro c _ grant
    rw [Completion.eq_of_isGrant grant]
    rfl
  have outstanding := run.toggles_le_outstanding
  rw [run.inTurn.outstanding_eq, Agenda.concerns, Multiset.count_add] at outstanding
  split at outstanding <;> omega

/-- The desk knows whether the engine runs, but for a grant that waits in the queue. -/
def Station.KnowsRunning (s : Station) : Prop :=
  s.agenda.engine.running =
    (s.desk.state.isRunning ^^ s.agenda.arrived.any Completion.isGrant)

/-- A change of the engine or of the desk keeps them in agreement if the grant behind it is the
only one. -/
private theorem xor_or {running known queued grant : Bool} (agree : running = (known ^^ queued))
    (lone : grant = true → queued = false) : (running ^^ grant) = (known ^^ (queued || grant)) := by
  cases grant with
  | false => rw [agree, Bool.xor_false, Bool.or_false]
  | true => rw [agree, lone rfl, Bool.xor_false, Bool.false_or]

theorem Run.no_grant_of_underway (run : Run .any (.opened form options engine latency clock) log s)
    {r : Request} (member : r ∈ s.agenda.underway) (about : r.matter = .toggle) :
    s.agenda.arrived.any Completion.isGrant = false := by
  have some : 0 < (s.agenda.underway.map Request.matter).count .toggle :=
    Multiset.count_pos.mpr (Multiset.mem_map.mpr ⟨r, member, about⟩)
  have one := run.grants_le
  exact no_grant (by omega)

theorem Run.no_other_grant (run : Run .any (.opened form options engine latency clock) log s)
    {c : Completion} {rest : List Completion} (head : s.agenda.arrived = c :: rest)
    (grant : c.isGrant = true) : rest.any Completion.isGrant = false := by
  have one := run.grants_le
  rw [head, List.countP_cons, if_pos grant] at one
  exact no_grant (by omega)

theorem Station.KnowsRunning.step (knows : s.KnowsRunning)
    (run : Run .any (.opened form options engine latency clock) log s)
    (step : Step .simulated s m s') (unscripted : s.agenda.Unscripted) : s'.KnowsRunning := by
  unfold Station.KnowsRunning at knows ⊢
  have state := step.isRunning_eq
  cases step.stirred unscripted with
  | @answered _ job r seen asked member engine arrived =>
      have same : s'.desk.state.isRunning = s.desk.state.isRunning :=
        state.trans (Bool.xor_false _)
      rw [same, arrived, List.any_append, engine, Engine.running_serve]
      refine (xor_or knows ?_).trans ?_
      · intro grant
        have fits := Engine.matter_serve { s.agenda.engine with seen } s.agenda.uptime r
        rw [Completion.eq_of_isGrant grant] at fits
        exact run.no_grant_of_underway member (Option.some.inj fits).symm
      · rw [List.any_cons, List.any_nil, Bool.or_false]
  | expired asked engine arrived =>
      rw [state, arrived, engine, List.any_append]
      refine knows.trans ?_
      exact congrArg₂ _ (Bool.xor_false _).symm (Bool.or_false _).symm
  | @handled _ c head engine =>
      rw [head, List.any_cons] at knows
      rw [engine, state, knows]
      change (_ ^^ (c.isGrant || _)) = ((_ ^^ c.isGrant) ^^ _)
      cases grant : c.isGrant with
      | false => rw [Bool.false_or, Bool.xor_false]
      | true => rw [run.no_other_grant head grant, Bool.true_or, Bool.xor_false]
  | quiet handled arrived config running =>
      rw [handled] at state
      rw [running, arrived, knows, state]
      exact congrArg (· ^^ _) (Bool.xor_false _).symm

theorem Run.knowsRunning (stopped : engine.running = false)
    (run : Run .simulated (.opened form options engine latency clock) log s) : s.KnowsRunning := by
  induction run with
  | begin =>
      unfold Station.KnowsRunning
      rw [Station.agenda_opened, Station.desk_opened]
      exact stopped
  | step run step ih =>
      exact ih.step (run.weaken fun _ _ => World.simulated_any) step
        (run.unscripted (Station.unscripted_opened _ _ _ _ _))

/-! ## Why starts and stops fail -/

/-- An engine that is in the other state grants what it is asked for, unless it cannot be reached
or has nothing to start with. -/
theorem Engine.serve_refused {e : Engine} {uptime : String} {state : RunState} {f : Failure}
    (other : e.running = state.isRunning)
    (failed : (e.serve uptime (Desk.requestFor state.toggled)).2 = .toggleFinished (.error f)) :
    (e.offline = true ∧
        f = .unreachable (Desk.requestFor state.toggled).endpoint.path "connection refused") ∨
      (e.offline = false ∧ Desk.requestFor state.toggled = .start ∧ e.config.isEmpty = true ∧
        f = Engine.refusal .start "No configuration available") := by
  unfold Engine.serve at failed
  split at failed
  next offline =>
    refine .inl ⟨offline, ?_⟩
    cases state <;> cases failed <;> rfl
  next reached =>
    refine .inr ⟨Bool.not_eq_true _ |>.mp reached, ?_⟩
    cases state with
    | stopped =>
        have idle : e.running = false := other
        simp only [RunState.toggled, Desk.requestFor, Engine.start, idle, Bool.false_eq_true,
          if_false] at failed
        split at failed
        next none =>
          cases failed
          exact ⟨rfl, none, rfl⟩
        next => cases failed
    | running =>
        have runs : e.running = true := other
        simp only [RunState.toggled, Desk.requestFor, Engine.stop, runs, if_true] at failed
        cases failed

theorem Run.toggle_refused (stopped : engine.running = false)
    (run : Run .simulated (.opened form options engine latency clock) log s) {job : Job}
    {f : Failure} (step : Step .simulated s (.work job) s')
    (failed : s'.agenda.arrived = s.agenda.arrived ++ [.toggleFinished (.error f)]) :
    (s.agenda.engine.offline = true ∧ ∃ r, job.request? = some r ∧
        f = .unreachable r.endpoint.path "connection refused") ∨
      (s.agenda.engine.offline = false ∧ job.request? = some .start ∧
        s.agenda.engine.config.isEmpty = true ∧
        f = Engine.refusal .start "No configuration available") := by
  have wide := run.weaken fun _ _ => World.simulated_any
  cases step.stirred (run.unscripted (Station.unscripted_opened _ _ _ _ _)) with
  | @answered _ _ r seen asked member engine arrived =>
      have served := List.singleton_inj.mp (List.append_cancel_left (arrived.symm.trans failed))
      have about : r.matter = .toggle := by
        have fits := Engine.matter_serve { s.agenda.engine with seen } s.agenda.uptime r
        rw [served] at fits
        exact (Option.some.inj fits).symm
      have target := wide.underway_toggle r member (decide_eq_true about)
      have other : { s.agenda.engine with seen }.running = s.desk.state.isRunning := by
        have knows := run.knowsRunning stopped
        rw [Station.KnowsRunning, wide.no_grant_of_underway member about] at knows
        exact knows.trans (Bool.xor_false _)
      rw [target] at served asked
      rcases Engine.serve_refused other served with
        ⟨offline, unreachable⟩ | ⟨reached, start, refused⟩
      · exact .inl ⟨offline, _, asked, unreachable⟩
      · exact .inr ⟨reached, start ▸ asked, refused⟩
  | expired asked engine arrived =>
      cases List.singleton_inj.mp (List.append_cancel_left (arrived.symm.trans failed))
  | quiet handled arrived config running =>
      cases List.self_eq_append_right.mp (arrived.symm.trans failed)

/-! ## Completions in the order of service -/

/-- Nothing is added to the completions that were handled and those that wait, but at their end,
when the engine takes part. -/
theorem Stirred.completions (stirred : Stirred s m s') (log : History) :
    (History.handled (log ++ [⟨s, m⟩]) ++ s'.agenda.arrived = log.handled ++ s.agenda.arrived ∧
        s'.agenda.engine.config = s.agenda.engine.config) ∨
      ∃ job c, m = .work job ∧ s'.agenda.arrived = s.agenda.arrived ++ [c] ∧
        History.handled (log ++ [⟨s, m⟩]) ++ s'.agenda.arrived =
          log.handled ++ s.agenda.arrived ++ [c] ∧
        s'.agenda.engine.config = (c.brings?.map (·.2)).getD s.agenda.engine.config := by
  rw [History.handled_append]
  cases stirred with
  | @answered _ job r seen asked member engine arrived =>
      refine .inr ⟨job, _, rfl, arrived, ?_, ?_⟩
      · rw [arrived]
        simp [Deed.handled?]
      · rw [engine]
        exact Engine.config_serve _ _ _
  | @expired _ job id asked engine arrived =>
      refine .inr ⟨job, _, rfl, arrived, ?_, ?_⟩
      · rw [arrived]
        simp [Deed.handled?]
      · rw [engine]
        rfl
  | handled head engine =>
      refine .inl ⟨?_, congrArg Engine.config engine⟩
      rw [head]
      simp [Deed.handled?]
  | quiet handled arrived config running =>
      refine .inl ⟨?_, config⟩
      rw [handled, arrived, Option.toList_none, List.append_nil]

theorem Run.never_out_of_turn (stopped : engine.running = false)
    (run : Run .simulated (.opened form options engine latency clock) log s) {f : Failure}
    (failed : Completion.toggleFinished (.error f) ∈ log.handled ++ s.agenda.arrived) :
    f ≠ Engine.refusal .start "System is already running" ∧
      f ≠ Engine.refusal .stop "System is not running" := by
  induction run with
  | begin =>
      rw [Station.agenda_opened] at failed
      cases failed
  | @step log s s' m run step ih =>
      have unscripted := run.unscripted (Station.unscripted_opened _ _ _ _ _)
      rcases (step.stirred unscripted).completions log with
        ⟨same, -⟩ | ⟨job, c, rfl, arrived, more, -⟩
      · exact ih (same ▸ failed)
      · rw [more] at failed
        rcases List.mem_append.mp failed with old | new
        · exact ih old
        · rw [← List.mem_singleton.mp new] at arrived
          rcases run.toggle_refused stopped step arrived with
            ⟨-, r, -, unreachable⟩ | ⟨-, -, -, refused⟩
          · rw [unreachable]
            exact ⟨Failure.noConfusion, Failure.noConfusion⟩
          · rw [refused]
            decide

/-- A desk and an engine that starts out stopped agree on whether the engine runs, but for a grant
that waits in the queue. No start or stop comes at the wrong time: one fails if the engine cannot
be reached when it is served, or if there is nothing to start with. -/
theorem desk_knows_whether_engine_runs (stopped : engine.running = false)
    (run : Run .simulated (.opened form options engine latency clock) log s) :
    s.agenda.engine.running =
      (s.desk.state.isRunning ^^ s.agenda.arrived.any Completion.isGrant) ∧
    (s.desk.pending = false → s.agenda.engine.running = s.desk.state.isRunning) ∧
    (∀ job s' f, Step .simulated s (.work job) s' →
      s'.agenda.arrived = s.agenda.arrived ++ [.toggleFinished (.error f)] →
      (s.agenda.engine.offline = true ∧ ∃ r, job.request? = some r ∧
          f = .unreachable r.endpoint.path "connection refused") ∨
        (s.agenda.engine.offline = false ∧ job.request? = some .start ∧
          s.agenda.engine.config.isEmpty = true ∧
          f = Engine.refusal .start "No configuration available")) ∧
    (∀ f, Completion.toggleFinished (.error f) ∈ log.handled ++ s.agenda.arrived →
      f ≠ Engine.refusal .start "System is already running" ∧
        f ≠ Engine.refusal .stop "System is not running") := by
  have knows := run.knowsRunning stopped
  refine ⟨knows, ?_, ?_, ?_⟩
  · intro idle
    have wide := run.weaken fun _ _ => World.simulated_any
    have none : s.agenda.arrived.any Completion.isGrant = false := by
      rw [List.any_eq_false]
      intro c queued grant
      rw [Completion.eq_of_isGrant grant] at queued
      have busy := wide.inTurn.pending_of_queued wide.toggles_le rfl queued
      rw [idle] at busy
      cases busy
    rw [Station.KnowsRunning, none] at knows
    exact knows.trans (Bool.xor_false _)
  · intro job s' f step failed
    exact run.toggle_refused stopped step failed
  · intro f failed
    exact run.never_out_of_turn stopped failed

end

/-- The engine runs as soon as it grants a start, and the desk knows once it hears of that. -/
theorem desk_hears_of_first_start :
    let first : Station :=
      .opened .empty {} { config := .ofList [("Iface", .text "eth0")] } 0 "12:00:00"
    ∃ log s, Run .simulated first log s ∧ s.desk.state = .stopped ∧
      s.agenda.engine.running = true := by
  intro first
  have opened : Run .simulated first [] first := .begin
  have pressed := opened.step (.operate .toggle)
  have run := pressed.step (@Step.work _ _ [] [] (.begin .start none) rfl)
  obtain ⟨running, -⟩ := desk_knows_whether_engine_runs rfl run
  exact ⟨_, _, run, rfl, running⟩

/-! ## Which configuration the engine has -/

theorem History.brought_handled (log : History) :
    log.handled.filterMap Completion.brings? = log.brought.filter fun e => e.1 ≠ .imported := by
  induction log with
  | nil => rfl
  | cons d rest ih =>
      have handled : History.handled (d :: rest) = d.handled?.toList ++ History.handled rest := by
        cases handled : d.handled? <;> simp [History.handled, handled]
      have brought : History.brought (d :: rest) =
          d.move.brings?.toList ++ History.brought rest := by
        cases brings : d.move.brings? <;> simp [History.brought, brings]
      rw [handled, brought, List.filterMap_append, List.filter_append, ih]
      congr 1
      obtain ⟨s, m⟩ := d
      cases m with
      | operate o =>
          cases o with
          | importConfig file =>
              dsimp only [Deed.handled?, Move.brings?, Operation.brings?]
              cases Config.import? file <;> rfl
          | startup | load | save | toggle | clear | askStatus | exportConfig | startPolling
          | stopPolling | edit | put => rfl
      | handle c =>
          cases c with
          | configLoaded result => cases result <;> rfl
          | configSaved submitted result => cases result <;> rfl
          | statsFetched | statsCleared | toggleFinished | engineStatus | alertExpired => rfl
      | work | wake | outside => rfl

section

variable {form : Form} {options : Options} {engine : Engine} {latency : Nat} {clock : String}
  {log : History} {s : Station}

/-- The last configuration that the engine handed out or took over is the one that it has. -/
theorem Run.engine_config (run : Run .simulated (.opened form options engine latency clock) log s)
    {src : Source} {config : Config}
    (last : ((log.handled ++ s.agenda.arrived).filterMap Completion.brings?).getLast? =
      some (src, config)) : s.agenda.engine.config = config := by
  induction run with
  | begin =>
      rw [Station.agenda_opened] at last
      cases last
  | @step log s s' m run step ih =>
      have unscripted := run.unscripted (Station.unscripted_opened _ _ _ _ _)
      rcases (step.stirred unscripted).completions log with
        ⟨same, kept⟩ | ⟨job, c, -, -, more, takes⟩
      · rw [same] at last
        exact kept.trans (ih last)
      · rw [more, List.filterMap_append] at last
        rw [takes]
        cases brings : c.brings? with
        | none =>
            have nothing : [c].filterMap Completion.brings? = [] := by
              rw [List.filterMap_cons, brings, List.filterMap_nil]
            rw [nothing, List.append_nil] at last
            exact ih last
        | some entry =>
            have one : [c].filterMap Completion.brings? = [entry] := by
              rw [List.filterMap_cons, brings, List.filterMap_nil]
            rw [one, List.getLast?_concat] at last
            rw [Option.some.inj last]
            rfl

/-- The last configuration that comes with the queue is the engine's. Where none comes, the engine
has the one that the desk loaded or saved last, unless the desk imported another one since. -/
theorem desk_and_engine_share_config
    (run : Run .simulated (.opened form options engine latency clock) log s) :
    (∀ src config, (s.agenda.arrived.filterMap Completion.brings?).getLast? = some (src, config) →
      s.agenda.engine.config = config) ∧
    (s.agenda.arrived.filterMap Completion.brings? = [] →
      ∀ src config, log.brought.getLast? = some (src, config) → src ≠ .imported →
        s.desk.config = s.agenda.engine.config) := by
  refine ⟨?_, ?_⟩
  · intro src config last
    have whole : ((log.handled ++ s.agenda.arrived).filterMap Completion.brings?).getLast? =
        some (src, config) := by
      rw [List.filterMap_append, List.getLast?_append, last]
      rfl
    exact run.engine_config whole
  · intro none src config last taken
    obtain ⟨earlier, brought⟩ := List.getLast?_eq_some_iff.mp last
    have whole : ((log.handled ++ s.agenda.arrived).filterMap Completion.brings?).getLast? =
        some (src, config) := by
      rw [List.filterMap_append, none, List.append_nil, History.brought_handled, brought,
        List.filter_append, List.filter_cons_of_pos (by simpa using taken)]
      exact List.getLast?_concat
    have desk := run.config_eq
    rw [last] at desk
    exact desk.trans (run.engine_config whole).symm

end

/-- A save overtakes a load, and both have ended. -/
theorem desk_shares_overtaking_config :
    let first : Station := .opened (Form.declare .empty "Iface" .text) {}
      { config := .ofList [("Iface", .text "eth0")] } 0 "12:00:00"
    ∃ log s, Run .simulated first log s ∧
      log.brought.map (·.1) = [.saved, .loaded] ∧ s.agenda.arrived = [] ∧
      s.desk.config = s.agenda.engine.config := by
  intro first
  let submitted : Config := .ofList [("Iface", .text "")]
  have opened : Run .simulated first [] first := .begin
  have asked := (opened.step (.operate .load)).step (.operate .save)
  have saved := asked.step
    (@Step.work _ _ [.begin .loadConfig none] [] (.begin (.saveConfig submitted) none) rfl)
  have loaded := saved.step (@Step.work _ _ [] [] (.begin .loadConfig none) rfl)
  have heard := loaded.step
    (@Step.handle _ _ (.configSaved submitted (.ok ())) [.configLoaded (.ok submitted)] rfl)
  have run := heard.step (@Step.handle _ _ (.configLoaded (.ok submitted)) [] rfl)
  obtain ⟨-, shared⟩ := desk_and_engine_share_config run
  exact ⟨_, _, run, rfl, rfl, shared rfl .loaded _ rfl (by decide)⟩

end EngineConsole
