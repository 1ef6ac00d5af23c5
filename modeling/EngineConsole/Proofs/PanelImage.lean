import EngineConsole.Proofs.Readings

/-!
# The panel is an image of the desk

Six ports write on one panel, each from its own part of the desk and at its own moment. What is on
the panel is nevertheless what the desk knows: the alerts that are visible, the samples of the
chart, the counters that were fetched last, and a control that works exactly while no start or stop
is under way. Only the state beside the counters is older than the desk's: it is the one that was
known when they arrived.
-/

set_option autoImplicit false

namespace EngineConsole

/-! ## The last reading -/

/-- The state that counters are shown beside when a step takes them over. -/
def Deed.readIn? (d : Deed) : Option RunState :=
  d.reading?.map fun _ => d.before.desk.state

/-- The state that was known when counters were taken over last. -/
def History.lastReadIn (log : History) : Option RunState :=
  (log.filterMap Deed.readIn?).getLast?

theorem History.lastReadIn_append (log : History) (d : Deed) :
    History.lastReadIn (log ++ [d]) = d.readIn?.or log.lastReadIn := by
  cases read : d.readIn? <;> simp [History.lastReadIn, read]

namespace Panel

/-- What is shown on a panel, one thing after the other. -/
def displayAll (p : Panel) (showings : List Showing) : Panel :=
  showings.foldl display p

theorem displayAll_append (p : Panel) (first more : List Showing) :
    p.displayAll (first ++ more) = (p.displayAll first).displayAll more :=
  List.foldl_append

theorem displayAll_gauges (p : Panel) (text : Gauge → String) (l : List Gauge) :
    p.displayAll (l.map fun g => .gauge g (text g)) =
      { p with gauges := fun g => if g ∈ l then some (text g) else p.gauges g } := by
  induction l generalizing p with
  | nil => simp [displayAll]
  | cons g rest ih =>
      refine (ih (p.display (.gauge g (text g)))).trans ?_
      simp only [display, Panel.mk.injEq, and_true]
      funext h
      by_cases same : h = g
      · subst same
        simp
      · simp [same]

/-- A chart is created before its first drawing, and then holds what is drawn. -/
theorem displayAll_push (p : Panel) (chart : Chart) (sample : Sample) :
    p.displayAll ((chart.push sample).2.map .chart) =
      { p with chart := some (chart.push sample).1.samples } := by
  unfold Chart.push
  split <;> rfl

/-- The panel is an image of the desk, where counters were last taken over in a state. Without a
state no counters were taken over so far. -/
structure Mirrors (p : Panel) (desk : Desk) (readIn : Option RunState) : Prop where
  alerts : p.alerts = desk.alerts.visible
  chart : p.chart = readIn.map fun _ => desk.chart.samples
  gauges : ∀ g, p.gauges g = readIn.map fun _ => Counts.amount (desk.counts.gauge g)
  state : p.state = readIn
  enabled : p.enabled = !desk.pending
  busy : p.busy = desk.pending
  button : p.button = some desk.state.button

namespace Mirrors

variable {p : Panel} {desk : Desk} {readIn : Option RunState}

/-- What the desk knows besides alerts, chart, counters, state and whether a start or stop is under
way is not shown. -/
theorem unseen (mirrors : p.Mirrors desk readIn) (config : Config) (form : Form) :
    p.Mirrors { desk with config, form } readIn :=
  { mirrors with }

theorem raise (mirrors : p.Mirrors desk readIn) (m : Moment) (kind : AlertKind)
    (message : String) :
    (p.displayAll ((desk.raise m kind message).2.filterMap Effect.shown?)).Mirrors
      (desk.raise m kind message).1 readIn :=
  { mirrors with alerts := congrArg (· ++ _) mirrors.alerts }

theorem expire (mirrors : p.Mirrors desk readIn) (id : Nat) :
    (p.displayAll ((desk.expire id).2.filterMap Effect.shown?)).Mirrors
      (desk.expire id).1 readIn := by
  unfold Desk.expire
  split
  · exact { mirrors with alerts := congrArg (List.filter _) mirrors.alerts }
  · exact mirrors

/-- All gauges are written, then the state, then the chart is drawn. -/
theorem fetched (mirrors : p.Mirrors desk readIn) (m : Moment) (state : RunState)
    (counts : Counts) :
    (p.displayAll ((desk.fetched m state (.ok counts)).2.filterMap Effect.shown?)).Mirrors
      (desk.fetched m state (.ok counts)).1 (some state) := by
  have plain {α : Type} (l : List α) (f : α → Showing) :
      (l.map fun x => Effect.show (f x)).filterMap Effect.shown? = l.map f := by
    simp [List.filterMap_map, Effect.shown?, Function.comp_def]
  have shown : (desk.fetched m state (.ok counts)).2.filterMap Effect.shown? =
      (Gauge.all.map fun g => .gauge g (Counts.amount (counts.gauge g))) ++
        ([.state state] ++ (desk.chart.push (.ofCounts m.clock counts)).2.map .chart) := by
    refine List.filterMap_append.trans ?_
    exact congr (congrArg _ (plain _ _)) (congrArg (Showing.state state :: ·) (plain _ .chart))
  rw [shown, displayAll_append, displayAll_append, displayAll_gauges, displayAll_push]
  exact
    { mirrors with
      chart := rfl, state := rfl
      gauges := fun g => by simp [displayAll, display, Gauge.mem_all, Desk.fetched] }

/-- The control is held while a start or stop is under way. -/
theorem toggle (mirrors : p.Mirrors desk readIn) :
    (p.displayAll (desk.toggle.2.filterMap Effect.shown?)).Mirrors desk.toggle.1 readIn := by
  unfold Desk.toggle
  split
  · exact mirrors
  · exact { mirrors with enabled := rfl, busy := rfl }

/-- The alert comes first, and then the control is given back, with the button of the new state. -/
theorem toggled (mirrors : p.Mirrors desk readIn) (m : Moment) (result : Except Failure Unit) :
    (p.displayAll ((desk.toggled m result).2.filterMap Effect.shown?)).Mirrors
      (desk.toggled m result).1 readIn := by
  cases result with
  | ok u =>
      exact
        { mirrors with
          alerts := congrArg (· ++ _) mirrors.alerts
          enabled := rfl, busy := rfl, button := rfl }
  | error f =>
      exact
        { mirrors with
          alerts := congrArg (· ++ _) mirrors.alerts
          enabled := rfl, busy := rfl, button := rfl }

theorem operate (mirrors : p.Mirrors desk readIn) (m : Moment) (o : Operation) :
    (p.displayAll ((desk.operate m o).2.filterMap Effect.shown?)).Mirrors
      (desk.operate m o).1 readIn := by
  cases o with
  | toggle => exact mirrors.toggle
  | clear agreed => cases agreed <;> exact mirrors
  | exportConfig taken =>
      cases taken with
      | true => exact mirrors
      | false => exact mirrors.raise _ _ _
  | importConfig file =>
      dsimp only [Desk.operate]
      cases Config.import? file with
      | ok config => exact (mirrors.unseen config (desk.form.fill config)).raise _ _ _
      | error f => exact mirrors.raise _ _ _
  | edit | put => exact mirrors.unseen desk.config _
  | startup | load | save | askStatus | startPolling | stopPolling => exact mirrors

theorem handle (mirrors : p.Mirrors desk readIn) (m : Moment) {c : Completion}
    (other : ∀ counts, c ≠ .statsFetched (.ok counts)) :
    (p.displayAll ((desk.handle m c).2.filterMap Effect.shown?)).Mirrors
      (desk.handle m c).1 readIn := by
  cases c with
  | configLoaded result =>
      cases result with
      | ok config => exact mirrors.unseen config (desk.form.fill config)
      | error f =>
          cases f with
          | refused => exact mirrors
          | unreachable | undecodable => exact mirrors.raise _ _ _
  | configSaved submitted result =>
      cases result with
      | ok u => exact (mirrors.unseen submitted desk.form).raise _ _ _
      | error f => exact mirrors.raise _ _ _
  | statsFetched result =>
      cases result with
      | ok counts => exact absurd rfl (other counts)
      | error f => exact mirrors
  | statsCleared result => cases result <;> exact mirrors.raise _ _ _
  | toggleFinished result => exact mirrors.toggled m result
  | engineStatus result =>
      cases result with
      | ok status => exact { mirrors with }
      | error f => exact mirrors.raise _ _ _
  | alertExpired id => exact mirrors.expire id

/-! ## What is printed -/

theorem control (mirrors : p.Mirrors desk readIn) :
    p.control = if desk.pending then "working..." else desk.state.button.label := by
  unfold Panel.control
  rw [mirrors.busy, mirrors.button, mirrors.enabled]
  cases desk.pending <;> rfl

end Mirrors

end Panel

section

variable {log : History} {s s' : Station} {m : Move}

theorem Station.panel_take (s : Station) (outcome : Desk × List Effect) :
    (s.take outcome).panel = s.panel.displayAll (outcome.2.filterMap Effect.shown?) := by
  have performed (s : Station) (effects : List Effect) :
      (s.perform effects).panel = s.panel.displayAll (effects.filterMap Effect.shown?) := by
    induction effects generalizing s with
    | nil => rfl
    | cons e rest ih =>
        refine (ih (s.performOne e)).trans ?_
        cases e <;> rfl
  exact performed { s with desk := outcome.1 } outcome.2

theorem Step.mirrors (step : Step .any s m s')
    (mirrors : s.panel.Mirrors s.desk log.lastReadIn) :
    s'.panel.Mirrors s'.desk (History.lastReadIn (log ++ [⟨s, m⟩])) := by
  rw [History.lastReadIn_append]
  cases step with
  | operate o =>
      rw [Station.panel_take, Station.desk_take]
      exact mirrors.operate s.moment o
  | @handle c rest head =>
      rw [Station.handle, Station.panel_take, Station.desk_take]
      by_cases reading : ∃ counts, c = .statsFetched (.ok counts)
      · obtain ⟨counts, rfl⟩ := reading
        exact mirrors.fetched s.moment s.desk.state counts
      · have other : ∀ counts, c ≠ .statsFetched (.ok counts) :=
          fun counts same => reading ⟨counts, same⟩
        have unread : (Deed.mk s (.handle c)).readIn? = none := by
          rw [Deed.readIn?,
            Deed.reading_none fun counts same => other counts (Move.handle.inj same)]
          rfl
        rw [unread]
        exact mirrors.handle s.moment other
  | work | wake | outside => exact mirrors

variable {form : Form} {options : Options} {engine : Engine} {latency : Nat} {clock : String}

theorem Run.mirrors (run : Run .any (.opened form options engine latency clock) log s) :
    s.panel.Mirrors s.desk log.lastReadIn := by
  induction run with
  | begin =>
      exact
        { alerts := rfl, chart := rfl, gauges := fun _ => rfl, state := rfl, enabled := rfl
          busy := rfl, button := rfl }
  | step _ step ih => exact step.mirrors ih

end

end EngineConsole
