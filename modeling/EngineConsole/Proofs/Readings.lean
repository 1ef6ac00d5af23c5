import EngineConsole.Proofs.AlertLifetime
import EngineConsole.Proofs.ChartWindow

/-!
# What the desk makes of readings

The counters that were fetched last are the ones that are shown, and the chart is the window of the
last fetches, in the order in which they were handled. Nothing else has a part in either, and a
fetch that failed leaves everything as it is.
-/

set_option autoImplicit false

namespace EngineConsole

/-! ## Readings of a run -/

/-- The counters that a step takes over, with the time of day. -/
def Deed.reading? (d : Deed) : Option (String × Counts) :=
  match d.move with
  | .handle (.statsFetched (.ok counts)) => some (d.before.clock, counts)
  | _ => none

theorem Deed.reading_some {d : Deed} {r : String × Counts} (reading : d.reading? = some r) :
    ∃ counts, d.move = .handle (.statsFetched (.ok counts)) ∧ r = (d.before.clock, counts) := by
  unfold Deed.reading? at reading
  split at reading
  next counts same => exact ⟨counts, same, (Option.some.inj reading).symm⟩
  next => cases reading

theorem Deed.reading_none {d : Deed}
    (other : ∀ counts, d.move ≠ .handle (.statsFetched (.ok counts))) : d.reading? = none := by
  unfold Deed.reading?
  split
  next counts same => exact absurd same (other counts)
  next => rfl

/-- All counters that were taken over, in the order in which they were. -/
def History.readings (log : History) : List (String × Counts) :=
  log.filterMap Deed.reading?

theorem History.readings_append (log : History) (d : Deed) :
    History.readings (log ++ [d]) = log.readings ++ d.reading?.toList := by
  cases reading : d.reading? <;> simp [History.readings, reading]

/-- The samples of the last readings, as many as a chart has room for. -/
def chartWindow (capacity : Nat) (readings : List (String × Counts)) : List Sample :=
  (readings.map fun r => Sample.ofCounts r.1 r.2).rtake (max capacity 1)

/-! ## Redraws -/

def Showing.redraw? : Showing → Option (List Sample)
  | .chart (.redraw samples) => some samples
  | _ => none

def Effect.redraw? (e : Effect) : Option (List Sample) :=
  e.shown?.bind Showing.redraw?

/-- What was drawn on the chart, each time all samples at once. -/
def Station.redraws (s : Station) : List (List Sample) :=
  s.shown.filterMap Showing.redraw?

theorem Station.redraws_take (s : Station) (outcome : Desk × List Effect) :
    (s.take outcome).redraws = s.redraws ++ outcome.2.filterMap Effect.redraw? := by
  simp only [redraws, shown_take, List.filterMap_append, List.filterMap_filterMap]
  rfl

namespace Desk

variable (desk : Desk) (m : Moment)

/-- Counters and chart are left alone. -/
structure Unread (outcome : Desk × List Effect) : Prop where
  counts : outcome.1.counts = desk.counts
  chart : outcome.1.chart = desk.chart
  redraws : outcome.2.filterMap Effect.redraw? = []

theorem unread_operate (o : Operation) : desk.Unread (desk.operate m o) := by
  cases o with
  | toggle =>
      dsimp only [operate, toggle]
      split <;> exact ⟨rfl, rfl, rfl⟩
  | clear agreed => cases agreed <;> exact ⟨rfl, rfl, rfl⟩
  | exportConfig taken => cases taken <;> exact ⟨rfl, rfl, rfl⟩
  | importConfig file =>
      dsimp only [operate]
      cases Config.import? file <;> exact ⟨rfl, rfl, rfl⟩
  | startup | load | save | askStatus | startPolling | stopPolling | edit | put =>
      exact ⟨rfl, rfl, rfl⟩

theorem unread_handle {c : Completion} (other : ∀ counts, c ≠ .statsFetched (.ok counts)) :
    desk.Unread (desk.handle m c) := by
  cases c with
  | configLoaded result =>
      cases result with
      | ok config => exact ⟨rfl, rfl, rfl⟩
      | error f => cases f <;> exact ⟨rfl, rfl, rfl⟩
  | statsFetched result =>
      cases result with
      | ok counts => exact absurd rfl (other counts)
      | error f => exact ⟨rfl, rfl, rfl⟩
  | configSaved _ result | statsCleared result | toggleFinished result | engineStatus result =>
      cases result <;> exact ⟨rfl, rfl, rfl⟩
  | alertExpired id =>
      dsimp only [handle, expire]
      split <;> exact ⟨rfl, rfl, rfl⟩

/-- Counters that are taken over are drawn once, with all that the chart holds from then on. -/
theorem redraws_fetched (state : RunState) (counts : Counts) :
    (desk.fetched m state (.ok counts)).2.filterMap Effect.redraw? =
      [(desk.chart.push (.ofCounts m.clock counts)).1.samples] := by
  have gauges : (Gauge.all.map fun g => Effect.show (.gauge g
      (Counts.amount (counts.gauge g)))).filterMap Effect.redraw? = [] := by
    simp [List.filterMap_map, Effect.redraw?, Effect.shown?, Showing.redraw?, Function.comp_def]
  simp only [fetched, List.filterMap_append, gauges, List.nil_append]
  cases drawn : desk.chart.drawn <;> simp only [Chart.push, drawn] <;> rfl

end Desk

/-! ## Steps -/

section

variable {s s' : Station} {m : Move}

theorem Step.read {r : String × Counts} (step : Step .any s m s')
    (reading : (Deed.mk s m).reading? = some r) :
    s'.desk.counts = r.2 ∧
      s'.desk.chart = (s.desk.chart.push (.ofCounts r.1 r.2)).1 ∧
      s'.redraws = s.redraws ++ [s'.desk.chart.samples] := by
  obtain ⟨counts, same, rfl⟩ := Deed.reading_some reading
  obtain rfl : m = .handle (.statsFetched (.ok counts)) := same
  cases step with
  | handle head =>
      simp only [Station.handle, Station.desk_take, Station.redraws_take]
      exact ⟨rfl, rfl, congrArg _ (s.desk.redraws_fetched s.moment s.desk.state counts)⟩

theorem Step.unread (step : Step .any s m s') (none : (Deed.mk s m).reading? = none) :
    s'.desk.counts = s.desk.counts ∧ s'.desk.chart = s.desk.chart ∧ s'.redraws = s.redraws := by
  have taken {t : Station} {outcome : Desk × List Effect} (unread : t.desk.Unread outcome) :
      (t.take outcome).desk.counts = t.desk.counts ∧
        (t.take outcome).desk.chart = t.desk.chart ∧ (t.take outcome).redraws = t.redraws := by
    simp only [Station.desk_take, Station.redraws_take, unread.redraws, List.append_nil]
    exact ⟨unread.counts, unread.chart, trivial⟩
  cases step with
  | operate o => exact taken (s.desk.unread_operate s.moment o)
  | @handle c rest head =>
      refine taken (t := { s with agenda := { s.agenda with arrived := rest } })
        (Desk.unread_handle _ _ fun counts same => ?_)
      subst same
      cases none
  | work | wake | outside => exact ⟨rfl, rfl, rfl⟩

/-- A fetch that failed is taken from the queue, and nothing else happens. -/
theorem Step.unread_failure {f : Failure}
    (step : Step .any s (.handle (.statsFetched (.error f))) s') :
    ∃ rest, s.agenda.arrived = .statsFetched (.error f) :: rest ∧
      s' = { s with agenda := { s.agenda with arrived := rest } } := by
  cases step with
  | @handle _ rest head => exact ⟨rest, head, rfl⟩

end

/-! ## Runs -/

/-- What a station shows of its readings. -/
structure Charted (capacity : Nat) (readings : List (String × Counts)) (s : Station) : Prop where
  counts : s.desk.counts = (readings.getLast?.map (·.2)).getD .empty
  room : s.desk.chart.capacity = max capacity 1
  samples : s.desk.chart.samples = chartWindow capacity readings
  redraws : s.redraws =
    (List.range readings.length).map fun i => chartWindow capacity (readings.take (i + 1))

section

variable {form : Form} {options : Options} {engine : Engine} {latency : Nat} {clock : String}
  {log : History} {s s' : Station} {m : Move} {capacity : Nat}

theorem Charted.step {log : History} (charted : Charted capacity log.readings s)
    (step : Step .any s m s') :
    Charted capacity (History.readings (log ++ [⟨s, m⟩])) s' := by
  rw [History.readings_append]
  cases reading : (Deed.mk s m).reading? with
  | none =>
      obtain ⟨counts, chart, redraws⟩ := step.unread reading
      simp only [Option.toList_none, List.append_nil]
      constructor
      · rw [counts, charted.counts]
      · rw [chart, charted.room]
      · rw [chart, charted.samples]
      · rw [redraws, charted.redraws]
  | some r =>
      obtain ⟨counts, chart, redraws⟩ := step.read reading
      have samples : s'.desk.chart.samples = chartWindow capacity (log.readings ++ [r]) := by
        have pushed : s'.desk.chart.samples =
            (s.desk.chart.samples ++ [Sample.ofCounts r.1 r.2]).rtake s.desk.chart.capacity := by
          rw [chart]
          rfl
        rw [pushed, charted.samples, charted.room, chartWindow, rtake_rtake_concat, chartWindow,
          List.map_append]
        rfl
      constructor
      · simp [counts]
      · rw [chart]
        exact charted.room
      · exact samples
      · rw [redraws, charted.redraws, samples]
        exact (map_take_concat (chartWindow capacity) log.readings r).symm

theorem Run.charted (run : Run .any (.opened form options engine latency clock) log s) :
    Charted options.capacity log.readings s := by
  induction run with
  | begin =>
      have empty : chartWindow options.capacity (History.readings []) = [] := by
        simp [chartWindow, History.readings]
      exact ⟨rfl, rfl, empty.symm, rfl⟩
  | step run step ih => exact ih.step step

/-- The counters are those that were handled last, and the chart holds the packets of the last
readings, oldest first. It was drawn once for each reading, with what it held then. A fetch that
failed leaves all as it is, and no other step has to do with counters or chart. -/
theorem counters_and_chart_follow_readings
    (run : Run .any (.opened form options engine latency clock) log s) :
    s.desk.counts = (log.readings.getLast?.map (·.2)).getD .empty ∧
    s.desk.chart.samples = chartWindow options.capacity log.readings ∧
    s.desk.chart.samples.map (fun x => (x.sent, x.received)) =
      (log.readings.map fun r => ((r.2.get? "TotalPacketsSent").getD 0,
        (r.2.get? "TotalPacketsRcvd").getD 0)).rtake (max options.capacity 1) ∧
    s.redraws = ((List.range log.readings.length).map fun i =>
      chartWindow options.capacity (log.readings.take (i + 1))) ∧
    ∀ m s', Step .any s m s' →
      (∀ counts, m = .handle (.statsFetched (.ok counts)) →
        s'.desk.counts = counts ∧ s'.redraws = s.redraws ++ [s'.desk.chart.samples]) ∧
      (∀ f, m = .handle (.statsFetched (.error f)) →
        ∃ rest, s.agenda.arrived = .statsFetched (.error f) :: rest ∧
          s' = { s with agenda := { s.agenda with arrived := rest } }) ∧
      ((∀ counts, m ≠ .handle (.statsFetched (.ok counts))) →
        s'.desk.counts = s.desk.counts ∧ s'.desk.chart = s.desk.chart ∧
          s'.redraws = s.redraws) := by
  have charted := run.charted
  refine ⟨charted.counts, charted.samples, ?_, charted.redraws, ?_⟩
  · rw [charted.samples, chartWindow, List.rtake, List.rtake, List.map_drop, List.map_map]
    simp only [List.length_map]
    rfl
  · intro m s' step
    refine ⟨?_, ?_, ?_⟩
    · rintro counts rfl
      obtain ⟨taken, -, drawn⟩ := step.read rfl
      exact ⟨taken, drawn⟩
    · rintro f rfl
      exact step.unread_failure
    · intro other
      exact step.unread (Deed.reading_none other)

end

/-- A chart without room keeps one sample, and a second reading takes the place of the first. -/
theorem second_reading_takes_only_place :
    let counts : Counts := .ofList [("TotalPacketsSent", 7)]
    let later : Counts := .ofList [("TotalPacketsSent", 8), ("TotalPacketsRcvd", 5)]
    let first : Station :=
      .opened .empty { capacity := 0 } { config := .empty, counts } 0 "12:00:00"
    ∃ log s, Run .any first log s ∧
      log.readings = [("12:00:00", counts), ("12:00:01", later)] ∧ s.desk.counts = later ∧
      s.desk.chart.samples.map (fun x => (x.sent, x.received)) = [(8, 5)] ∧
      s.redraws = [[⟨"12:00:00", 7, 0⟩], [⟨"12:00:01", 8, 5⟩]] := by
  intro counts later first
  obtain ⟨log, s, run, readings⟩ : ∃ log s, Run .any first log s ∧
      log.readings = [("12:00:00", counts), ("12:00:01", later)] := by
    have opened : Run .any first [] first := .begin
    have asked := opened.step (.operate .startup)
    have served := asked.step (@Step.work _ _ [.begin .loadConfig none] [.pollBegin 0]
      (.begin .fetchStats none) rfl)
    have read := served.step (@Step.handle _ _ (.statsFetched (.ok counts)) [] rfl)
    have again := read.step (.operate .startup)
    have changed := again.step (@Step.outside _ _ _ "12:00:01"
      ⟨{ config := .empty, counts := later }, 0, .empty, "", rfl⟩)
    have served' := changed.step (@Step.work _ _
      [.begin .loadConfig none, .begin .loadConfig none] [.pollBegin 1]
      (.begin .fetchStats none) rfl)
    have run := served'.step (@Step.handle _ _ (.statsFetched (.ok later)) [] rfl)
    exact ⟨_, _, run, rfl⟩
  obtain ⟨last, -, window, redraws, -⟩ := counters_and_chart_follow_readings run
  rw [readings] at last window redraws
  exact ⟨log, s, run, readings, last, window, redraws⟩

end EngineConsole
