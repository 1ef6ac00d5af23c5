import EngineConsole.Proofs.PollSchedule
import EngineConsole.Proofs.Run.Beginnings

/-!
# The cadence of polling

A run is cut into polling periods by whoever starts the poll timer, starts it again or stops it. A
timer that does not wait for its fetches polls at the points of the grid that each period lays out,
and never outside a period. How long fetches take and how they end makes no difference.
-/

set_option autoImplicit false

namespace EngineConsole

/-! ## Periods of a run -/

/-- The polling periods that are over, by the moments at which they begin and end, and the moment at
which the one that lasts has begun. -/
structure Periods where
  ended : List (Nat × Nat) := []
  lasting : Option Nat := none

namespace Periods

/-- All periods. The one that lasts has come to a moment. -/
def upTo (periods : Periods) (now : Nat) : List (Nat × Nat) :=
  periods.ended ++ (periods.lasting.map fun start => (start, now)).toList

/-- To start the timer again is to end one period and begin another. -/
def turn (periods : Periods) (now : Nat) : Effect → Periods
  | .startPolling => ⟨periods.upTo now, some now⟩
  | .stopPolling => ⟨periods.upTo now, none⟩
  | _ => periods

end Periods

def Deed.turn (d : Deed) (periods : Periods) : Periods :=
  d.move.timers.foldl (·.turn d.before.agenda.now) periods

def History.periods (log : History) : Periods :=
  log.foldl (fun periods d => d.turn periods) {}

theorem History.periods_append (log : History) (d : Deed) :
    History.periods (log ++ [d]) = d.turn log.periods := by
  simp [History.periods]

theorem Deed.turn_kept {d : Deed} (kept : d.move.timers = []) (periods : Periods) :
    d.turn periods = periods := by
  simp [Deed.turn, kept]

/-- The moments at which polling is due in periods. -/
def pollMoments (interval : Nat) (periods : List (Nat × Nat)) : List Nat :=
  periods.flatMap fun p => pollGrid p.1 interval ((p.2 - p.1) / interval)

section

variable {interval : Nat} (periods more : List (Nat × Nat))

theorem pollMoments_append :
    pollMoments interval (periods ++ more) =
      pollMoments interval periods ++ pollMoments interval more := by
  simp [pollMoments]

theorem pollMoments_single (start stop : Nat) :
    pollMoments interval [(start, stop)] = pollGrid start interval ((stop - start) / interval) := by
  simp [pollMoments]

theorem length_pollMoments :
    (pollMoments interval periods).length =
      (periods.map fun p => (p.2 - p.1) / interval).sum := by
  simp [pollMoments, pollGrid, List.length_flatMap]

theorem mem_pollMoments (ticking : interval ≠ 0) {moment : Nat} :
    moment ∈ pollMoments interval periods ↔
      ∃ start stop, (start, stop) ∈ periods ∧
        ∃ k, 1 ≤ k ∧ moment = start + k * interval ∧ moment ≤ stop := by
  have grid (start stop : Nat) : moment ∈ pollGrid start interval ((stop - start) / interval) ↔
      ∃ k, 1 ≤ k ∧ moment = start + k * interval ∧ moment ≤ stop := by
    simp only [pollGrid, List.mem_map, List.mem_range, Nat.lt_iff_add_one_le,
      Nat.le_div_iff_mul_le (Nat.pos_of_ne_zero ticking)]
    constructor
    · rintro ⟨k, within, rfl⟩
      have positive : 0 < (k + 1) * interval :=
        Nat.mul_pos (Nat.succ_pos k) (Nat.pos_of_ne_zero ticking)
      exact ⟨k + 1, Nat.le_add_left 1 k, rfl, by omega⟩
    · rintro ⟨k, positive, rfl, within⟩
      obtain ⟨k, rfl⟩ := Nat.exists_eq_add_of_le' positive
      exact ⟨k, by omega, rfl⟩
  simp only [pollMoments, List.mem_flatMap, Prod.exists, grid]

end

/-! ## No polling -/

namespace Agenda

/-- There is no poll timer, and no work is left of one. -/
structure Unpolled (a : Agenda) : Prop where
  timer : a.timer = none
  waiting : a.waiting = none
  jobs : ∀ job ∈ a.jobs, job.isPoll = false

variable {a b : Agenda} {job : Job}

namespace Unpolled

theorem fields (idle : a.Unpolled) (timer : b.timer = a.timer) (waiting : b.waiting = a.waiting)
    (jobs : ∀ job ∈ b.jobs, job ∈ a.jobs) : b.Unpolled :=
  ⟨timer.trans idle.timer, waiting.trans idle.waiting, fun job member =>
    idle.jobs job (jobs job member)⟩

theorem spawn (idle : a.Unpolled) (aside : job.isPoll = false) : (a.spawn job).Unpolled := by
  refine ⟨idle.timer, idle.waiting, fun other member => ?_⟩
  obtain old | rfl := mem_jobs_spawn.mp member
  · exact idle.jobs other old
  · exact aside

theorem sleep (idle : a.Unpolled) (moment : Nat) (aside : job.isPoll = false) :
    (a.sleep moment job).Unpolled := by
  refine ⟨idle.timer, idle.waiting, fun other member => ?_⟩
  obtain old | rfl := mem_jobs_sleep.mp member
  · exact idle.jobs other old
  · exact aside

theorem runJob (idle : a.Unpolled) (aside : job.isPoll = false) : (a.runJob job).Unpolled := by
  have progress := a.progress job
  generalize a.runJob job = b at progress ⊢
  cases progress with
  | request asked worked =>
      cases worked with
      | finished engine script begun ended _ _ whole =>
          have same : a.release job.waiter? = a := by
            apply release_other
            simp [idle.waiting]
          rw [whole, same]
          exact idle.fields rfl rfl fun _ => id
      | asleep engine script begun moment later _ _ asked' _ whole =>
          have slept := idle.sleep moment (Job.timer_of_request (asked'.trans asked)).2
          rw [whole]
          exact slept.fields rfl rfl fun _ => id
  | expires span id => exact idle.sleep _ rfl
  | expiresNow | expired => exact idle.fields rfl rfl fun _ => id
  | still | begins | waits | overlaps | fetches => cases aside

theorem effects (idle : a.Unpolled) {effects : List Effect}
    (others : effects.filter Effect.isTimer = []) : (effects.foldl undertake a).Unpolled :=
  effects_aside others idle fun _ _ aside _ idle => idle.spawn aside

end Unpolled

theorem unpolled_stopPolling (a : Agenda) : a.stopPolling.Unpolled := by
  refine ⟨rfl, rfl, fun job member => ?_⟩
  simpa using (mem_jobs_stopPolling.mp member).2

/-- How many poll timers there are: each has work that is ready or asleep, or waits for a fetch. -/
def polling (a : Agenda) : Nat :=
  a.jobs.countP Job.isPoll + a.waiting.toList.length

theorem Unpolled.polling (idle : a.Unpolled) : a.polling = 0 := by
  simp only [Agenda.polling, idle.waiting, Option.toList_none, List.length_nil, add_zero,
    List.countP_eq_zero]
  intro job member
  simp [idle.jobs job member]

theorem At.polling {timer : Nat} {phase : Phase} (inPhase : At timer phase a) : a.polling = 1 := by
  have count {ready : Option Job} {asleep : Option (Nat × Job)} {waiting : Option (Nat × Nat)}
      {fetches : Nat} (polls : a.Polls timer ready asleep waiting fetches) :
      a.polling = ready.toList.length + asleep.toList.length + waiting.toList.length := by
    have sleeping : (a.sleeping.map (·.2)).countP Job.isPoll = asleep.toList.length := by
      rw [List.countP_map, List.countP_eq_length_filter, ← polls.asleep]
      rfl
    rw [Agenda.polling, jobs, List.countP_append, sleeping, List.countP_eq_length_filter,
      polls.ready, polls.waiting]
  cases phase <;> exact count inPhase

/-! ## The timer that was started -/

theorem timer_runJob (a : Agenda) (job : Job) : (a.runJob job).timer = a.timer := by
  obtain ⟨_, _, _, _, _, _, _, whole⟩ := a.runJob_frame job
  rw [whole]

theorem timer_effects {effects : List Effect} (others : effects.filter Effect.isTimer = []) :
    (effects.foldl undertake a).timer = a.timer :=
  effects_aside (motive := fun b => b.timer = a.timer) others rfl fun _ _ _ _ same => same

end Agenda

section

variable {s s' : Station} {m : Move}

/-- Without a poll timer nothing is polled, and none comes of itself. -/
theorem Step.unpolled (step : Step .any s m s') (idle : s.agenda.Unpolled) :
    (Deed.mk s m).polls = [] ∧ (m.timers = [] → s'.agenda.Unpolled) := by
  cases step with
  | operate o =>
      refine ⟨rfl, fun kept => ?_⟩
      rw [Station.agenda_take]
      exact idle.effects ((s.desk.timers_operate s.moment o).trans kept)
  | @handle c rest head =>
      refine ⟨rfl, fun _ => ?_⟩
      rw [Station.handle, Station.agenda_take]
      have taken : { s.agenda with arrived := rest }.Unpolled := idle.fields rfl rfl fun _ => id
      exact taken.effects (Desk.timers_handle _ _ c)
  | @work before after job ready =>
      have aside := idle.jobs job ((Agenda.mem_jobs_taken ready).mpr (.inr rfl))
      constructor
      · cases job with
        | pollBegin | pollTick => cases aside
        | begin | proceed | serve | expiry | expired => rfl
      · have taken : { s.agenda with ready := before ++ after }.Unpolled :=
          idle.fields rfl rfl fun _ member => (Agenda.mem_jobs_taken ready).mpr (.inl member)
        exact fun _ => taken.runJob aside
  | wake later =>
      exact ⟨rfl, fun _ => idle.fields rfl rfl fun _ => Agenda.mem_jobs_wakeAt.mp⟩
  | outside change =>
      obtain ⟨engine, latency, script, uptime, rfl⟩ := change
      exact ⟨rfl, fun _ => idle.fields rfl rfl fun _ => id⟩

theorem Step.timer (step : Step .any s m s') (kept : m.timers = []) :
    s'.agenda.timer = s.agenda.timer := by
  cases step with
  | operate o =>
      rw [Station.agenda_take]
      exact Agenda.timer_effects ((s.desk.timers_operate s.moment o).trans kept)
  | handle head =>
      rw [Station.handle, Station.agenda_take]
      exact Agenda.timer_effects (Desk.timers_handle _ _ _)
  | work ready => exact Agenda.timer_runJob _ _
  | wake later => rfl
  | outside change =>
      obtain ⟨engine, latency, script, uptime, rfl⟩ := change
      rfl

end

theorem Operation.timers_cases (o : Operation) :
    o.timers = [] ∨ o.timers = [.startPolling] ∨ o = .stopPolling := by
  cases o with
  | startup | startPolling => exact .inr (.inl rfl)
  | stopPolling => exact .inr (.inr rfl)
  | load | save | toggle | clear | askStatus | exportConfig | importConfig | edit | put =>
      exact .inl rfl

/-! ## The cadence -/

/-- No tick is ready. -/
def Agenda.Calm (a : Agenda) : Prop :=
  ∀ job ∈ a.ready, job.isTick = false

theorem Agenda.Calm.of_settled {a : Agenda} (settled : a.ready = []) : a.Calm := by
  simp [Calm, settled]

/-- A run in which time is kept, and in which polling is started and stopped only where no tick is
ready. -/
structure CalmRun (options : Options) (log : History) (s : Station) : Prop where
  reached : ∃ form engine latency clock,
    Run .any (.opened form options engine latency clock) log s
  timely : log.Timely
  calm : ∀ d ∈ log, d.move.timers ≠ [] → d.before.agenda.Calm

/-- How far polling has come in a run. -/
inductive Cadence (options : Options) (log : History) (s : Station) : Prop where
  | idle :
      s.agenda.Unpolled → log.periods.lasting = none →
      log.polls = pollMoments options.interval log.periods.ended → Cadence options log s
  | polling {begun : Station} {latest : History} :
      PollingPeriod options begun latest s → log.periods.lasting = some begun.agenda.now →
      log.polls = pollMoments options.interval log.periods.ended ++ latest.polls →
      s.agenda.timer = some begun.agenda.started → Cadence options log s

section

variable {options : Options} {log : History} {s s' : Station} {m : Move}

namespace CalmRun

theorem begin (form : Form) (options : Options) (engine : Engine) (latency : Nat)
    (clock : String) : CalmRun options [] (.opened form options engine latency clock) where
  reached := ⟨form, engine, latency, clock, .begin⟩
  timely := fun _ member => nomatch member
  calm := fun _ member => nomatch member

theorem step (run : CalmRun options log s) (step : Step .any s m s')
    (timely : (Deed.mk s m).Timely) (calm : m.timers ≠ [] → s.agenda.Calm) :
    CalmRun options (log ++ [⟨s, m⟩]) s' where
  reached := by
    obtain ⟨form, engine, latency, clock, reached⟩ := run.reached
    exact ⟨form, engine, latency, clock, reached.step step⟩
  timely := List.forall_mem_append.mpr ⟨run.timely, List.forall_mem_singleton.mpr timely⟩
  calm := List.forall_mem_append.mpr ⟨run.calm, List.forall_mem_singleton.mpr calm⟩

end CalmRun

namespace Cadence

/-- Polls so far, where no tick is ready. -/
theorem polls_calm (cadence : Cadence options log s) (allow : options.overlap = .allow)
    (ticking : options.interval ≠ 0) (calm : s.agenda.Calm) :
    log.polls = pollMoments options.interval (log.periods.upTo s.agenda.now) := by
  cases cadence with
  | idle _ lasting polls => simp [Periods.upTo, lasting, polls]
  | polling period lasting polls =>
      rw [polls, period.polls_calm allow ticking calm]
      simp [Periods.upTo, lasting, pollMoments_append, pollMoments_single]

/-- While nobody does anything about polling, the period that lasts goes on. One ends where no tick
is ready, so that it has had all its polls. -/
theorem step (cadence : Cadence options log s) (run : CalmRun options log s)
    (step : Step .any s m s') (timely : (Deed.mk s m).Timely)
    (calm : m.timers ≠ [] → s.agenda.Calm) (allow : options.overlap = .allow)
    (ticking : options.interval ≠ 0) : Cadence options (log ++ [⟨s, m⟩]) s' := by
  by_cases kept : m.timers = []
  · have turn : History.periods (log ++ [⟨s, m⟩]) = log.periods := by
      rw [History.periods_append]
      exact Deed.turn_kept kept _
    cases cadence with
    | idle idle lasting polls =>
        obtain ⟨silent, idle'⟩ := step.unpolled idle
        apply Cadence.idle (idle' kept)
        · rw [turn, lasting]
        · rw [History.polls_append, silent, turn, polls, List.append_nil]
    | @polling begun latest period lasting polls timer =>
        apply Cadence.polling (period.step step timely kept)
        · rw [turn, lasting]
        · rw [History.polls_append, History.polls_append, turn, polls, List.append_assoc]
        · rw [step.timer kept, timer]
  · have polls := cadence.polls_calm allow ticking (calm kept)
    cases step with
    | handle | work | wake | outside => exact absurd rfl kept
    | operate o =>
        have silent : (Deed.mk s (.operate o)).polls = [] := rfl
        obtain none | starts | rfl := o.timers_cases
        · exact absurd none kept
        · obtain ⟨form, engine, latency, clock, reached⟩ := run.reached
          have turn : History.periods (log ++ [⟨s, .operate o⟩]) =
              ⟨log.periods.upTo s.agenda.now, some s.agenda.now⟩ := by
            simp [History.periods_append, Deed.turn, Move.timers, starts, Periods.turn]
          apply Cadence.polling (.begin reached starts)
          · rw [turn]
          · rw [History.polls_append, silent, turn, polls]
            rfl
          · rw [Station.agenda_take]
            cases o with
            | startup | startPolling => rfl
            | stopPolling | load | save | toggle | clear | askStatus | exportConfig | importConfig
            | edit | put => cases starts
        · have turn : History.periods (log ++ [⟨s, .operate .stopPolling⟩]) =
              ⟨log.periods.upTo s.agenda.now, none⟩ := by
            simp [History.periods_append, Deed.turn, Move.timers, Operation.timers, Periods.turn]
          apply Cadence.idle s.agenda.unpolled_stopPolling
          · rw [turn]
          · rw [History.polls_append, silent, turn, polls, List.append_nil]

/-- Polls so far are those that were due, but for a tick that is ready. -/
theorem polls_prefix (cadence : Cadence options log s) (allow : options.overlap = .allow)
    (ticking : options.interval ≠ 0) :
    log.polls <+: pollMoments options.interval (log.periods.upTo s.agenda.now) := by
  cases cadence with
  | idle _ lasting polls => simp [Periods.upTo, lasting, polls]
  | polling period lasting polls =>
      have latest := period.polls_prefix allow ticking
      simp only [Periods.upTo, lasting, pollMoments_append, polls, Option.map_some,
        Option.toList_some, pollMoments_single]
      exact (List.prefix_append_right_inj _).mpr latest

theorem timers (cadence : Cadence options log s) (ticking : options.interval ≠ 0) :
    s.agenda.polling = (if log.periods.lasting.isSome then 1 else 0) ∧
      s.agenda.isPolling = log.periods.lasting.isSome := by
  cases cadence with
  | idle idle lasting =>
      simp [lasting, idle.polling, Agenda.isPolling, idle.timer]
  | polling period lasting polls timer =>
      obtain ⟨phase, inPhase, -⟩ := period.phases ticking (motive := fun _ _ _ => True) trivial
        fun _ _ _ _ _ => trivial
      simp [lasting, inPhase.polling, Agenda.isPolling, timer]

end Cadence

theorem CalmRun.cadence (run : CalmRun options log s) (allow : options.overlap = .allow)
    (ticking : options.interval ≠ 0) : Cadence options log s := by
  obtain ⟨⟨form, engine, latency, clock, reached⟩, timely, calm⟩ := run
  induction reached with
  | begin =>
      have none : ∀ job ∈ (Station.opened form options engine latency clock).agenda.jobs,
          job.isPoll = false := by
        simp [Station.agenda_opened, Agenda.jobs]
      exact .idle ⟨rfl, rfl, none⟩ rfl rfl
  | @step log s s' m reached step ih =>
      obtain ⟨timely, timelyNow⟩ := List.forall_mem_append.mp timely
      obtain ⟨calm, calmNow⟩ := List.forall_mem_append.mp calm
      have run : CalmRun options log s :=
        ⟨⟨form, engine, latency, clock, reached⟩, timely, calm⟩
      exact (ih timely calm).step run step (List.forall_mem_singleton.mp timelyNow)
        (List.forall_mem_singleton.mp calmNow) allow ticking

end

/-! ## Fetches -/

namespace Deed

def startsUp (d : Deed) : Bool :=
  match d.move with
  | .operate .startup => true
  | _ => false

/-- Whether the end of a clearing that was granted is handled. -/
def clears (d : Deed) : Bool :=
  match d.move with
  | .handle (.statsCleared (.ok _)) => true
  | _ => false

/-- Fetches are issued at the startup, after a clearing and by the poll timer. -/
theorem fetches_issued (d : Deed) :
    d.issued.countP (fun r => r.kind = .fetchStats) =
      (if d.startsUp then 1 else 0) + (if d.clears then 1 else 0) + d.polls.length := by
  obtain ⟨s, m⟩ := d
  cases m with
  | operate o =>
      rw [issued_operate]
      cases o with
      | toggle =>
          dsimp only [Operation.requests]
          split
          · rfl
          · cases s.desk.state <;> rfl
      | clear agreed => cases agreed <;> rfl
      | startup | load | save | askStatus | exportConfig | importConfig | startPolling | stopPolling
      | edit | put => rfl
  | handle c =>
      rw [issued_handle]
      cases c with
      | statsCleared result => cases result <;> rfl
      | configLoaded | configSaved | statsFetched | toggleFinished | engineStatus
      | alertExpired => rfl
  | work job =>
      have all : ∀ r ∈ issued ⟨s, .work job⟩, r.kind = .fetchStats := by
        intro r member
        rw [issued_work member]
        rfl
      simpa [startsUp, clears, polls, List.countP_eq_length] using all
  | wake | outside => rfl

end Deed

namespace History

def startups (log : History) : Nat :=
  log.countP Deed.startsUp

def clearings (log : History) : Nat :=
  log.countP Deed.clears

theorem fetches_issued (log : History) :
    log.issued.countP (fun r => r.kind = .fetchStats) =
      log.startups + log.clearings + log.polls.length := by
  induction log with
  | nil => rfl
  | cons d rest ih =>
      have one := d.fetches_issued
      simp only [issued, startups, clearings, polls, List.flatMap_cons, List.countP_append,
        List.countP_cons, List.length_append] at ih one ⊢
      omega

end History

/-- A poll timer that does not wait for its fetches polls, in each polling period, at the points of
the grid that begins with it, up to its end, and at no other moment: a tick that is due when the
period ends is the last. Where nothing is ready no point is missing. There is one timer in a period
and none outside. The fetches that the engine's side has heard of by then are those of startups,
those after clearings and as many in each period as intervals go into it. -/
theorem polling_keeps_to_its_periods {options : Options} {log : History} {s : Station}
    (run : CalmRun options log s) (allow : options.overlap = .allow)
    (ticking : options.interval ≠ 0) :
    let interval := options.interval
    let periods := log.periods.upTo s.agenda.now
    (log.polls <+: pollMoments interval periods ∧
      (s.agenda.Calm → log.polls = pollMoments interval periods)) ∧
    (∀ moment, moment ∈ pollMoments interval periods ↔
      ∃ start stop, (start, stop) ∈ periods ∧
        ∃ k, 1 ≤ k ∧ moment = start + k * interval ∧ moment ≤ stop) ∧
    (∀ m s', Step .any s m s' → log.periods.lasting = none → (Deed.mk s m).polls = []) ∧
    (s.agenda.polling = (if log.periods.lasting.isSome then 1 else 0) ∧
      s.agenda.isPolling = log.periods.lasting.isSome) ∧
    (s.agenda.ready = [] → s.agenda.begun.count .fetchStats =
      log.startups + log.clearings + (periods.map fun p => (p.2 - p.1) / interval).sum) := by
  intro interval periods
  have cadence := run.cadence allow ticking
  refine ⟨⟨?_, ?_⟩, ?_, ?_, cadence.timers ticking, ?_⟩
  · exact cadence.polls_prefix allow ticking
  · exact cadence.polls_calm allow ticking
  · exact fun _ => mem_pollMoments periods ticking
  · intro m s' step none
    cases cadence with
    | polling _ lasting => cases none.symm.trans lasting
    | idle idle => exact (step.unpolled idle).1
  · intro settled
    have calm : s.agenda.Calm := .of_settled settled
    obtain ⟨form, engine, latency, clock, reached⟩ := run.reached
    rw [reached.begun_settled settled, History.fetches_issued, cadence.polls_calm allow ticking
      calm, length_pollMoments]

/-- A timer that is started again at the very moment of its tick, while the fetch of that tick is
not over: the tick counts, and there is one timer. -/
theorem restart_keeps_tick_of_its_moment :
    let options : Options := { interval := 10 }
    ∃ log s, CalmRun options log s ∧ log.periods.upTo s.agenda.now = [(0, 10), (10, 10)] ∧
      log.polls = [10] ∧ s.agenda.polling = 1 ∧ s.agenda.begun.count .fetchStats = 1 := by
  intro options
  obtain ⟨log, s, run, periods, lasting, settled, plain⟩ : ∃ log s, CalmRun options log s ∧
      log.periods.upTo s.agenda.now = [(0, 10), (10, 10)] ∧ log.periods.lasting = some 10 ∧
      s.agenda.ready = [] ∧ log.startups + log.clearings = 0 := by
    have opened : CalmRun options [] _ := .begin .empty options { config := .empty } 15 "12:00:00"
    have started := opened.step (.operate .startPolling) trivial fun _ => .of_settled rfl
    have begins := started.step (@Step.work _ _ [] [] (.pollBegin 0) rfl) trivial (absurd rfl)
    have due := begins.step (@Step.wake _ _ 10 (Nat.zero_le _)) ⟨rfl, by decide⟩ (absurd rfl)
    have ticks := due.step (@Step.work _ _ [] [] (.pollTick 0 10) rfl) trivial (absurd rfl)
    have asked := ticks.step (@Step.work _ _ [] [] (.begin .fetchStats none)
      (by with_unfolding_all rfl)) trivial (absurd rfl)
    have again := asked.step (.operate .startPolling) trivial fun _ =>
      .of_settled (by with_unfolding_all rfl)
    have run := again.step (@Step.work _ _ [] [] (.pollBegin 1)
      (by with_unfolding_all rfl)) trivial (absurd rfl)
    exact ⟨_, _, run, rfl, rfl, rfl, rfl⟩
  obtain ⟨⟨-, polls⟩, -, -, ⟨timers, -⟩, total⟩ :=
    polling_keeps_to_its_periods run rfl (by decide)
  refine ⟨log, s, run, periods, ?_, ?_, ?_⟩
  · rw [polls (.of_settled settled), periods]
    decide
  · rw [timers, lasting]
    rfl
  · rw [total settled, periods, plain]
    decide

end EngineConsole
