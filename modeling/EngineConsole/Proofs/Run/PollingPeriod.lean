import EngineConsole.Proofs.Run.PollTimer

/-!
# Polling periods

A polling period begins when a poll timer is started, and lasts as long as nobody stops it or starts
another. What the timer does in it can be read off the steps: the ticks that are due, the ends of
its fetches, and the moments at which it polls.
-/

set_option autoImplicit false

namespace EngineConsole

/-! ## What a step shows of the poll timer -/

namespace Deed

/-- A tick that is due: the moment at which it is, and the moment at which it fetches. -/
def tick? (d : Deed) : Option (Nat × Nat) :=
  match d.move with
  | .work (.pollTick _ due) =>
    if due ≤ d.before.agenda.now then some (due, d.before.agenda.now) else none
  | _ => none

/-- The moment at which a request of a poll timer's own is over, however it ends. -/
def fetched? (timer : Nat) (d : Deed) : Option Nat :=
  match d.move with
  | .work job =>
    if job.waiter? = some timer ∧ d.before.agenda.finishes job = true then
      some d.before.agenda.now
    else none
  | _ => none

/-- The moments at which poll timers issue fetches, one for each. -/
def polls (d : Deed) : List Nat :=
  match d.move with
  | .work _ => d.issued.map fun _ => d.before.agenda.now
  | _ => []

variable {s : Station} {m : Move} {timer : Nat}

/-- A step that is none of the poll timer's business shows nothing of it. -/
theorem aside (other : ∀ job, m = .work job →
    job.isPoll = false ∧ (job.waiter? = some timer → s.agenda.finishes job = false)) :
    tick? ⟨s, m⟩ = none ∧ fetched? timer ⟨s, m⟩ = none ∧ polls ⟨s, m⟩ = [] := by
  cases m with
  | operate | handle | wake | outside => exact ⟨rfl, rfl, rfl⟩
  | work job =>
      obtain ⟨plain, goesOn⟩ := other job rfl
      have lasts : ¬(job.waiter? = some timer ∧ s.agenda.finishes job = true) := by
        rintro ⟨own, finished⟩
        cases (goesOn own).symm.trans finished
      have fetched : fetched? timer ⟨s, .work job⟩ = none := if_neg lasts
      cases job with
      | pollBegin | pollTick => cases plain
      | begin | proceed | serve | expiry | expired => exact ⟨rfl, fetched, rfl⟩

/-- A poll timer's own steps are the end of no request. -/
theorem fetched_poll {job : Job} (poll : job.isPoll = true) (timer : Nat) :
    fetched? timer ⟨s, .work job⟩ = none := by
  have lasts : ¬(job.waiter? = some timer ∧ s.agenda.finishes job = true) := by
    rintro ⟨own, -⟩
    cases job with
    | pollBegin | pollTick => cases own
    | begin | proceed | serve | expiry | expired => cases poll
  exact if_neg lasts

theorem tick_early {due : Nat} (early : s.agenda.now < due) :
    tick? ⟨s, .work (.pollTick timer due)⟩ = none ∧
      fetched? timer ⟨s, .work (.pollTick timer due)⟩ = none ∧
      polls ⟨s, .work (.pollTick timer due)⟩ = [] := by
  refine ⟨if_neg early.not_ge, fetched_poll rfl timer, ?_⟩
  simp [polls, issued, Agenda.fetches, early]

theorem tick_due {due : Nat} (late : due ≤ s.agenda.now) :
    tick? ⟨s, .work (.pollTick timer due)⟩ = some (due, s.agenda.now) :=
  if_pos late

theorem polls_serialize {due : Nat} (late : due ≤ s.agenda.now)
    (policy : s.agenda.overlap = .serialize) :
    polls ⟨s, .work (.pollTick timer due)⟩ = [s.agenda.now] := by
  simp [polls, issued, Agenda.fetches, late.not_gt, policy]

theorem polls_allow {due : Nat} (late : due ≤ s.agenda.now)
    (policy : s.agenda.overlap = .allow) :
    polls ⟨s, .work (.pollTick timer due)⟩ =
      List.replicate ((s.agenda.now - due) / s.agenda.interval + 1) s.agenda.now := by
  simp [polls, issued, Agenda.fetches, late.not_gt, policy]

theorem fetched_over {job : Job} (own : job.waiter? = some timer)
    (finished : s.agenda.finishes job = true) :
    tick? ⟨s, .work job⟩ = none ∧ fetched? timer ⟨s, .work job⟩ = some s.agenda.now ∧
      polls ⟨s, .work job⟩ = [] := by
  have fetched : fetched? timer ⟨s, .work job⟩ = some s.agenda.now := if_pos ⟨own, finished⟩
  cases job with
  | expiry | expired | pollBegin | pollTick => cases own
  | begin | proceed | serve => exact ⟨rfl, fetched, rfl⟩

end Deed

namespace History

def ticks (log : History) : List (Nat × Nat) :=
  log.filterMap Deed.tick?

def fetched (timer : Nat) (log : History) : List Nat :=
  log.filterMap (Deed.fetched? timer)

def polls (log : History) : List Nat :=
  log.flatMap Deed.polls

variable (log : History) (d : Deed)

theorem ticks_append : ticks (log ++ [d]) = log.ticks ++ d.tick?.toList := by
  cases shown : d.tick? <;> simp [ticks, shown]

theorem fetched_append (timer : Nat) :
    fetched timer (log ++ [d]) = log.fetched timer ++ (d.fetched? timer).toList := by
  cases shown : d.fetched? timer <;> simp [fetched, shown]

theorem polls_append : polls (log ++ [d]) = log.polls ++ d.polls := by
  simp [polls]

end History

/-! ## Periods -/

/-- Somebody has started a poll timer in a run, and nobody has stopped it or started another since.
-/
structure PollingPeriod (options : Options) (begun : Station) (log : History) (s : Station) :
    Prop where
  reached : ∃ form engine latency clock before,
    Run .any (.opened form options engine latency clock) before begun
  started : ∃ o : Operation, o.timers = [.startPolling] ∧
    Run .any (begun.take (begun.desk.operate begun.moment o)) log s
  timely : log.Timely
  kept : ∀ d ∈ log, d.move.timers = []

namespace PollingPeriod

variable {options : Options} {begun s : Station} {log : History}

theorem begin {form : Form} {engine : Engine} {latency : Nat} {clock : String} {before : History}
    (reached : Run .any (.opened form options engine latency clock) before begun) {o : Operation}
    (starts : o.timers = [.startPolling]) :
    PollingPeriod options begun [] (begun.take (begun.desk.operate begun.moment o)) where
  reached := ⟨form, engine, latency, clock, before, reached⟩
  started := ⟨o, starts, .begin⟩
  timely := fun _ member => nomatch member
  kept := fun _ member => nomatch member

theorem step {s' : Station} {m : Move} (period : PollingPeriod options begun log s)
    (step : Step .any s m s') (timely : (Deed.mk s m).Timely) (kept : m.timers = []) :
    PollingPeriod options begun (log ++ [⟨s, m⟩]) s' := by
  obtain ⟨reached, ⟨o, starts, run⟩, timely', kept'⟩ := period
  refine ⟨reached, ⟨o, starts, run.step step⟩, ?_, ?_⟩
  · intro d member
    rcases List.mem_append.mp member with old | new
    · exact timely' d old
    · exact List.mem_singleton.mp new ▸ timely
  · intro d member
    rcases List.mem_append.mp member with old | new
    · exact kept' d old
    · exact List.mem_singleton.mp new ▸ kept

/-- A period is part of a run that starts with nothing. -/
theorem run (period : PollingPeriod options begun log s) :
    ∃ form engine latency clock whole,
      Run .any (.opened form options engine latency clock) whole s := by
  obtain ⟨form, engine, latency, clock, before, reached⟩ := period.reached
  obtain ⟨o, -, started⟩ := period.started
  exact ⟨form, engine, latency, clock, _, (reached.step (.operate o)).append started⟩

theorem ahead (period : PollingPeriod options begun log s) : s.agenda.Ahead := by
  obtain ⟨form, engine, latency, clock, whole, run⟩ := period.run
  exact run.ahead (Station.ahead_opened form options engine latency clock)

theorem settings (period : PollingPeriod options begun log s) :
    s.agenda.interval = options.interval ∧ s.agenda.overlap = options.overlap := by
  obtain ⟨form, engine, latency, clock, whole, run⟩ := period.run
  have settings := run.settings
  rw [Station.agenda_opened] at settings
  exact settings

/-- The timer is in some phase throughout, so what its phases carry along is true at the end. -/
theorem phases (period : PollingPeriod options begun log s) (ticking : options.interval ≠ 0)
    {motive : History → Nat → Phase → Prop} (begins : motive [] begun.agenda.now .beginning)
    (goesOn : ∀ {log : History} {s s' : Station} {m : Move} {phase phase' : Phase},
      s.agenda.interval = options.interval → s.agenda.overlap = options.overlap →
      Step .any s m s' → Phase.Next begun.agenda.started s.agenda m phase phase' →
      motive log s.agenda.now phase → motive (log ++ [⟨s, m⟩]) s'.agenda.now phase') :
    ∃ phase, s.agenda.At begun.agenda.started phase ∧ motive log s.agenda.now phase := by
  obtain ⟨o, starts, run⟩ := period.started
  have reached := period.reached
  have timely := period.timely
  have kept := period.kept
  clear period
  induction run with
  | begin =>
      obtain ⟨form, engine, latency, clock, before, reached⟩ := reached
      refine ⟨.beginning, begun.beginning reached.numbered starts, ?_⟩
      have same : (begun.take (begun.desk.operate begun.moment o)).agenda.now = begun.agenda.now :=
        (Step.operate o : Step .any _ _ _).now
      exact same ▸ begins
  | @step log s s' m run step ih =>
      have timely' : log.Timely := fun d member => timely d (List.mem_append_left _ member)
      have kept' : ∀ d ∈ log, d.move.timers = [] :=
        fun d member => kept d (List.mem_append_left _ member)
      have last : (⟨s, m⟩ : Deed) ∈ log ++ [⟨s, m⟩] :=
        List.mem_append_right _ (List.mem_singleton_self _)
      have period : PollingPeriod options begun log s := ⟨reached, ⟨o, starts, run⟩, timely', kept'⟩
      obtain ⟨interval, overlap⟩ := period.settings
      obtain ⟨phase, inPhase, holds⟩ := ih timely' kept'
      obtain ⟨phase', next, inPhase'⟩ := step.phase (timely _ last) period.ahead
        (interval ▸ ticking) (kept _ last) inPhase
      exact ⟨phase', inPhase', goesOn interval overlap step next holds⟩

end PollingPeriod

theorem Agenda.At.lt_due {a : Agenda} {timer due : Nat} (inPhase : At timer (.ahead due) a)
    (ahead : a.Ahead) : a.now < due := by
  have asleep : a.sleeping.filter (fun e => e.2.isPoll) = [(due, .pollTick timer due)] :=
    inPhase.asleep
  have member : (due, .pollTick timer due) ∈ a.sleeping :=
    List.mem_of_mem_filter (asleep ▸ List.mem_cons_self)
  exact ahead.later _ member

/-- Where no work is ready, the poll timer waits for its tick or for its fetch. -/
theorem Agenda.At.settled {a : Agenda} {timer : Nat} {phase : Phase} (inPhase : At timer phase a)
    (ahead : a.Ahead) (ready : a.ready = []) :
    (∃ due, phase = .ahead due ∧ a.now < due) ∨ ∃ next, phase = .fetching next := by
  cases phase with
  | beginning | ready =>
      have none := inPhase.ready
      rw [ready] at none
      cases none
  | ahead due => exact .inl ⟨due, rfl, inPhase.lt_due ahead⟩
  | fetching next => exact .inr ⟨next, rfl⟩

end EngineConsole
