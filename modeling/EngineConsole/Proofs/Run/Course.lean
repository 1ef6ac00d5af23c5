import EngineConsole.Proofs.Run.Requests

/-!
# The course of requests

A request that is worked on goes on, or it ends with one completion or with none. Completions are
queued as they are reported and handled from the front, so those that were handled and those that
wait are all that were reported, in that order.
-/

set_option autoImplicit false

namespace EngineConsole

namespace Agenda

variable {a : Agenda} {job : Job}

/-! ## Reports -/

/-- What a request reports as soon as it is through with the delay of its script entry. One that
dies never reports, and one that the engine takes its time with reports later. -/
def verdict? (a : Agenda) (r : Request) (ending : Scripted) : Option Completion :=
  if ending = .crash then none
  else
    match ending.completion? r with
    | some c => some c
    | none =>
      if a.latency = 0 then some ((a.engine.arrive r.endpoint).serve a.uptime r).2 else none

/-- What a piece of work reports when it is run. -/
def reports? (a : Agenda) : Job → Option Completion
  | .begin r _ =>
    let entry := (a.script.next r.kind).1
    if entry.delay = 0 then a.verdict? r entry.ending else none
  | .proceed r ending _ => a.verdict? r ending
  | .serve r _ => some (a.engine.serve a.uptime r).2
  | .expiry ttl id => if ttl = 0 then some (.alertExpired id) else none
  | .expired id => some (.alertExpired id)
  | .pollBegin _ => none
  | .pollTick _ _ => none

theorem arrived_proceed (a : Agenda) (r : Request) (ending : Scripted) (waiter : Option Nat) :
    (a.proceed r ending waiter).arrived = a.arrived ++ (a.verdict? r ending).toList := by
  unfold proceed verdict?
  by_cases dies : ending = .crash
  · simp [dies]
  · simp only [dies, if_false]
    cases answer : ending.completion? r with
    | some c => simp [post]
    | none => by_cases soon : a.latency = 0 <;> simp [soon, arrived_serve, sleep]

theorem arrived_begin (a : Agenda) (r : Request) (waiter : Option Nat) :
    (a.begin r waiter).arrived = a.arrived ++ (a.reports? (.begin r waiter)).toList := by
  unfold begin reports?
  cases next : a.script.next r.kind with
  | mk entry script =>
      by_cases soon : entry.delay = 0
      · simp only [next, soon, if_true, arrived_proceed]
        rfl
      · simp [next, soon, sleep]

/-- Running a piece of work adds its report to the end of the queue, and nothing else. -/
theorem arrived_runJob (a : Agenda) (job : Job) :
    (a.runJob job).arrived = a.arrived ++ (a.reports? job).toList := by
  cases job with
  | begin r waiter => exact arrived_begin a r waiter
  | proceed r ending waiter => exact arrived_proceed a r ending waiter
  | serve r waiter => exact arrived_serve a r waiter
  | expiry ttl id =>
      by_cases zero : ttl = 0 <;> simp [runJob, reports?, zero, post, sleep]
  | expired id => rfl
  | pollBegin timer =>
      by_cases zero : a.interval = 0 <;> simp [runJob, reports?, zero, sleep]
  | pollTick timer due =>
      by_cases early : a.now < due
      · simp [runJob, reports?, tick, early, sleep]
      · cases policy : a.overlap <;> simp [runJob, reports?, tick, early, policy, sleep, spawn]

/-- What else is ready does not matter to what a piece of work reports. -/
theorem reports_ready (a : Agenda) (ready : List Job) (job : Job) :
    ({ a with ready } : Agenda).reports? job = a.reports? job := by
  cases job <;> rfl

theorem reports_effects (a : Agenda) (effects : List Effect) (job : Job) :
    (effects.foldl undertake a).reports? job = a.reports? job :=
  effects_keep (reports? · job) (fun _ e => by cases e <;> cases job <;> rfl) a effects

theorem crashed_effects (a : Agenda) (effects : List Effect) (job : Job) :
    (effects.foldl undertake a).crashed? job = a.crashed? job :=
  effects_keep (crashed? · job) (fun _ e => by cases e <;> cases job <;> rfl) a effects

/-- A request that is worked on goes on, or it ends: with one completion, which is about it, or by
dying. -/
theorem Ran.ends {r : Request} (asked : job.request? = some r) (ran : Ran a job (a.runJob job)) :
    (a.reports? job = none ∧ a.crashed? job = none ∧
        (a.runJob job).underway = a.underway + {r}) ∨
      (∃ c, a.reports? job = some c ∧ c.matter? = some r.matter ∧ a.crashed? job = none ∧
        (a.runJob job).underway = a.underway) ∨
      (a.reports? job = none ∧ a.crashed? job = some r ∧
        (a.runJob job).underway = a.underway) := by
  have whole := a.arrived_runJob job
  have silent (arrived : (a.runJob job).arrived = a.arrived) : a.reports? job = none := by
    rw [arrived] at whole
    simpa using whole
  have reported {c : Completion} (arrived : (a.runJob job).arrived = a.arrived ++ [c]) :
      a.reports? job = some c := by
    rw [arrived] at whole
    cases reports : a.reports? job <;> simp_all
  cases ran with
  | @served r' seen asked' alive _ engine arrived under =>
      obtain rfl : r' = r := Option.some.inj (asked'.symm.trans asked)
      have fits := Engine.matter_serve { a.engine with seen } a.uptime r'
      exact .inr (.inl ⟨_, reported arrived, fits, alive, under⟩)
  | @scripted r' c asked' alive answer engine arrived under =>
      obtain rfl : r' = r := Option.some.inj (asked'.symm.trans asked)
      have fits := Scripted.matter_completion answer
      exact .inr (.inl ⟨c, reported arrived, fits, alive, under⟩)
  | @kept r' seen asked' alive engine arrived under =>
      obtain rfl : r' = r := Option.some.inj (asked'.symm.trans asked)
      exact .inl ⟨silent arrived, alive, under⟩
  | @crashed r' asked' dead engine arrived under =>
      obtain rfl : r' = r := Option.some.inj (asked'.symm.trans asked)
      exact .inr (.inr ⟨silent arrived, dead, under⟩)
  | expired asked' | idle asked' => cases asked'.symm.trans asked

end Agenda

/-! ## The order of completions -/

/-- The completion that a step queues. -/
def Deed.finished? (d : Deed) : Option Completion :=
  match d.move with
  | .work job => d.before.agenda.reports? job
  | _ => none

/-- All completions, in the order in which what they report came to its end. -/
def History.finished (log : History) : List Completion :=
  log.filterMap Deed.finished?

theorem History.finished_append (log : History) (d : Deed) :
    History.finished (log ++ [d]) = log.finished ++ d.finished?.toList := by
  cases finished : d.finished? <;> simp [History.finished, finished]

section

variable {first s s' : Station} {m : Move} {log : History}

/-- A step takes what it handles from the front of the queue and adds what it finishes to the end.
-/
theorem Step.queue (step : Step .any s m s') :
    (Deed.mk s m).handled?.toList ++ s'.agenda.arrived =
      s.agenda.arrived ++ (Deed.mk s m).finished?.toList := by
  cases step with
  | operate o =>
      rw [Station.agenda_take, Agenda.arrived_effects]
      exact (List.append_nil _).symm
  | @handle c rest head =>
      rw [Station.handle, Station.agenda_take, Agenda.arrived_effects, head]
      exact (List.append_nil _).symm
  | @work before after job member =>
      have arrived := Agenda.arrived_runJob { s.agenda with ready := before ++ after } job
      rw [Agenda.reports_ready] at arrived
      exact arrived
  | wake later => exact (List.append_nil _).symm
  | outside change =>
      obtain ⟨engine, latency, script, uptime, rfl⟩ := change
      exact (List.append_nil _).symm

theorem Run.finished_eq (start : first.agenda.arrived = []) (run : Run .any first log s) :
    log.finished = log.handled ++ s.agenda.arrived := by
  induction run with
  | begin =>
      rw [start]
      rfl
  | @step log s s' m run step ih =>
      calc History.finished (log ++ [⟨s, m⟩])
        _ = log.handled ++ (s.agenda.arrived ++ (Deed.mk s m).finished?.toList) := by
          rw [History.finished_append, ih, List.append_assoc]
        _ = log.handled ++ ((Deed.mk s m).handled?.toList ++ s'.agenda.arrived) := by
          rw [step.queue]
        _ = History.handled (log ++ [⟨s, m⟩]) ++ s'.agenda.arrived := by
          rw [History.handled_append, List.append_assoc]

end

end EngineConsole
