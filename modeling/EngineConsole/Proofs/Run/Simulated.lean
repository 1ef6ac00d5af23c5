import EngineConsole.Proofs.Run.Outcome

/-!
# Runs of a simulated engine

Where no script interferes, every request gets to the engine, and only the engine's answer ends
it. A step then does one of few things to the engine and to the queue: a request is served and its
completion queued in one go, an alert expires, a completion is handled, or neither of them changes
in any way that matters.
-/

set_option autoImplicit false

namespace EngineConsole

def Job.isPlain : Job → Bool
  | .proceed _ ending _ => ending = .engine
  | _ => true

/-- No answers are held ready, neither for the requests to come nor for those under way. -/
structure Agenda.Unscripted (a : Agenda) : Prop where
  script : a.script = .empty
  plain : ∀ job ∈ a.jobs, job.isPlain = true

namespace Agenda

variable {a b : Agenda} {job other : Job}

namespace Unscripted

theorem grow (unscripted : a.Unscripted) (script : b.script = a.script)
    (jobs : ∀ job ∈ b.jobs, job ∈ a.jobs ∨ job.isPlain = true) : b.Unscripted := by
  refine ⟨script.trans unscripted.script, ?_⟩
  intro job member
  rcases jobs job member with old | plain
  · exact unscripted.plain job old
  · exact plain

theorem spawn (unscripted : a.Unscripted) (plain : job.isPlain = true) :
    (a.spawn job).Unscripted := by
  refine unscripted.grow rfl ?_
  intro other member
  rcases mem_jobs_spawn.mp member with old | rfl
  · exact .inl old
  · exact .inr plain

theorem sleep (unscripted : a.Unscripted) (moment : Nat) (plain : job.isPlain = true) :
    (a.sleep moment job).Unscripted := by
  refine unscripted.grow rfl ?_
  intro other member
  rcases mem_jobs_sleep.mp member with old | rfl
  · exact .inl old
  · exact .inr plain

theorem release (unscripted : a.Unscripted) (waiter : Option Nat) :
    (a.release waiter).Unscripted := by
  unfold Agenda.release
  split
  · split
    next timer _ due _ _ =>
      have plain : (Job.pollTick timer due).isPlain = true := rfl
      exact (unscripted.spawn plain).grow rfl fun _ member => .inl member
    next => exact unscripted
  · exact unscripted

theorem serve (unscripted : a.Unscripted) (r : Request) (waiter : Option Nat) :
    (a.serve r waiter).Unscripted := by
  have answered : ({ a with engine := (a.engine.serve a.uptime r).1 }.post
      (a.engine.serve a.uptime r).2).Unscripted := unscripted.grow rfl fun _ member => .inl member
  exact answered.release waiter

theorem proceed (unscripted : a.Unscripted) (r : Request) (waiter : Option Nat) :
    (a.proceed r .engine waiter).Unscripted := by
  have arrived : { a with engine := a.engine.arrive r.endpoint }.Unscripted :=
    unscripted.grow rfl fun _ member => .inl member
  change (if a.latency = 0 then _ else _ : Agenda).Unscripted
  split
  · exact arrived.serve r waiter
  · exact arrived.sleep _ rfl

theorem begin (unscripted : a.Unscripted) (r : Request) (waiter : Option Nat) :
    (a.begin r waiter).Unscripted := by
  have next : a.script.next r.kind = (⟨0, .engine⟩, a.script) := by
    rw [unscripted.script]
    rfl
  have begun : { a with begun := a.begun ++ [r.kind] }.Unscripted :=
    unscripted.grow rfl fun _ member => .inl member
  unfold Agenda.begin
  rw [next]
  exact begun.proceed r waiter

theorem tick (unscripted : a.Unscripted) (timer due : Nat) : (a.tick timer due).Unscripted := by
  unfold Agenda.tick
  split
  · exact unscripted.sleep _ rfl
  · split
    · have fetching (count : Nat) : (a.spawnFetches count).Unscripted := by
        refine unscripted.grow rfl ?_
        intro job member
        rcases mem_jobs_spawnFetches member with old | rfl
        · exact .inl old
        · exact .inr rfl
      exact (fetching _).sleep _ rfl
    · have plain : (Job.begin .fetchStats (some timer)).isPlain = true := rfl
      exact (unscripted.spawn plain).grow rfl fun _ member => .inl member

theorem runJob (unscripted : a.Unscripted) (plain : job.isPlain = true) :
    (a.runJob job).Unscripted := by
  cases job with
  | begin r waiter => exact unscripted.begin r waiter
  | proceed r ending waiter =>
      obtain rfl := of_decide_eq_true plain
      exact unscripted.proceed r waiter
  | serve r waiter => exact unscripted.serve r waiter
  | expiry ttl id =>
      dsimp only [Agenda.runJob]
      split
      · exact unscripted.grow rfl fun _ member => .inl member
      · exact unscripted.sleep _ rfl
  | expired id => exact unscripted.grow rfl fun _ member => .inl member
  | pollBegin timer =>
      dsimp only [Agenda.runJob]
      split
      · exact unscripted
      · exact unscripted.sleep _ rfl
  | pollTick timer due => exact unscripted.tick timer due

theorem stopPolling (unscripted : a.Unscripted) : a.stopPolling.Unscripted :=
  unscripted.grow rfl fun _ member => .inl (mem_jobs_stopPolling.mp member).1

theorem undertake (unscripted : a.Unscripted) (e : Effect) : (a.undertake e).Unscripted := by
  cases e with
  | «show» _ => exact unscripted
  | send r => exact unscripted.spawn rfl
  | expireAfter ttl id => exact unscripted.spawn rfl
  | startPolling =>
      have plain : (Job.pollBegin a.started).isPlain = true := rfl
      exact (unscripted.stopPolling.spawn plain).grow rfl fun _ member => .inl member
  | stopPolling => exact unscripted.stopPolling

theorem effects (unscripted : a.Unscripted) (effects : List Effect) :
    (effects.foldl Agenda.undertake a).Unscripted := by
  induction effects generalizing a with
  | nil => exact unscripted
  | cons e rest ih => exact ih (unscripted.undertake e)

theorem wakeAt (unscripted : a.Unscripted) (moment : Nat) : (a.wakeAt moment).Unscripted :=
  unscripted.grow rfl fun _ member => .inl (mem_jobs_wakeAt.mp member)

end Unscripted

theorem Unscripted.ending_eq (unscripted : a.Unscripted) (member : job ∈ a.jobs) :
    a.ending job = .engine := by
  cases job with
  | begin r waiter =>
      dsimp only [ending]
      rw [unscripted.script]
      rfl
  | proceed r ending waiter => exact of_decide_eq_true (unscripted.plain _ member)
  | serve | expiry | expired | pollBegin | pollTick => rfl

theorem Unscripted.crashed_eq (unscripted : a.Unscripted) (member : job ∈ a.jobs) :
    a.crashed? job = none := by
  have ending := unscripted.ending_eq member
  cases job with
  | begin r waiter => exact if_neg fun dies => Scripted.noConfusion (ending.symm.trans dies.2)
  | proceed r how waiter => exact if_neg fun dies => Scripted.noConfusion (ending.symm.trans dies)
  | serve | expiry | expired | pollBegin | pollTick => rfl

end Agenda

/-! ## Steps -/

section

variable {s s' : Station} {m : Move} {log : History}

theorem Step.unscripted (step : Step .simulated s m s') (unscripted : s.agenda.Unscripted) :
    s'.agenda.Unscripted := by
  cases step with
  | operate o =>
      rw [Station.agenda_take]
      exact unscripted.effects _
  | @handle c rest head =>
      rw [Station.handle, Station.agenda_take]
      have taken : { s.agenda with arrived := rest }.Unscripted :=
        unscripted.grow rfl fun _ member => .inl member
      exact taken.effects _
  | @work before after job ready =>
      have taken : { s.agenda with ready := before ++ after }.Unscripted := by
        refine unscripted.grow rfl ?_
        intro other member
        refine .inl (Agenda.mem_jobs.mpr ?_)
        rcases Agenda.mem_jobs.mp member with left | sleeping
        · rw [ready]
          rcases List.mem_append.mp left with earlier | later
          · exact .inl (List.mem_append_left _ earlier)
          · exact .inl (List.mem_append_right _ (List.mem_cons_of_mem _ later))
        · exact .inr sleeping
      refine taken.runJob (unscripted.plain job (Agenda.mem_jobs.mpr (.inl ?_)))
      rw [ready]
      exact List.mem_append_right _ List.mem_cons_self
  | wake later => exact unscripted.wakeAt _
  | outside change =>
      cases change with
      | offline | counter | uptime => exact unscripted.grow rfl fun _ member => .inl member

/-- What a step does to the engine and to the queue. -/
inductive Stirred (s : Station) : Move → Station → Prop where
  | answered {s' : Station} {job : Job} {r : Request} {seen : List Endpoint} :
      job.request? = some r → r ∈ s.agenda.underway →
      s'.agenda.engine = (Engine.serve { s.agenda.engine with seen } s.agenda.uptime r).1 →
      s'.agenda.arrived =
        s.agenda.arrived ++ [(Engine.serve { s.agenda.engine with seen } s.agenda.uptime r).2] →
      Stirred s (.work job) s'
  | expired {s' : Station} {job : Job} {id : Nat} :
      job.request? = none → s'.agenda.engine = s.agenda.engine →
      s'.agenda.arrived = s.agenda.arrived ++ [.alertExpired id] → Stirred s (.work job) s'
  | handled {s' : Station} {c : Completion} :
      s.agenda.arrived = c :: s'.agenda.arrived → s'.agenda.engine = s.agenda.engine →
      Stirred s (.handle c) s'
  | quiet {s' : Station} {m : Move} :
      (Deed.mk s m).handled? = none → s'.agenda.arrived = s.agenda.arrived →
      s'.agenda.engine.config = s.agenda.engine.config →
      s'.agenda.engine.running = s.agenda.engine.running → Stirred s m s'

theorem Step.stirred (step : Step .simulated s m s') (unscripted : s.agenda.Unscripted) :
    Stirred s m s' := by
  cases step with
  | operate o =>
      refine .quiet rfl ?_ ?_ ?_
      · rw [Station.agenda_take, Agenda.arrived_effects]
      · rw [Station.agenda_take, Agenda.engine_effects]
      · rw [Station.agenda_take, Agenda.engine_effects]
  | @handle c rest head =>
      refine .handled ?_ ?_
      · rw [Station.handle, Station.agenda_take, Agenda.arrived_effects]
        exact head
      · rw [Station.handle, Station.agenda_take, Agenda.engine_effects]
  | @work before after job ready =>
      have member : job ∈ s.agenda.jobs := by
        refine Agenda.mem_jobs.mpr (.inl ?_)
        rw [ready]
        exact List.mem_append_right _ List.mem_cons_self
      have ending : { s.agenda with ready := before ++ after }.ending job = .engine := by
        refine Eq.trans ?_ (unscripted.ending_eq member)
        cases job <;> rfl
      have alive : { s.agenda with ready := before ++ after }.crashed? job = none := by
        refine Eq.trans ?_ (unscripted.crashed_eq member)
        cases job <;> rfl
      cases Agenda.ran { s.agenda with ready := before ++ after } job with
      | served asked _ _ engine arrived under =>
          exact .answered asked (Agenda.mem_underway.mpr ⟨job, member, asked⟩) engine arrived
      | scripted asked _ answer engine arrived under =>
          rw [ending] at answer
          cases answer
      | kept asked _ engine arrived under =>
          have config := congrArg Engine.config engine
          have running := congrArg Engine.running engine
          exact .quiet rfl arrived config running
      | crashed asked dead engine arrived under => cases alive.symm.trans dead
      | expired asked _ none engine arrived under => exact .expired asked engine arrived
      | idle asked _ engine arrived under =>
          exact .quiet rfl arrived (congrArg Engine.config engine) (congrArg Engine.running engine)
  | wake later => exact .quiet rfl rfl rfl rfl
  | outside change =>
      cases change with
      | offline | counter | uptime => exact .quiet rfl rfl rfl rfl

theorem Station.unscripted_opened (form : Form) (options : Options) (engine : Engine)
    (latency : Nat) (clock : String) :
    (Station.opened form options engine latency clock).agenda.Unscripted := by
  rw [Station.agenda_opened]
  refine ⟨rfl, ?_⟩
  intro job member
  cases member

theorem Run.unscripted {first : Station} (start : first.agenda.Unscripted)
    (run : Run .simulated first log s) : s.agenda.Unscripted := by
  induction run with
  | begin => exact start
  | step run step ih => exact step.unscripted ih

end

end EngineConsole
