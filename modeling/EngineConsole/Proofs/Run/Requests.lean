import EngineConsole.Proofs.Run.Work
import Mathlib.Tactic.Abel

/-!
# The bookkeeping of requests

Every request that was issued in a run is still under way, or its completion waits in the queue, or
its completion was handled, or it died; and no completion is of any other origin. Stopping the poll
timer or starting another changes none of this.
-/

set_option autoImplicit false

namespace EngineConsole

/-- What a request and its completion are about. The end of a start and that of a stop look alike.
-/
inductive Matter where
  | load
  | save (submitted : Config)
  | stats
  | clear
  | toggle
  | status
  deriving DecidableEq

def Request.matter : Request → Matter
  | .loadConfig => .load
  | .saveConfig submitted => .save submitted
  | .fetchStats => .stats
  | .clearStats => .clear
  | .start => .toggle
  | .stop => .toggle
  | .askStatus => .status

def Completion.matter? : Completion → Option Matter
  | .configLoaded _ => some .load
  | .configSaved submitted _ => some (.save submitted)
  | .statsFetched _ => some .stats
  | .statsCleared _ => some .clear
  | .toggleFinished _ => some .toggle
  | .engineStatus _ => some .status
  | .alertExpired _ => none

theorem Request.matter_failed (r : Request) (f : Failure) :
    (r.failed f).matter? = some r.matter := by
  cases r <;> rfl

theorem Request.matter_answered (r : Request) (body : Json.Input) :
    (r.answered body).matter? = some r.matter := by
  cases r <;> rfl

theorem Scripted.matter_completion {ending : Scripted} {r : Request} {c : Completion}
    (answer : ending.completion? r = some c) : c.matter? = some r.matter := by
  cases ending with
  | fail f =>
      obtain rfl := Option.some.inj answer
      exact r.matter_failed f
  | answer body =>
      cases r <;> cases answer <;> exact Request.matter_answered _ _
  | crash => cases answer
  | engine => cases answer

theorem Engine.matter_serve (e : Engine) (uptime : String) (r : Request) :
    (e.serve uptime r).2.matter? = some r.matter := by
  unfold Engine.serve
  split
  · exact r.matter_failed _
  · cases r <;> rfl

/-- Whatever a request can end with, an engine and a script make it end so at once: a script does if
it is a failure, and an engine that has so much to say if it is a success. -/
theorem World.any_ends (a : Agenda) (r : Request) {c : Completion}
    (fits : c.matter? = some r.matter) :
    ∃ b, World.any a b ∧ ∀ waiter, (b.begin r waiter).arrived = a.arrived ++ [c] := by
  have fails (f : Failure) (failed : r.failed f = c) :
      ∃ b, World.any a b ∧ ∀ waiter, (b.begin r waiter).arrived = a.arrived ++ [c] := by
    refine ⟨{ a with script := fun _ => [⟨0, .fail f⟩] }, ⟨_, _, _, _, rfl⟩, fun waiter => ?_⟩
    rw [← failed]
    exact Agenda.arrived_release _ _
  have answers (engine : Engine) (uptime : String)
      (served : (Engine.serve (engine.arrive r.endpoint) uptime r).2 = c) :
      ∃ b, World.any a b ∧ ∀ waiter, (b.begin r waiter).arrived = a.arrived ++ [c] := by
    refine ⟨{ a with engine, latency := 0, script := .empty, uptime }, ⟨_, _, _, _, rfl⟩,
      fun waiter => ?_⟩
    rw [← served]
    exact Agenda.arrived_release _ _
  cases c with
  | configLoaded result =>
      cases r <;> cases fits
      cases result with
      | error f => exact fails f rfl
      | ok config => exact answers { config } "" rfl
  | configSaved submitted result =>
      cases r <;> cases fits
      cases result with
      | error f => exact fails f rfl
      | ok u => exact answers { config := .empty } "" rfl
  | statsFetched result =>
      cases r <;> cases fits
      cases result with
      | error f => exact fails f rfl
      | ok counts => exact answers { config := .empty, counts } "" rfl
  | statsCleared result =>
      cases r <;> cases fits
      cases result with
      | error f => exact fails f rfl
      | ok u => exact answers { config := .empty } "" rfl
  | toggleFinished result =>
      cases r with
      | start =>
          cases result with
          | error f => exact fails f rfl
          | ok u => exact answers { config := .ofList [("", .flag true)] } "" rfl
      | stop =>
          cases result with
          | error f => exact fails f rfl
          | ok u => exact answers { config := .empty, running := true } "" rfl
      | loadConfig | saveConfig | fetchStats | clearStats | askStatus => cases fits
  | engineStatus result =>
      cases r <;> cases fits
      cases result with
      | error f => exact fails f rfl
      | ok status => exact answers { config := .empty, running := status.running } status.uptime rfl
  | alertExpired id => cases fits

/-! ## Performing effects -/

def Effect.request? : Effect → Option Request
  | .send r => some r
  | _ => none

def Effect.requests (effects : List Effect) : List Request :=
  effects.filterMap Effect.request?

@[simp] theorem Effect.requests_nil : Effect.requests [] = [] := by
  rw [Effect.requests, List.filterMap_nil]

namespace Agenda

def undertake (a : Agenda) : Effect → Agenda
  | .show _ => a
  | .send r => a.spawn (.begin r none)
  | .expireAfter ttl id => a.spawn (.expiry ttl id)
  | .startPolling => a.startPolling
  | .stopPolling => a.stopPolling

@[simp] theorem arrived_undertake (a : Agenda) (e : Effect) :
    (a.undertake e).arrived = a.arrived := by
  cases e <;> rfl

@[simp] theorem engine_undertake (a : Agenda) (e : Effect) : (a.undertake e).engine = a.engine := by
  cases e <;> rfl

/-- Whatever is dropped belongs to a poll timer and carries no request. -/
theorem underway_stopPolling (a : Agenda) : a.stopPolling.underway = a.underway := by
  have dropped : ∀ job : Job, (if !job.isPoll then job.request? else none) = job.request? := by
    intro job
    cases job <;> rfl
  rw [underway_eq, underway_eq, work_stopPolling, Multiset.filterMap_filter]
  simp only [dropped]

theorem underway_undertake (a : Agenda) (e : Effect) :
    (a.undertake e).underway = a.underway + (e.request?.toList : List Request) := by
  cases e with
  | «show» _ => exact (add_zero _).symm
  | send r => exact underway_spawn _ _
  | expireAfter ttl id => exact underway_spawn _ _
  | startPolling =>
      refine Eq.trans ?_ (congrArg (· + _) a.underway_stopPolling)
      exact underway_spawn a.stopPolling (.pollBegin a.started)
  | stopPolling => exact a.underway_stopPolling.trans (add_zero _).symm

/-- What no effect changes, no list of effects does. -/
theorem effects_keep {β : Type} (read : Agenda → β)
    (same : ∀ a e, read (undertake a e) = read a) (a : Agenda) (effects : List Effect) :
    read (effects.foldl undertake a) = read a := by
  induction effects generalizing a with
  | nil => rfl
  | cons e rest ih => exact (ih _).trans (same a e)

theorem arrived_effects (a : Agenda) (effects : List Effect) :
    (effects.foldl undertake a).arrived = a.arrived :=
  effects_keep arrived arrived_undertake a effects

theorem engine_effects (a : Agenda) (effects : List Effect) :
    (effects.foldl undertake a).engine = a.engine :=
  effects_keep engine engine_undertake a effects

theorem underway_effects (a : Agenda) (effects : List Effect) :
    (effects.foldl undertake a).underway =
      a.underway + (Effect.requests effects : List Request) := by
  induction effects generalizing a with
  | nil => exact (add_zero _).symm
  | cons e rest ih =>
      rw [List.foldl_cons, ih, underway_undertake, add_assoc, Multiset.coe_add]
      cases asked : e.request? <;> simp [Effect.requests, asked]

theorem underway_wakeAt (a : Agenda) (moment : Nat) : (a.wakeAt moment).underway = a.underway := by
  rw [underway_eq, underway_eq, work_wakeAt]

end Agenda

namespace Station

theorem perform_eq (s : Station) (effects : List Effect) :
    (s.perform effects).desk = s.desk ∧
      (s.perform effects).agenda = effects.foldl Agenda.undertake s.agenda := by
  induction effects generalizing s with
  | nil => exact ⟨rfl, rfl⟩
  | cons e rest ih =>
      have one : (s.performOne e).desk = s.desk ∧
          (s.performOne e).agenda = s.agenda.undertake e := by
        cases e <;> exact ⟨rfl, rfl⟩
      obtain ⟨desk, agenda⟩ := ih (s.performOne e)
      exact ⟨desk.trans one.1, agenda.trans (by rw [one.2]; rfl)⟩

@[simp] theorem desk_perform (s : Station) (effects : List Effect) :
    (s.perform effects).desk = s.desk :=
  (s.perform_eq effects).1

@[simp] theorem agenda_perform (s : Station) (effects : List Effect) :
    (s.perform effects).agenda = effects.foldl Agenda.undertake s.agenda :=
  (s.perform_eq effects).2

theorem desk_take (s : Station) (outcome : Desk × List Effect) :
    (s.take outcome).desk = outcome.1 :=
  desk_perform _ _

theorem agenda_take (s : Station) (outcome : Desk × List Effect) :
    (s.take outcome).agenda = outcome.2.foldl Agenda.undertake s.agenda :=
  agenda_perform _ _

end Station

/-! ## What a step did to requests -/

namespace Deed

def outcome (d : Deed) : Desk × List Effect :=
  match d.move with
  | .operate o => d.before.desk.operate d.before.moment o
  | .handle c => d.before.desk.handle d.before.moment c
  | _ => (d.before.desk, [])

/-- The requests that a step issues: those the desk sends, and those of the poll timer. -/
def issued (d : Deed) : List Request :=
  match d.move with
  | .work job => List.replicate (d.before.agenda.fetches job) .fetchStats
  | _ => Effect.requests d.outcome.2

def handled? (d : Deed) : Option Completion :=
  match d.move with
  | .handle c => some c
  | _ => none

def crashed? (d : Deed) : Option Request :=
  match d.move with
  | .work job => d.before.agenda.crashed? job
  | _ => none

end Deed

namespace History

def issued (log : History) : List Request :=
  log.flatMap Deed.issued

def handled (log : History) : List Completion :=
  log.filterMap Deed.handled?

def crashed (log : History) : List Request :=
  log.filterMap Deed.crashed?

end History

def Request.matters (requests : List Request) : Multiset Matter :=
  (requests.map Request.matter : List Matter)

def Completion.matters (completions : List Completion) : Multiset Matter :=
  (completions.filterMap Completion.matter? : List Matter)

@[simp] theorem Request.matters_nil : Request.matters [] = 0 := by
  rw [Request.matters, List.map_nil, Multiset.coe_nil]

@[simp] theorem Request.matters_append (l l' : List Request) :
    Request.matters (l ++ l') = Request.matters l + Request.matters l' := by
  simp [Request.matters]

@[simp] theorem Completion.matters_nil : Completion.matters [] = 0 := by
  rw [Completion.matters, List.filterMap_nil, Multiset.coe_nil]

@[simp] theorem Completion.matters_append (l l' : List Completion) :
    Completion.matters (l ++ l') = Completion.matters l + Completion.matters l' := by
  simp [Completion.matters]

theorem Request.count_matters (l : List Request) (m : Matter) :
    (Request.matters l).count m = l.countP (fun r => r.matter == m) := by
  rw [Request.matters, Multiset.coe_count, List.count_eq_countP, List.countP_map]
  rfl

theorem Completion.count_matters (l : List Completion) (m : Matter) :
    (Completion.matters l).count m = l.countP (fun c => c.matter? == some m) := by
  rw [Completion.matters, Multiset.coe_count, List.count_filterMap]

/-- What the requests under way and the completions in the queue are about. -/
def Agenda.concerns (a : Agenda) : Multiset Matter :=
  a.underway.map Request.matter + Completion.matters a.arrived

theorem Step.desk_eq {world : World} {s s' : Station} {m : Move} (step : Step world s m s') :
    s'.desk = (Deed.mk s m).outcome.1 := by
  cases step with
  | operate o => exact Station.desk_take _ _
  | handle head => exact Station.desk_take _ _
  | work member => rfl
  | wake later => rfl
  | outside change => rfl

theorem Agenda.concerns_ran {a b : Agenda} {job : Job} (ran : Ran a job b) :
    b.concerns + Request.matters (a.crashed? job).toList =
      a.concerns + Request.matters job.request?.toList +
        Request.matters (List.replicate (a.fetches job) .fetchStats) := by
  have unfetched {r : Request} (asked : job.request? = some r) : a.fetches job = 0 := by
    cases job <;> first | rfl | cases asked
  have one {c : Completion} {r : Request} (fits : c.matter? = some r.matter) :
      Completion.matters [c] = Request.matters [r] := by
    simp [Completion.matters, Request.matters, fits]
  cases ran with
  | @served r seen asked alive silent engine arrived under =>
      have fits := one (Engine.matter_serve { a.engine with seen } a.uptime r)
      simp [concerns, asked, alive, arrived, under, unfetched asked, fits, add_assoc]
  | @scripted r c asked alive answer engine arrived under =>
      have fits := one (Scripted.matter_completion answer)
      simp [concerns, asked, alive, arrived, under, unfetched asked, fits, add_assoc]
  | @kept r seen asked alive engine arrived under =>
      have kept : ({r} : Multiset Request).map Request.matter = Request.matters [r] := rfl
      simp only [concerns, asked, alive, arrived, under, unfetched asked, Multiset.map_add, kept,
        Option.toList_none, Option.toList_some, Request.matters_nil, List.replicate_zero, add_zero]
      exact add_right_comm _ _ _
  | @crashed r asked dead engine arrived under =>
      simp [concerns, asked, dead, arrived, under, unfetched asked]
  | @expired id asked alive none engine arrived under =>
      have aside : Completion.matters [.alertExpired id] = 0 := rfl
      simp [concerns, asked, alive, none, arrived, under, aside]
  | idle asked alive engine arrived under =>
      have fetched : (Multiset.replicate (a.fetches job) Request.fetchStats).map Request.matter =
          Request.matters (List.replicate (a.fetches job) .fetchStats) := by
        rw [Multiset.map_replicate, Request.matters, List.map_replicate, Multiset.coe_replicate]
      simp only [concerns, asked, alive, arrived, under, Multiset.map_add, fetched,
        Option.toList_none, Request.matters_nil, add_zero]
      exact add_right_comm _ _ _

theorem Agenda.concerns_effects (a : Agenda) (effects : List Effect) :
    (effects.foldl undertake a).concerns =
      a.concerns + Request.matters (Effect.requests effects) := by
  rw [concerns, concerns, underway_effects, arrived_effects, Multiset.map_add]
  exact add_right_comm _ _ _

theorem Agenda.underway_taken {a : Agenda} {before after : List Job} {job : Job}
    (member : a.ready = before ++ job :: after) :
    a.underway = { a with ready := before ++ after }.underway +
      (job.request?.toList : List Request) := by
  rw [underway_eq, underway_eq, work_taken member, Multiset.filterMap_add, filterMap_singleton]

theorem Agenda.concerns_taken {a : Agenda} {before after : List Job} {job : Job}
    (member : a.ready = before ++ job :: after) :
    { a with ready := before ++ after }.concerns + Request.matters job.request?.toList =
      a.concerns := by
  rw [concerns, concerns, underway_taken member, Multiset.map_add]
  exact add_right_comm _ _ _

theorem Agenda.concerns_wakeAt (a : Agenda) (moment : Nat) :
    (a.wakeAt moment).concerns = a.concerns := by
  rw [concerns, underway_wakeAt]
  rfl

/-! ## The balance of a run -/

theorem Step.balance {s s' : Station} {m : Move} (step : Step .any s m s') :
    s'.agenda.concerns + Completion.matters (Deed.mk s m).handled?.toList +
        Request.matters (Deed.mk s m).crashed?.toList =
      s.agenda.concerns + Request.matters (Deed.mk s m).issued := by
  cases step with
  | operate o =>
      rw [Station.agenda_take, Agenda.concerns_effects]
      simp [Deed.handled?, Deed.crashed?, Deed.issued, Deed.outcome]
  | @handle c rest head =>
      have taken : { s.agenda with arrived := rest }.concerns + Completion.matters [c] =
          s.agenda.concerns := by
        have queue : Completion.matters s.agenda.arrived =
            Completion.matters rest + Completion.matters [c] := by
          rw [head, ← List.singleton_append, Completion.matters_append]
          exact add_comm _ _
        rw [Agenda.concerns, Agenda.concerns, queue]
        exact add_assoc _ _ _
      rw [Station.handle, Station.agenda_take, Agenda.concerns_effects, ← taken]
      simp only [Deed.handled?, Deed.crashed?, Option.toList_none, Option.toList_some,
        Request.matters_nil, add_zero]
      exact add_right_comm _ _ _
  | @work before after job member =>
      have ran := Agenda.concerns_ran (Agenda.ran { s.agenda with ready := before ++ after } job)
      rw [Agenda.concerns_taken member] at ran
      simp only [Deed.handled?, Option.toList_none, Completion.matters_nil, add_zero]
      exact ran
  | wake later =>
      rw [Agenda.concerns_wakeAt]
      simp [Deed.handled?, Deed.crashed?, Deed.issued, Deed.outcome]
  | outside change =>
      obtain ⟨engine, latency, script, uptime, rfl⟩ := change
      simp [Deed.handled?, Deed.crashed?, Deed.issued, Deed.outcome, Agenda.concerns,
        Agenda.underway, Agenda.jobs]

/-- Nothing is under way that was not before, but for what is issued. -/
theorem Step.underway_le {s s' : Station} {m : Move} (step : Step .any s m s') :
    s'.agenda.underway ≤ s.agenda.underway + ((Deed.mk s m).issued : List Request) := by
  cases step with
  | operate o =>
      rw [Station.agenda_take, Agenda.underway_effects]
      exact le_refl _
  | handle head =>
      rw [Station.handle, Station.agenda_take, Agenda.underway_effects]
      exact le_refl _
  | @work before after job member =>
      rw [Agenda.underway_taken member]
      exact (Agenda.ran { s.agenda with ready := before ++ after } job).underway_le
  | wake later =>
      rw [Agenda.underway_wakeAt]
      exact Multiset.le_add_right _ _
  | outside change =>
      obtain ⟨engine, latency, script, uptime, rfl⟩ := change
      exact Multiset.le_add_right _ _

theorem Station.concerns_opened (form : Form) (options : Options) (engine : Engine) (latency : Nat)
    (clock : String) : (Station.opened form options engine latency clock).agenda.concerns = 0 := by
  rw [Station.agenda_opened]
  rfl

theorem History.issued_append (log : History) (d : Deed) :
    History.issued (log ++ [d]) = log.issued ++ d.issued := by
  simp [History.issued]

theorem History.handled_append (log : History) (d : Deed) :
    History.handled (log ++ [d]) = log.handled ++ d.handled?.toList := by
  cases handled : d.handled? <;> simp [History.handled, handled]

theorem History.crashed_append (log : History) (d : Deed) :
    History.crashed (log ++ [d]) = log.crashed ++ d.crashed?.toList := by
  cases crashed : d.crashed? <;> simp [History.crashed, crashed]

/-- What was issued is under way or in the queue, or it was handled, or it died. -/
theorem Run.balance {form : Form} {options : Options} {engine : Engine} {latency : Nat}
    {clock : String} {log : History} {s : Station}
    (run : Run .any (.opened form options engine latency clock) log s) :
    s.agenda.concerns + Completion.matters log.handled + Request.matters log.crashed =
      Request.matters log.issued := by
  induction run with
  | begin =>
      rw [Station.concerns_opened]
      rfl
  | @step log s s' m run step ih =>
      have balance := step.balance
      simp only [History.issued_append, History.handled_append, History.crashed_append,
        Completion.matters_append, Request.matters_append]
      calc s'.agenda.concerns + (Completion.matters log.handled +
              Completion.matters (Deed.mk s m).handled?.toList) +
            (Request.matters log.crashed + Request.matters (Deed.mk s m).crashed?.toList)
        _ = (s'.agenda.concerns + Completion.matters (Deed.mk s m).handled?.toList +
              Request.matters (Deed.mk s m).crashed?.toList) +
            (Completion.matters log.handled + Request.matters log.crashed) := by abel
        _ = (s.agenda.concerns + Completion.matters log.handled + Request.matters log.crashed) +
            Request.matters (Deed.mk s m).issued := by rw [balance]; abel
        _ = Request.matters log.issued + Request.matters (Deed.mk s m).issued := by rw [ih]

end EngineConsole
