import EngineConsole.Proofs.Run.Aside
import EngineConsole.Proofs.Run.Outcome

/-!
# Settling

A station settles in turns: it runs what is ready and applies what that came to. Counters and the
chart aside, stations that are alike stay so, whatever is done to both of them. After two turns
nothing is left but work on the side, so it does not matter after how many of them a station stops.
-/

set_option autoImplicit false

namespace EngineConsole

/-! ## Desks -/

namespace Desk

/-- Desks that differ in nothing but the counters and their chart. -/
structure Alike (d e : Desk) : Prop where
  config : d.config = e.config
  form : d.form = e.form
  state : d.state = e.state
  pending : d.pending = e.pending
  alerts : d.alerts = e.alerts

/-- Outcomes that differ in nothing but that, and in effects on the side. -/
structure AlikeOutcomes (x y : Desk × List Effect) : Prop where
  desk : x.1.Alike y.1
  effects : x.2.filter (!·.isAside) = y.2.filter (!·.isAside)

theorem AlikeOutcomes.append {x y : Desk × List Effect} (alike : AlikeOutcomes x y)
    {l l' : List Effect} (same : l.filter (!·.isAside) = l'.filter (!·.isAside)) :
    AlikeOutcomes (x.1, x.2 ++ l) (y.1, y.2 ++ l') := by
  refine ⟨alike.desk, ?_⟩
  rw [List.filter_append, List.filter_append, alike.effects, same]

namespace Alike

variable {d e f : Desk} {m m' : Moment}

theorem refl (d : Desk) : d.Alike d :=
  ⟨rfl, rfl, rfl, rfl, rfl⟩

theorem symm (alike : d.Alike e) : e.Alike d :=
  ⟨alike.config.symm, alike.form.symm, alike.state.symm, alike.pending.symm, alike.alerts.symm⟩

theorem trans (alike : d.Alike e) (alike' : e.Alike f) : d.Alike f :=
  ⟨alike.config.trans alike'.config, alike.form.trans alike'.form, alike.state.trans alike'.state,
    alike.pending.trans alike'.pending, alike.alerts.trans alike'.alerts⟩

theorem raise (alike : d.Alike e) (now : m.now = m'.now) (kind : AlertKind) (message : String) :
    AlikeOutcomes (d.raise m kind message) (e.raise m' kind message) := by
  unfold Desk.raise
  rw [alike.alerts, now]
  exact ⟨{ alike with alerts := rfl }, rfl⟩

theorem adopt (alike : d.Alike e) (config : Config) : (d.adopt config).Alike (e.adopt config) :=
  { alike with config := rfl, form := congrArg (Form.fill · config) alike.form }

theorem toggle (alike : d.Alike e) : AlikeOutcomes d.toggle e.toggle := by
  unfold Desk.toggle
  rw [alike.pending, alike.state]
  split
  · exact ⟨alike, rfl⟩
  · exact ⟨{ alike with state := rfl, pending := rfl }, rfl⟩

theorem expire (alike : d.Alike e) (id : Nat) : AlikeOutcomes (d.expire id) (e.expire id) := by
  unfold Desk.expire
  rw [alike.alerts]
  split
  · exact ⟨{ alike with alerts := rfl }, rfl⟩
  · exact ⟨alike, rfl⟩

theorem imported (alike : d.Alike e) (now : m.now = m'.now) (result : Except ImportFailure Config) :
    AlikeOutcomes (d.imported m result) (e.imported m' result) := by
  cases result with
  | ok config => exact (alike.adopt config).raise now _ _
  | error flaw => exact alike.raise now _ _

theorem toggled (alike : d.Alike e) (now : m.now = m'.now) (result : Except Failure Unit) :
    AlikeOutcomes (d.toggled m result) (e.toggled m' result) := by
  cases result with
  | ok u =>
      have freed : { d with pending := false, state := d.state.toggled }.Alike
          { e with pending := false, state := e.state.toggled } :=
        { alike with pending := rfl, state := congrArg RunState.toggled alike.state }
      have message : toggledMessage d.state.toggled = toggledMessage e.state.toggled :=
        congrArg (fun s => toggledMessage s.toggled) alike.state
      dsimp only [Desk.toggled]
      rw [message]
      exact (freed.raise now .success (toggledMessage e.state.toggled)).append rfl
  | error f =>
      have freed : { d with pending := false }.Alike { e with pending := false } :=
        { alike with pending := rfl }
      exact (freed.raise now .error "System control failed").append rfl

theorem operate (alike : d.Alike e) (now : m.now = m'.now) (o : Operation) :
    AlikeOutcomes (d.operate m o) (e.operate m' o) := by
  cases o with
  | startup | load | askStatus | startPolling | stopPolling => exact ⟨alike, rfl⟩
  | save =>
      refine ⟨alike, ?_⟩
      dsimp only [Desk.operate, Desk.save]
      rw [alike.form]
  | toggle => exact alike.toggle
  | clear agreed => exact ⟨alike, rfl⟩
  | exportConfig taken =>
      cases taken with
      | true => exact ⟨alike, rfl⟩
      | false => exact alike.raise now _ _
  | importConfig file => exact alike.imported now _
  | edit key raw =>
      refine ⟨{ alike with form := ?_ }, rfl⟩
      dsimp only [Desk.operate]
      rw [alike.form]
  | put key value => exact ⟨{ alike with form := congrArg (Form.put · key value) alike.form }, rfl⟩

theorem handle (alike : d.Alike e) (now : m.now = m'.now) {c : Completion}
    (main : c.isAside = false) : AlikeOutcomes (d.handle m c) (e.handle m' c) := by
  cases c with
  | configLoaded result =>
      cases result with
      | ok config => exact ⟨alike.adopt config, rfl⟩
      | error f =>
          cases f with
          | refused => exact ⟨alike, rfl⟩
          | unreachable | undecodable => exact alike.raise now _ _
  | configSaved submitted result =>
      cases result with
      | ok u =>
          have taken : { d with config := submitted }.Alike { e with config := submitted } :=
            { alike with config := rfl }
          exact taken.raise now _ _
      | error f => exact alike.raise now _ _
  | statsFetched => cases main
  | statsCleared result =>
      cases result with
      | ok u => exact (alike.raise now .success "Statistics cleared").append rfl
      | error f => exact alike.raise now _ _
  | toggleFinished result => exact alike.toggled now result
  | engineStatus result =>
      cases result with
      | ok status => cases main
      | error f => exact alike.raise now _ _
  | alertExpired id => exact alike.expire id

/-- Completions on the side change nothing but the counters, the chart and what is shown. -/
theorem handleAside (alike : d.Alike e) (m : Moment) {c : Completion} (aside : c.isAside = true) :
    AlikeOutcomes (d.handle m c) (e, []) := by
  cases c with
  | statsFetched result =>
      refine ⟨?_, List.filter_eq_nil_iff.mpr fun effect member => ?_⟩
      · cases result with
        | ok counts => exact { alike with }
        | error f => exact alike
      · obtain ⟨g, text, rfl⟩ | rfl | ⟨call, rfl⟩ := d.mem_fetched m member <;> exact nofun
  | engineStatus result =>
      cases result with
      | ok status => exact ⟨alike, rfl⟩
      | error f => cases aside
  | configLoaded | configSaved | statsCleared | toggleFinished | alertExpired => cases aside

end Alike

/-- All that a completion has done outside, the side aside, is to let the time of an alert begin. -/
theorem handle_effects (d : Desk) (m : Moment) (c : Completion) {e : Effect}
    (member : e ∈ (d.handle m c).2) (main : e.isAside = false) :
    ∃ ttl id, e = .expireAfter ttl id := by
  cases e with
  | send r =>
      have sent : r ∈ Effect.requests (d.handle m c).2 :=
        List.mem_filterMap.mpr ⟨.send r, member, rfl⟩
      rw [requests_handle] at sent
      unfold Completion.requests at sent
      split at sent
      · obtain rfl := List.mem_singleton.mp sent
        cases main
      · cases sent
  | expireAfter ttl id => exact ⟨ttl, id, rfl⟩
  | «show» | startPolling | stopPolling => cases main

end Desk

/-! ## Stations -/

namespace Station

structure Alike (s t : Station) : Prop where
  desk : s.desk.Alike t.desk
  agenda : s.agenda.Alike t.agenda

namespace Alike

variable {s t u : Station}

theorem refl (sorted : s.agenda.sleeping.Pairwise fun e f => e.1 ≤ f.1) : s.Alike s :=
  ⟨.refl _, .refl sorted⟩

theorem symm (alike : s.Alike t) : t.Alike s :=
  ⟨alike.desk.symm, alike.agenda.symm⟩

theorem trans (alike : s.Alike t) (alike' : t.Alike u) : s.Alike u :=
  ⟨alike.desk.trans alike'.desk, alike.agenda.trans alike'.agenda⟩

theorem take (alike : s.Alike t) {x y : Desk × List Effect} (outcomes : Desk.AlikeOutcomes x y) :
    (s.take x).Alike (t.take y) := by
  refine ⟨?_, ?_⟩
  · rw [desk_take, desk_take]
    exact outcomes.desk
  · rw [agenda_take, agenda_take]
    exact alike.agenda.effects outcomes.effects

theorem operate (alike : s.Alike t) (o : Operation) :
    (s.take (s.desk.operate s.moment o)).Alike (t.take (t.desk.operate t.moment o)) :=
  alike.take (alike.desk.operate alike.agenda.now o)

theorem handle (alike : s.Alike t) {c : Completion} (main : c.isAside = false) :
    (s.handle c).Alike (t.handle c) :=
  alike.take (alike.desk.handle alike.agenda.now main)

theorem handleAside (alike : s.Alike t) {c : Completion} (aside : c.isAside = true) :
    (s.handle c).Alike t :=
  alike.take (alike.desk.handleAside s.moment aside)

theorem batch (alike : s.Alike t) {l l' : List Completion}
    (same : l.filter (!·.isAside) = l'.filter (!·.isAside)) :
    (l.foldl Station.handle s).Alike (l'.foldl Station.handle t) := by
  refine foldl_related (R := Alike) symm trans ?_ ?_ same alike
  · exact fun aside alike => alike.handleAside aside
  · exact fun main alike => alike.handle main

theorem runReady (alike : s.Alike t) : s.runReady.Alike t.runReady :=
  ⟨alike.desk, alike.agenda.runReady⟩

theorem process (alike : s.Alike t) : s.process.1.Alike t.process.1 := by
  have taken : (s.queued []).Alike (t.queued []) :=
    ⟨alike.desk, { alike.agenda with arrived := rfl }⟩
  exact taken.batch alike.agenda.arrived

end Alike

/-! ## Turns -/

variable {s t : Station}

/-- One turn of settling. -/
def turn (s : Station) : Station :=
  s.runReady.process.1

/-- At this moment nothing is left to do but work on the side. -/
structure Idle (s : Station) : Prop where
  ready : s.agenda.Resting
  arrived : s.agenda.arrived.filter (!·.isAside) = []

theorem Alike.turn (alike : s.Alike t) : s.turn.Alike t.turn :=
  alike.runReady.process

theorem Alike.idle (alike : s.Alike t) (idle : t.Idle) : s.Idle :=
  ⟨alike.agenda.resting idle.ready, alike.agenda.arrived.trans idle.arrived⟩

theorem Alike.processAside (alike : s.Alike t)
    (aside : s.agenda.arrived.filter (!·.isAside) = []) : s.process.1.Alike t := by
  have taken : (s.queued []).Alike t :=
    ⟨alike.desk, { alike.agenda with arrived := aside.symm.trans alike.agenda.arrived }⟩
  have nothing : s.agenda.arrived.filter (!·.isAside) =
      ([] : List Completion).filter (!·.isAside) := aside
  exact taken.batch nothing

/-- A turn leaves no trace of work on the side. -/
theorem Alike.turnAside (alike : s.Alike t) (idle : s.Idle) : s.turn.Alike t := by
  have ran : s.runReady.Alike t :=
    ⟨alike.desk, alike.agenda.runReadyResting idle.ready⟩
  exact ran.processAside ((ran.trans alike.symm).agenda.arrived.trans idle.arrived)

end Station

/-! ### Two turns are enough -/

namespace Agenda

variable {a b : Agenda}

/-- All that is ready, the side aside, lets the time of alerts begin. -/
def OnlyExpiries (a : Agenda) : Prop :=
  ∀ job ∈ a.ready.filter (!·.isAside), ∃ ttl id, job = .expiry ttl id

/-- All that waits in the queue, the side aside, is the end of alerts' time. -/
def OnlyExpired (a : Agenda) : Prop :=
  ∀ c ∈ a.arrived.filter (!·.isAside), ∃ id, c = .alertExpired id

theorem Resting.onlyExpiries (resting : a.Resting) : a.OnlyExpiries := by
  intro job member
  rw [resting] at member
  cases member

theorem OnlyExpiries.spawn {job : Job} (only : a.OnlyExpiries)
    (expiry : job.isAside = false → ∃ ttl id, job = .expiry ttl id) :
    (a.spawn job).OnlyExpiries := by
  intro other member
  obtain ⟨member, main⟩ := List.mem_filter.mp member
  rcases List.mem_append.mp member with old | new
  · exact only other (List.mem_filter.mpr ⟨old, main⟩)
  · obtain rfl := List.mem_singleton.mp new
    exact expiry (by simpa using main)

theorem OnlyExpiries.stopPolling (only : a.OnlyExpiries) : a.stopPolling.OnlyExpiries := by
  intro job member
  obtain ⟨member, main⟩ := List.mem_filter.mp member
  exact only job (List.mem_filter.mpr ⟨(List.mem_filter.mp member).1, main⟩)

theorem OnlyExpiries.effects {l : List Effect} (only : a.OnlyExpiries)
    (expiries : ∀ e ∈ l, e.isAside = false → ∃ ttl id, e = .expireAfter ttl id) :
    (l.foldl undertake a).OnlyExpiries := by
  induction l generalizing a with
  | nil => exact only
  | cons e rest ih =>
      refine ih ?_ fun f member => expiries f (List.mem_cons_of_mem e member)
      cases e with
      | «show» => exact only
      | send r =>
          refine only.spawn fun main => ?_
          obtain ⟨ttl, id, impossible⟩ := expiries (.send r) List.mem_cons_self main
          cases impossible
      | expireAfter ttl id => exact only.spawn fun _ => ⟨ttl, id, rfl⟩
      | startPolling => exact only.stopPolling.spawn nofun
      | stopPolling => exact only.stopPolling

theorem OnlyExpired.jobs {l : List Job}
    (sorted : a.sleeping.Pairwise fun e f => e.1 ≤ f.1) (only : a.OnlyExpired)
    (expiries : ∀ job ∈ l.filter (!·.isAside), ∃ ttl id, job = .expiry ttl id) :
    (l.foldl runJob a).OnlyExpired := by
  induction l generalizing a with
  | nil => exact only
  | cons job rest ih =>
      have self : a.Alike a := .refl sorted
      cases kind : job.isAside with
      | true =>
          have alike : (a.runJob job).Alike a := self.runAside kind
          refine ih alike.sorted ?_ ?_
          · intro c member
            rw [alike.arrived] at member
            exact only c member
          · rwa [List.filter_cons_of_neg (by simp [kind])] at expiries
      | false =>
          rw [List.filter_cons_of_pos (by simp [kind])] at expiries
          obtain ⟨ttl, id, rfl⟩ := expiries job List.mem_cons_self
          refine ih (self.runJob kind).sorted ?_ fun other member =>
            expiries other (List.mem_cons_of_mem _ member)
          dsimp only [runJob]
          split
          · intro c member
            obtain ⟨member, main⟩ := List.mem_filter.mp member
            rcases List.mem_append.mp member with old | new
            · exact only c (List.mem_filter.mpr ⟨old, main⟩)
            · exact ⟨id, List.mem_singleton.mp new⟩
          · exact only

theorem OnlyExpired.runReady (sorted : a.sleeping.Pairwise fun e f => e.1 ≤ f.1)
    (only : a.OnlyExpired) (expiries : a.OnlyExpiries) : a.runReady.OnlyExpired := by
  have started : Agenda.OnlyExpired { a with ready := [] } := only
  have ended : a.round.OnlyExpired := started.jobs sorted expiries
  have alike : a.runReady.Alike a.round := (Alike.refl sorted).round.runReadyAside
  intro c member
  rw [alike.arrived] at member
  exact ended c member

end Agenda

namespace Station

variable {s t : Station}

theorem arrived_batch (l : List Completion) (s : Station) :
    (l.foldl handle s).agenda.arrived = s.agenda.arrived := by
  induction l generalizing s with
  | nil => rfl
  | cons c rest ih =>
      refine (ih (s.handle c)).trans ?_
      rw [handle, agenda_take, Agenda.arrived_effects]

theorem onlyExpiries_batch (l : List Completion) (only : s.agenda.OnlyExpiries) :
    (l.foldl handle s).agenda.OnlyExpiries := by
  induction l generalizing s with
  | nil => exact only
  | cons c rest ih =>
      refine ih ?_
      rw [handle, agenda_take]
      exact only.effects fun _ => s.desk.handle_effects s.moment c

/-- The end of an alert's time has no consequences in the background. -/
theorem agenda_expire {b : Agenda} (alike : s.agenda.Alike b) (id : Nat) :
    (s.handle (.alertExpired id)).agenda.Alike b := by
  have shown : (s.desk.expire id).2.filter (!·.isAside) =
      ([] : List Effect).filter (!·.isAside) := by
    unfold Desk.expire
    split <;> rfl
  rw [handle, agenda_take]
  exact alike.effects shown

theorem agenda_batch {l : List Completion} {b : Agenda} (alike : s.agenda.Alike b)
    (only : ∀ c ∈ l.filter (!·.isAside), ∃ id, c = .alertExpired id) :
    (l.foldl handle s).agenda.Alike b := by
  induction l generalizing s with
  | nil => exact alike
  | cons c rest ih =>
      cases kind : c.isAside with
      | true =>
          have self : s.Alike s := .refl alike.sorted
          rw [List.filter_cons_of_neg (by simp [kind])] at only
          exact ih ((self.handleAside kind).agenda.trans alike) only
      | false =>
          rw [List.filter_cons_of_pos (by simp [kind])] at only
          obtain ⟨id, rfl⟩ := only c List.mem_cons_self
          exact ih (agenda_expire alike id) fun d member => only d (List.mem_cons_of_mem _ member)

/-- The first turn leaves nothing but the expiry of new alerts, and the second nothing. -/
theorem idle_turn_turn (sorted : s.agenda.sleeping.Pairwise fun e f => e.1 ≤ f.1) :
    s.turn.turn.Idle := by
  have self : s.Alike s := .refl sorted
  have expiries : s.turn.agenda.OnlyExpiries := by
    have resting : (s.runReady.queued []).agenda.Resting := Agenda.resting_runReady sorted
    exact onlyExpiries_batch _ resting.onlyExpiries
  have none : s.turn.agenda.OnlyExpired := by
    intro c member
    rw [show s.turn.agenda.arrived = [] from arrived_batch _ _] at member
    cases member
  have sorted' := self.turn.agenda.sorted
  have resting : (s.turn.runReady.queued []).agenda.Resting := Agenda.resting_runReady sorted'
  have ran : (s.turn.runReady.queued []).Alike (s.turn.runReady.queued []) :=
    .refl self.turn.runReady.agenda.sorted
  have applied : s.turn.turn.agenda.Alike (s.turn.runReady.queued []).agenda :=
    agenda_batch ran.agenda (none.runReady sorted' expiries)
  exact ⟨applied.resting resting, applied.arrived⟩

/-! ### Settling -/

theorem Alike.turns (alike : s.Alike t) (n : Nat) :
    (Station.turn^[n] s).Alike (Station.turn^[n] t) := by
  induction n with
  | zero => exact alike
  | succ n ih =>
      rw [Function.iterate_succ_apply', Function.iterate_succ_apply']
      exact ih.turn

theorem Alike.turnsAside (alike : s.Alike t) (idle : s.Idle) (n : Nat) :
    (Station.turn^[n] s).Alike t := by
  induction n with
  | zero => exact alike
  | succ n ih =>
      rw [Function.iterate_succ_apply']
      exact ih.turnAside ((ih.trans alike.symm).idle idle)

/-- Settling stops early only where more turns would leave no trace. -/
theorem alike_settleTurns (n : Nat) (sorted : s.agenda.sleeping.Pairwise fun e f => e.1 ≤ f.1) :
    (settleTurns n s).1.Alike (turn^[n] s) := by
  induction n generalizing s with
  | zero => exact .refl sorted
  | succ n ih =>
      have self : s.Alike s := .refl sorted
      rw [Function.iterate_succ_apply]
      unfold settleTurns
      dsimp only
      split
      next empty =>
        have none : s.runReady.agenda.arrived = [] := List.isEmpty_iff.mp empty
        have aside : s.runReady.agenda.arrived.filter (!·.isAside) = [] := by
          rw [none]
          rfl
        have applied : s.turn.Alike s.runReady := self.runReady.processAside aside
        have idle : s.runReady.Idle := ⟨Agenda.resting_runReady sorted, aside⟩
        exact (applied.turnsAside (applied.idle idle) n).symm
      next => exact ih self.turn.agenda.sorted

theorem Alike.settle (alike : s.Alike t) : s.settle.1.Alike t.settle.1 :=
  ((alike_settleTurns 4 alike.agenda.sorted).trans (alike.turns 4)).trans
    (alike_settleTurns 4 alike.agenda.sorted').symm

theorem Alike.settleAside (alike : s.Alike t) (idle : s.Idle) : s.settle.1.Alike t :=
  (alike_settleTurns 4 alike.agenda.sorted).trans (alike.turnsAside idle 4)

theorem idle_settle (sorted : s.agenda.sleeping.Pairwise fun e f => e.1 ≤ f.1) :
    s.settle.1.Idle := by
  have self : s.Alike s := .refl sorted
  have idle : s.turn.turn.Idle := idle_turn_turn sorted
  have more : (turn^[2] s.turn.turn).Alike s.turn.turn := self.turn.turn.turnsAside idle 2
  exact ((alike_settleTurns 4 sorted).trans more).idle idle

/-- What is ready may run before a station settles. -/
theorem alike_settle_runReady (sorted : s.agenda.sleeping.Pairwise fun e f => e.1 ≤ f.1) :
    s.runReady.settle.1.Alike s.settle.1 := by
  have self : s.Alike s := .refl sorted
  have resting : s.runReady.agenda.Resting := Agenda.resting_runReady sorted
  have again : s.runReady.runReady.Alike s.runReady :=
    ⟨.refl _, self.runReady.agenda.runReadyResting resting⟩
  have first : s.runReady.turn.Alike s.turn := again.process
  have turns : (turn^[4] s.runReady).Alike (turn^[4] s) := first.turns 3
  exact ((alike_settleTurns 4 self.runReady.agenda.sorted).trans turns).trans
    (alike_settleTurns 4 sorted).symm

end Station

end EngineConsole
