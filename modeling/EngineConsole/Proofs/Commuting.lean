import EngineConsole.Proofs.PanelImage

/-!
# Completions that commute

Two completions that wait in the queue may have nothing to do with each other: an expiry takes one
alert away that is there already, and a fetch changes counters and chart, which only another fetch
reads, and is shown beside a state, which only the end of a start or stop changes. It does not
matter which of two such completions is handled first.
-/

set_option autoImplicit false

namespace EngineConsole

/-! ## Ports -/

inductive Port where
  | gauges
  | state
  | engine
  | chart
  | alerts
  | control
  deriving DecidableEq

/-- Where something is shown. -/
def Showing.port : Showing → Port
  | .gauge _ _ => .gauges
  | .state _ => .state
  | .engine _ => .engine
  | .chart _ => .chart
  | .alert _ => .alerts
  | .alertGone _ => .alerts
  | .enabled _ => .control
  | .busy => .control
  | .button _ => .control

/-- All that was shown in one place, in order. -/
def Station.shownAt (s : Station) (port : Port) : List Showing :=
  s.shown.filter fun w => w.port = port

/-- Two things that can be shown in either order: in different places, or an alert that goes and
another alert. -/
inductive Showing.Apart : Showing → Showing → Prop where
  | places {w w' : Showing} : w.port ≠ w'.port → Apart w w'
  | gone (id id' : Nat) : Apart (.alertGone id) (.alertGone id')
  | raised {id : Nat} {a : Alert} : a.id ≠ id → Apart (.alertGone id) (.alert a)

theorem Showing.Apart.alerts_of_port {w w' : Showing} (apart : w.Apart w')
    (same : w.port = w'.port) : w.port = .alerts := by
  cases apart with
  | places different => exact absurd same different
  | gone | raised => rfl

namespace Panel

theorem display_chart (p : Panel) (call : Chart.Call) :
    p.display (.chart call) =
      { p with chart := some (match call with | .create _ => [] | .redraw samples => samples) } := by
  cases call <;> rfl

theorem display_comm {w w' : Showing} (apart : w.Apart w') (p : Panel) :
    (p.display w).display w' = (p.display w').display w := by
  cases apart with
  | places different =>
      cases w <;> cases w' <;> first
        | rfl
        | exact absurd rfl different
        | simp only [display_chart]; rfl
  | gone id id' =>
      simp only [display, List.filter_filter, Bool.and_comm]
  | @raised id a other =>
      have kept : (a.id != id) = true := by simpa using other
      simp [display, List.filter_append, kept]

theorem displayAll_comm {l l' : List Showing} (apart : ∀ w ∈ l, ∀ w' ∈ l', w.Apart w')
    (p : Panel) : (p.displayAll l).displayAll l' = (p.displayAll l').displayAll l := by
  have one (w : Showing) (l' : List Showing) (apart : ∀ w' ∈ l', w.Apart w') (p : Panel) :
      (p.display w).displayAll l' = (p.displayAll l').display w := by
    induction l' generalizing p with
    | nil => rfl
    | cons w' rest ih =>
        calc ((p.display w).display w').displayAll rest
          _ = ((p.display w').display w).displayAll rest := by
            rw [display_comm (apart w' List.mem_cons_self)]
          _ = ((p.display w').displayAll rest).display w :=
            ih (fun w' member => apart w' (List.mem_cons_of_mem _ member)) _
  induction l generalizing p with
  | nil => rfl
  | cons w rest ih =>
      calc ((p.display w).displayAll rest).displayAll l'
        _ = ((p.display w).displayAll l').displayAll rest :=
          ih (fun w member => apart w (List.mem_cons_of_mem _ member)) _
        _ = ((p.displayAll l').display w).displayAll rest := by
          rw [one w l' (apart w List.mem_cons_self)]

end Panel

/-! ## Which completions are apart -/

/-- One completion of the two is an expiry, or it is a fetch and the other is neither a fetch nor
the end of a start or stop. -/
inductive Completion.Apart : Completion → Completion → Prop where
  | expiry (id : Nat) (c : Completion) : Apart (.alertExpired id) c
  | fetch (result : Except Failure Counts) {c : Completion} :
      (∀ r, c ≠ .statsFetched r) → (∀ r, c ≠ .toggleFinished r) → Apart (.statsFetched result) c

/-! ## Alerts that are struck -/

namespace AlertBoard

variable {board : AlertBoard} {id : Nat}

theorem remove_comm (board : AlertBoard) (id id' : Nat) :
    (board.remove id).remove id' = (board.remove id').remove id := by
  simp only [remove, List.filter_filter, Bool.and_comm]

theorem remove_add (known : id < board.nextId) (m : Nat) (kind : AlertKind) (message : String) :
    (board.remove id).add ((board.remove id).upcoming m kind message) =
      (board.add (board.upcoming m kind message)).remove id := by
  have kept : (board.nextId != id) = true := by
    simpa using Nat.ne_of_gt known
  simp [remove, add, upcoming, List.filter_append, kept]

theorem shows_add (known : id < board.nextId) (m : Nat) (kind : AlertKind) (message : String) :
    (board.add (board.upcoming m kind message)).shows id = board.shows id := by
  have other : (board.nextId == id) = false := by
    simpa using Nat.ne_of_gt known
  simp [shows, add, upcoming, List.any_append, other]

theorem shows_remove {id' : Nat} (other : id ≠ id') :
    (board.remove id').shows id = board.shows id := by
  simp only [shows, remove, List.any_filter]
  congr 1
  funext a
  by_cases same : a.id = id <;> simp [same, other]

end AlertBoard

namespace Desk

variable (desk : Desk) (m : Moment)

/-- The desk with an alert taken away, if it was there. -/
def strike (id : Nat) : Desk :=
  { desk with alerts := desk.alerts.remove id }

/-- What is shown when an alert is taken away. -/
def farewell (id : Nat) : List Effect :=
  if desk.alerts.shows id then [.show (.alertGone id)] else []

theorem expire_eq (id : Nat) : desk.expire id = (desk.strike id, desk.farewell id) := by
  unfold expire farewell
  split
  next => rfl
  next hidden =>
    have same := AlertBoard.remove_of_not_shows (Bool.not_eq_true _ ▸ hidden)
    rw [strike, same]

theorem handle_expiry (id : Nat) :
    desk.handle m (.alertExpired id) = (desk.strike id, desk.farewell id) :=
  desk.expire_eq id

variable {id : Nat}

theorem mem_farewell {e : Effect} (member : e ∈ desk.farewell id) :
    e = .show (.alertGone id) := by
  unfold farewell at member
  split at member
  · exact List.mem_singleton.mp member
  · cases member

theorem strike_raise (known : id < desk.alerts.nextId) (kind : AlertKind) (message : String) :
    (desk.strike id).raise m kind message =
      ((desk.raise m kind message).1.strike id, (desk.raise m kind message).2) := by
  simp only [raise, strike, AlertBoard.remove_add known]
  rfl

/-- It does not matter to a completion whether an alert has been taken away. -/
theorem strike_handle {c : Completion} (known : id < desk.alerts.nextId)
    (other : c ≠ .alertExpired id) :
    (desk.strike id).handle m c =
      ((desk.handle m c).1.strike id, (desk.handle m c).2) := by
  cases c with
  | configLoaded result =>
      cases result with
      | ok config => rfl
      | error f =>
          cases f with
          | refused => rfl
          | unreachable | undecodable => exact desk.strike_raise m known _ _
  | configSaved submitted result =>
      cases result with
      | ok u => exact { desk with config := submitted }.strike_raise m known _ _
      | error f => exact desk.strike_raise m known _ _
  | statsFetched result => cases result <;> rfl
  | statsCleared result =>
      have raised := desk.strike_raise m known
      cases result <;> simp only [handle, cleared, raised]
  | toggleFinished result =>
      let released (outcome : Desk × List Effect) : Desk × List Effect :=
        (outcome.1, outcome.2 ++
          [.show (.button outcome.1.state.button), .show (.enabled true)])
      cases result with
      | ok u =>
          exact congrArg released ({ desk with pending := false, state := desk.state.toggled }
            |>.strike_raise m known .success (toggledMessage desk.state.toggled))
      | error f =>
          exact congrArg released ({ desk with pending := false }
            |>.strike_raise m known .error "System control failed")
  | engineStatus result =>
      cases result with
      | ok status => rfl
      | error f => exact desk.strike_raise m known _ _
  | alertExpired id' =>
      have different : id' ≠ id := fun same => other (same ▸ rfl)
      simp only [handle, expire_eq, farewell, strike, AlertBoard.remove_comm,
        AlertBoard.shows_remove different]

/-- A completion takes no alert away but the one whose expiry it is. -/
theorem shows_handle {c : Completion} (known : id < desk.alerts.nextId)
    (other : c ≠ .alertExpired id) :
    (desk.handle m c).1.alerts.shows id = desk.alerts.shows id := by
  by_cases expiry : ∃ id', c = .alertExpired id'
  · obtain ⟨id', rfl⟩ := expiry
    have different : id ≠ id' := fun same => other (same ▸ rfl)
    simp only [handle, expire_eq, strike, AlertBoard.shows_remove different]
  · have raises : c.expires? = none := by
      cases c with
      | alertExpired id' => exact absurd ⟨id', rfl⟩ expiry
      | configLoaded | configSaved | statsFetched | statsCleared | toggleFinished | engineStatus =>
          rfl
    cases desk.alerted_handle m raises with
    | kept alerts _ => rw [alerts]
    | raised kind message alerts _ =>
        rw [alerts]
        exact AlertBoard.shows_add known _ _ _

/-- What a completion shows can be shown before or after an alert goes that was there already. -/
theorem farewell_apart {c : Completion} (known : id < desk.alerts.nextId) {w : Showing}
    (shown : .show w ∈ (desk.handle m c).2) : (Showing.alertGone id).Apart w := by
  cases w with
  | alert a =>
      apply Showing.Apart.raised
      have counts : .show (.alert a) ∈ (desk.handle m c).2.filter Effect.isAlert :=
        List.mem_filter.mpr ⟨shown, rfl⟩
      cases expires : c.expires? with
      | some id' =>
          obtain rfl : c = .alertExpired id' := by
            cases c <;> cases expires
            rfl
          rw [handle_expiry] at shown
          cases desk.mem_farewell shown
      | none =>
          cases desk.alerted_handle m expires with
          | kept _ effects => simp [effects] at counts
          | raised kind message _ effects =>
              rw [effects] at counts
              have same : a = desk.alerts.upcoming m.now kind message := by
                simpa [raise] using counts
              rw [same]
              exact Nat.ne_of_gt known
  | alertGone id' => exact .gone id id'
  | gauge | state | engine | chart | enabled | busy | button => exact .places nofun

/-! ## Counters that are renewed -/

/-- The desk with other counters and another chart. -/
def renew (counts : Counts) (chart : Chart) : Desk :=
  { desk with counts, chart }

/-- What is neither a fetch nor the end of a start or stop has nothing to do with counters, chart
and state, and says nothing of them. -/
structure Beside (c : Completion) : Prop where
  renewed : ∀ counts chart,
    (desk.renew counts chart).handle m c =
      ((desk.handle m c).1.renew counts chart, (desk.handle m c).2)
  chart : (desk.handle m c).1.chart = desk.chart
  state : (desk.handle m c).1.state = desk.state
  shown : ∀ w, .show w ∈ (desk.handle m c).2 → w.port = .alerts ∨ w.port = .engine

theorem beside_handle {c : Completion} (unread : ∀ r, c ≠ .statsFetched r)
    (still : ∀ r, c ≠ .toggleFinished r) : desk.Beside m c := by
  have silent {w : Showing} (shown : .show w ∈ ([] : List Effect)) :
      w.port = .alerts ∨ w.port = .engine := nomatch shown
  have raised {desk : Desk} {kind : AlertKind} {message : String} {w : Showing}
      (shown : .show w ∈ (desk.raise m kind message).2) : w.port = .alerts ∨ w.port = .engine := by
    obtain rfl : w = .alert (desk.alerts.upcoming m.now kind message) := by
      simpa [raise] using shown
    exact .inl rfl
  cases c with
  | configLoaded result =>
      cases result with
      | ok config => exact ⟨fun _ _ => rfl, rfl, rfl, fun _ => silent⟩
      | error f =>
          cases f with
          | refused => exact ⟨fun _ _ => rfl, rfl, rfl, fun _ => silent⟩
          | unreachable | undecodable => exact ⟨fun _ _ => rfl, rfl, rfl, fun _ => raised⟩
  | configSaved submitted result =>
      cases result <;> exact ⟨fun _ _ => rfl, rfl, rfl, fun _ => raised⟩
  | statsFetched result => exact absurd rfl (unread result)
  | statsCleared result =>
      cases result with
      | ok u =>
          refine ⟨fun _ _ => rfl, rfl, rfl, fun w shown => ?_⟩
          rcases List.mem_append.mp shown with alert | fetch
          · exact raised alert
          · simp at fetch
      | error f => exact ⟨fun _ _ => rfl, rfl, rfl, fun _ => raised⟩
  | toggleFinished result => exact absurd rfl (still result)
  | engineStatus result =>
      cases result with
      | ok status =>
          refine ⟨fun _ _ => rfl, rfl, rfl, fun w shown => ?_⟩
          obtain rfl : w = .engine status := by simpa [handle, told] using shown
          exact .inr rfl
      | error f => exact ⟨fun _ _ => rfl, rfl, rfl, fun _ => raised⟩
  | alertExpired id =>
      have struck := desk.handle_expiry m id
      constructor
      · intro counts chart
        rw [handle_expiry, struck]
        rfl
      · rw [struck]
        rfl
      · rw [struck]
        rfl
      · intro w shown
        rw [struck] at shown
        obtain rfl := Effect.show.inj (desk.mem_farewell shown)
        exact .inl rfl

/-! ## Two completions -/

/-- Each completion does what it would do alone, and only the second asks for anything. -/
structure Commutes (c c' : Completion) : Prop where
  agree : ((desk.handle m c).1.handle m c').1 = ((desk.handle m c').1.handle m c).1
  first : ((desk.handle m c').1.handle m c).2 = (desk.handle m c).2
  second : ((desk.handle m c).1.handle m c').2 = (desk.handle m c').2
  quiet : ∀ e ∈ (desk.handle m c).2, ∃ w, e = .show w
  shows : ∀ w, .show w ∈ (desk.handle m c).2 → ∀ w', .show w' ∈ (desk.handle m c').2 → w.Apart w'

theorem commutes_expiry {c : Completion} (known : id < desk.alerts.nextId)
    (other : c ≠ .alertExpired id) : desk.Commutes m (.alertExpired id) c := by
  have struck := desk.handle_expiry m id
  have struck' : (desk.handle m c).1.handle m (.alertExpired id) =
      ((desk.handle m c).1.strike id, desk.farewell id) := by
    rw [handle_expiry, farewell, desk.shows_handle m known other]
    rfl
  constructor
  · rw [struck, struck', desk.strike_handle m known other]
  · rw [struck, struck']
  · rw [struck, desk.strike_handle m known other]
  · intro e member
    rw [struck] at member
    exact ⟨_, desk.mem_farewell member⟩
  · intro w shown w' shown'
    rw [struck] at shown
    obtain rfl := Effect.show.inj (desk.mem_farewell shown)
    exact desk.farewell_apart m known shown'

theorem commutes_fetch {c : Completion} (result : Except Failure Counts)
    (unread : ∀ r, c ≠ .statsFetched r) (still : ∀ r, c ≠ .toggleFinished r) :
    desk.Commutes m (.statsFetched result) c := by
  obtain ⟨renewed, chart, state, shown⟩ := desk.beside_handle m unread still
  have quiet {e : Effect} (member : e ∈ (desk.handle m (.statsFetched result)).2) :
      ∃ w, e = .show w ∧ w.port ≠ .alerts ∧ w.port ≠ .engine := by
    obtain ⟨g, text, rfl⟩ | rfl | ⟨call, rfl⟩ := desk.mem_fetched m member <;>
      exact ⟨_, rfl, nofun, nofun⟩
  have apart : ∀ w, .show w ∈ (desk.handle m (.statsFetched result)).2 →
      ∀ w', .show w' ∈ (desk.handle m c).2 → w.Apart w' := by
    intro w member w' member'
    obtain ⟨_, same, alerts, engine⟩ := quiet member
    obtain rfl := Effect.show.inj same
    apply Showing.Apart.places
    intro together
    rcases shown w' member' with other | other
    · exact alerts (together.trans other)
    · exact engine (together.trans other)
  have shows : ∀ e ∈ (desk.handle m (.statsFetched result)).2, ∃ w, e = .show w :=
    fun e member => (quiet member).imp fun _ => And.left
  cases result with
  | error f => exact ⟨rfl, rfl, rfl, shows, apart⟩
  | ok counts =>
      have read (d : Desk) : d.handle m (.statsFetched (.ok counts)) =
          (d.renew counts (d.chart.push (.ofCounts m.clock counts)).1,
            (d.fetched m d.state (.ok counts)).2) := rfl
      have same : ((desk.handle m c).1.fetched m (desk.handle m c).1.state (.ok counts)).2 =
          (desk.fetched m desk.state (.ok counts)).2 := by
        simp only [fetched, chart, state]
      constructor
      · rw [read, read, renewed, chart]
      · rw [read, read, same]
      · rw [read, renewed]
      · exact shows
      · exact apart

end Desk

/-! ## Stations -/

namespace Agenda

theorem undertake_shown {effects : List Effect} (quiet : ∀ e ∈ effects, ∃ w, e = .show w)
    (a : Agenda) : effects.foldl undertake a = a := by
  induction effects generalizing a with
  | nil => rfl
  | cons e rest ih =>
      obtain ⟨w, rfl⟩ := quiet _ List.mem_cons_self
      exact ih (fun e member => quiet e (List.mem_cons_of_mem _ member)) a

/-- The clock may move on at any moment; expiries that do not depend on the time stay in order. -/
theorem Expires.wakeLate {known : Nat → Prop} {ttl moment : Nat} {ids : Multiset Nat} {a : Agenda}
    (expires : a.Expires (fun id _ => known id) ttl ids) (later : a.now ≤ moment) :
    (a.wakeAt moment).Expires (fun id _ => known id) ttl ids := by
  have ready {job : Job} (member : job ∈ (a.wakeAt moment).ready) :
      job ∈ a.ready ∨ ∃ e ∈ a.sleeping, e.1 ≤ moment ∧ e.2 = job := by
    rcases List.mem_append.mp member with old | woken
    · exact .inl old
    · obtain ⟨e, taken, same⟩ := List.mem_map.mp woken
      exact .inr ⟨e, List.takeWhile_subset _ taken, by simpa using List.mem_takeWhile_imp taken, same⟩
  constructor
  · rw [← expires.expiries, Agenda.expiries, Agenda.expiries, work_wakeAt]
    rfl
  · intro span id member
    rcases ready member with old | ⟨e, sleeping, -, same⟩
    · exact expires.begins span id old
    · obtain ⟨expired, -⟩ := expires.waits e sleeping id (by rw [same]; rfl)
      cases same.symm.trans expired
  · intro e member
    exact expires.waits e (List.dropWhile_subset _ member)
  · intro id member
    rcases member with member | arrived
    · rcases ready member with old | ⟨e, sleeping, due, same⟩
      · obtain ⟨t, raised, passed⟩ := expires.finished id (.inl old)
        exact ⟨t, raised, passed.trans later⟩
      · obtain ⟨-, t, raised, at'⟩ := expires.waits e sleeping id (by rw [same]; rfl)
        exact ⟨t, raised, at' ▸ due⟩
    · obtain ⟨t, raised, passed⟩ := expires.finished id (.inr arrived)
      exact ⟨t, raised, passed.trans later⟩

end Agenda

namespace Station

variable {s s' : Station} {m : Move} {c c' : Completion} {outcome : Desk × List Effect}

theorem clock_take (s : Station) (outcome : Desk × List Effect) :
    (s.take outcome).clock = s.clock := by
  have performed (s : Station) (effects : List Effect) : (s.perform effects).clock = s.clock := by
    induction effects generalizing s with
    | nil => rfl
    | cons e rest ih =>
        refine (ih (s.performOne e)).trans ?_
        cases e <;> rfl
  exact performed { s with desk := outcome.1 } outcome.2

theorem moment_take (s : Station) (outcome : Desk × List Effect) :
    (s.take outcome).moment = s.moment := by
  rw [moment, moment, clock_take, agenda_take, Agenda.now_effects]

/-- Two stations agree on all that is known, shown and asked for. In each place the same was shown
in the same order, but for alerts, where the order may differ. -/
structure Agrees (s t : Station) : Prop where
  desk : s.desk = t.desk
  agenda : s.agenda = t.agenda
  panel : s.panel = t.panel
  clock : s.clock = t.clock
  shown : s.shown.Perm t.shown
  places : ∀ port, port ≠ .alerts → s.shownAt port = t.shownAt port

theorem Agrees.refl (s : Station) : s.Agrees s :=
  ⟨rfl, rfl, rfl, rfl, List.Perm.refl _, fun _ _ => rfl⟩

theorem Agrees.symm {s t : Station} (agrees : s.Agrees t) : t.Agrees s :=
  ⟨agrees.desk.symm, agrees.agenda.symm, agrees.panel.symm, agrees.clock.symm, agrees.shown.symm,
    fun port other => (agrees.places port other).symm⟩

/-- Where one of two lists has nothing to show, it does not matter which is shown first. -/
theorem filter_port_comm {l l' : List Showing} {port : Port} (other : port ≠ .alerts)
    (apart : ∀ w ∈ l, ∀ w' ∈ l', w.Apart w') :
    (l ++ l').filter (fun w => w.port = port) = (l' ++ l).filter fun w => w.port = port := by
  rw [List.filter_append, List.filter_append]
  by_cases some : ∃ w ∈ l, w.port = port
  · obtain ⟨w, member, rfl⟩ := some
    have none : l'.filter (fun w' => w'.port = w.port) = [] := by
      refine List.filter_eq_nil_iff.mpr fun w' member' same => other ?_
      exact (apart w member w' member').alerts_of_port (of_decide_eq_true same).symm
    rw [none, List.append_nil, List.nil_append]
  · have none : l.filter (fun w => w.port = port) = [] := by
      refine List.filter_eq_nil_iff.mpr fun w member same => ?_
      exact some ⟨w, member, of_decide_eq_true same⟩
    rw [none, List.append_nil, List.nil_append]

theorem handle_comm (commutes : s.desk.Commutes s.moment c c') :
    ((s.handle c).handle c').Agrees ((s.handle c').handle c) := by
  have twice (c c' : Completion) : (s.handle c).handle c' =
      (s.take (s.desk.handle s.moment c)).take
        ((s.desk.handle s.moment c).1.handle s.moment c') := by
    rw [handle, handle, desk_take, moment_take]
  rw [twice, twice]
  obtain ⟨agree, first, second, quiet, shows⟩ := commutes
  have apart : ∀ w ∈ (s.desk.handle s.moment c).2.filterMap Effect.shown?,
      ∀ w' ∈ (s.desk.handle s.moment c').2.filterMap Effect.shown?, w.Apart w' := by
    have shown {w : Showing} {l : List Effect} (member : w ∈ l.filterMap Effect.shown?) :
        .show w ∈ l := by
      obtain ⟨e, inside, same⟩ := List.mem_filterMap.mp member
      cases e <;> cases same
      exact inside
    exact fun w member w' member' => shows w (shown member) w' (shown member')
  constructor
  · rw [desk_take, desk_take, agree]
  · simp only [agenda_take, first, second, Agenda.undertake_shown quiet]
  · simp only [panel_take, first, second]
    exact Panel.displayAll_comm apart _
  · simp only [clock_take]
  · simp only [shown_take, first, second, List.append_assoc]
    exact List.perm_append_comm.append_left _
  · intro port other
    have moved := filter_port_comm other apart
    simp only [List.filter_append] at moved
    simp only [shownAt, shown_take, first, second, List.filter_append, List.append_assoc, moved]

/-! ## Expiries that wait -/

/-- What takes an alert away, or will, is about an alert that was raised. -/
def Expects (s : Station) : Prop :=
  ∃ ids, s.agenda.Expires (fun id _ => id < s.desk.alerts.nextId) s.desk.alerts.ttl ids

theorem Expects.known {id : Nat} (expects : s.Expects)
    (waiting : .alertExpired id ∈ s.agenda.arrived) : id < s.desk.alerts.nextId := by
  obtain ⟨ids, expires⟩ := expects
  obtain ⟨-, known, -⟩ := expires.finished id (.inr waiting)
  exact known

theorem Expects.take (expects : s.Expects) (alerted : s.desk.Alerted s.moment outcome) :
    (s.take outcome).Expects := by
  obtain ⟨ids, expires⟩ := expects
  have begins {span id : Nat} (member : .expireAfter span id ∈ outcome.2) :
      .expireAfter span id ∈ outcome.2.filter Effect.isAlert :=
    List.mem_filter.mpr ⟨member, rfl⟩
  rw [Expects, agenda_take, desk_take]
  cases alerted with
  | kept alerts effects =>
      rw [alerts]
      refine ⟨_, expires.effects outcome.2 fun span id member => ?_⟩
      have inside := begins member
      rw [effects] at inside
      cases inside
  | raised kind message alerts effects =>
      rw [alerts]
      have more := expires.mono fun id t (known : id < s.desk.alerts.nextId) =>
        (known.trans (Nat.lt_succ_self _) : id < s.desk.alerts.nextId + 1)
      refine ⟨_, more.effects outcome.2 fun span id member => ?_⟩
      have inside := begins member
      rw [effects] at inside
      rcases List.mem_cons.mp inside with other | timer
      · cases other
      · obtain ⟨rfl, rfl⟩ := Effect.expireAfter.inj (List.mem_singleton.mp timer)
        exact ⟨rfl, Nat.lt_succ_self _⟩

theorem Expects.step (expects : s.Expects) (step : Step .any s m s') : s'.Expects := by
  cases step with
  | operate o => exact expects.take (Desk.alerted_operate _ _ o)
  | @handle c rest head =>
      obtain ⟨ids, expires⟩ := expects
      obtain ⟨left, -, dequeued⟩ := expires.dequeue head
      have expects : { s with agenda := { s.agenda with arrived := rest } }.Expects :=
        ⟨left, dequeued⟩
      cases expired : c.expires? with
      | none => exact expects.take (Desk.alerted_handle _ _ expired)
      | some id =>
          obtain rfl : c = .alertExpired id := by
            cases c <;> cases expired
            rfl
          obtain ⟨ids, expires⟩ := expects
          have quiet : ∀ e ∈ s.desk.farewell id, ∃ w, e = .show w :=
            fun e member => ⟨_, s.desk.mem_farewell member⟩
          rw [Expects, handle, agenda_take, desk_take, Desk.handle_expiry,
            Agenda.undertake_shown quiet]
          exact ⟨ids, expires⟩
  | @work before after job member =>
      obtain ⟨ids, expires⟩ := expects
      have ready : job ∈ s.agenda.ready := by
        rw [member]
        exact List.mem_append_right _ List.mem_cons_self
      obtain ⟨rest, -, left⟩ := expires.taken member
      refine ⟨_, left.runJob ?_ ?_⟩
      · exact fun span id same => expires.begins span id (same ▸ ready)
      · exact fun id same => expires.finished id (.inl (same ▸ ready))
  | wake later =>
      obtain ⟨ids, expires⟩ := expects
      exact ⟨ids, expires.wakeLate later⟩
  | outside change =>
      obtain ⟨ids, expires⟩ := expects
      obtain ⟨engine, latency, script, uptime, rfl⟩ := change
      exact ⟨ids, expires.expiries, expires.begins, expires.waits, expires.finished⟩

/-- Two completions that are apart may be handled in either order, if an expiry is about an alert
that was raised. -/
theorem handle_comm_of_apart (known : ∀ id, c = .alertExpired id → id < s.desk.alerts.nextId)
    (apart : c.Apart c') : ((s.handle c).handle c').Agrees ((s.handle c').handle c) := by
  cases apart with
  | expiry id =>
      by_cases same : c' = .alertExpired id
      · rw [same]
        exact .refl _
      · exact handle_comm (s.desk.commutes_expiry _ (known id rfl) same)
  | fetch result unread still => exact handle_comm (s.desk.commutes_fetch _ result unread still)

end Station

/-! ## Runs -/

section

variable {form : Form} {options : Options} {engine : Engine} {latency : Nat} {clock : String}
  {log : History} {s : Station} {c c' : Completion} {front between back : List Completion}

theorem Run.expects (run : Run .any (.opened form options engine latency clock) log s) :
    s.Expects := by
  induction run with
  | begin => exact ⟨0, rfl, nofun, nofun, by rintro id (member | member) <;> cases member⟩
  | step _ step ih => exact ih.step step

/-- Of two completions that wait in the queue, either may be handled first if one is an expiry, or
if one is a fetch and the other neither a fetch nor the end of a start or stop: the desk comes out
the same, with the numbers of its alerts, and so does the panel, the same requests and timers have
begun, and in each place the same was shown. Only what became of alerts may be shown in another
order. -/
theorem independent_completions_commute
    (run : Run .any (.opened form options engine latency clock) log s)
    (waiting : s.agenda.arrived = front ++ c :: (between ++ c' :: back))
    (apart : c.Apart c' ∨ c'.Apart c) :
    let rest : Station := { s with agenda := { s.agenda with arrived := front ++ between ++ back } }
    let one := (rest.handle c).handle c'
    let other := (rest.handle c').handle c
    one.desk = other.desk ∧ one.agenda = other.agenda ∧ one.panel = other.panel ∧
      one.clock = other.clock ∧ one.shown.Perm other.shown ∧
      ∀ port, port ≠ .alerts → one.shownAt port = other.shownAt port := by
  intro rest one other
  have known {c : Completion} (member : c ∈ s.agenda.arrived) :
      ∀ id, c = .alertExpired id → id < rest.desk.alerts.nextId := by
    rintro id rfl
    exact run.expects.known member
  have agrees : one.Agrees other := by
    rcases apart with apart | apart
    · apply Station.handle_comm_of_apart (known _) apart
      simp [waiting]
    · apply (Station.handle_comm_of_apart (known _) apart).symm
      simp [waiting]
  exact ⟨agrees.desk, agrees.agenda, agrees.panel, agrees.clock, agrees.shown, agrees.places⟩

end

/-- An expiry and a clearing wait. Whether the old alert goes before the new one comes or after it,
the new one is left. -/
theorem expiry_commutes_with_clearing :
    let first : Station := .opened .empty { ttl := 0 } { config := .empty } 0 "12:00:00"
    ∃ log s, Run .any first log s ∧
      s.agenda.arrived = [.alertExpired 0, .statsCleared (.ok ())] ∧
      s.desk.alerts.visible.map (·.id) = [0] ∧
      let rest : Station := { s with agenda := { s.agenda with arrived := [] } }
      let one := (rest.handle (.alertExpired 0)).handle (.statsCleared (.ok ()))
      let other := (rest.handle (.statsCleared (.ok ()))).handle (.alertExpired 0)
      one.panel = other.panel ∧ one.desk = other.desk ∧
        other.desk.alerts.visible.map (·.id) = [1] ∧
        one.agenda.ready = other.agenda.ready ∧
        other.agenda.ready = [.expiry 0 1, .begin .fetchStats none] := by
  intro first
  have opened : Run .any first [] first := .begin
  have failed := opened.step (.operate (.exportConfig false))
  have agreed := failed.step (.operate (.clear true))
  have expired := agreed.step (@Step.work _ _ [] [.begin .clearStats none] (.expiry 0 0) rfl)
  have run := expired.step (@Step.work _ _ [] [] (.begin .clearStats none) rfl)
  obtain ⟨desk, agenda, panel, -⟩ :=
    @independent_completions_commute _ _ _ _ _ _ _ _ _ [] [] [] run rfl (.inl (.expiry 0 _))
  exact ⟨_, _, run, rfl, rfl, panel, desk, rfl, congrArg Agenda.ready agenda, rfl⟩

end EngineConsole
