import EngineConsole.Proofs.Run.Expiries

/-!
# The lifetime of alerts

An alert is visible for as long as alerts are, counted from the moment at which it was raised. Each
has an expiry of its own, which is a piece of work until it is queued as a completion; so alerts
and expiries are paired, and the expiry tells when the alert goes.
-/

set_option autoImplicit false

namespace EngineConsole

/-! ## What has been shown -/

def Showing.raised? : Showing → Option Alert
  | .alert a => some a
  | _ => none

def Showing.gone? : Showing → Option Nat
  | .alertGone id => some id
  | _ => none

namespace Station

/-- All alerts that were raised, in the order in which they were. -/
def raised (s : Station) : List Alert :=
  s.shown.filterMap Showing.raised?

/-- The numbers of the alerts that were taken away, in the order in which they were. -/
def gone (s : Station) : List Nat :=
  s.shown.filterMap Showing.gone?

end Station

/-! ## Which alerts are raised -/

/-- The alert that an operation raises: transfers of files tell how they ended, but an export that
was taken says nothing. -/
def Operation.alert? : Operation → Option AlertKind
  | .exportConfig taken => if taken then none else some .error
  | .importConfig file =>
    match Config.import? file with
    | .ok _ => some .success
    | .error _ => some .error
  | _ => none

/-- The alert that a completion raises. Nothing is said of fetches, nor of what the engine answers
when it is asked, nor of a configuration that was loaded or refused. -/
def Completion.alert? : Completion → Option AlertKind
  | .configLoaded (.ok _) => none
  | .configLoaded (.error (.refused _ _ _)) => none
  | .configLoaded (.error _) => some .error
  | .configSaved _ (.ok _) => some .success
  | .configSaved _ (.error _) => some .error
  | .statsFetched _ => none
  | .statsCleared (.ok _) => some .success
  | .statsCleared (.error _) => some .error
  | .toggleFinished (.ok _) => some .success
  | .toggleFinished (.error _) => some .error
  | .engineStatus (.ok _) => none
  | .engineStatus (.error _) => some .error
  | .alertExpired _ => none

/-! ## What the desk does to its alerts -/

def Effect.shown? : Effect → Option Showing
  | .show s => some s
  | _ => none

def Effect.isAlert : Effect → Bool
  | .show (.alert _) => true
  | .show (.alertGone _) => true
  | .expireAfter _ _ => true
  | _ => false

/-- Effects that are about no alert do not count here. -/
theorem Effect.filterMap_isAlert {β : Type} {f : Effect → Option β}
    (aside : ∀ e, isAlert e = false → f e = none) (l : List Effect) :
    l.filterMap f = (l.filter isAlert).filterMap f := by
  rw [List.filterMap_filter]
  refine List.filterMap_congr fun e _ => ?_
  cases counts : e.isAlert with
  | true => rfl
  | false => exact aside e counts

namespace Desk

variable (desk : Desk) (m : Moment)

/-- An outcome leaves the alerts alone or raises one. -/
inductive Alerted (outcome : Desk × List Effect) : Prop where
  | kept : outcome.1.alerts = desk.alerts → outcome.2.filter Effect.isAlert = [] → Alerted outcome
  | raised (kind : AlertKind) (message : String) :
      outcome.1.alerts = (desk.raise m kind message).1.alerts →
      outcome.2.filter Effect.isAlert = (desk.raise m kind message).2 → Alerted outcome

theorem alerted_raise (kind : AlertKind) (message : String) :
    desk.Alerted m (desk.raise m kind message) :=
  .raised kind message rfl rfl

/-- An outcome raises one alert of a kind, or leaves the alerts alone. -/
inductive Raises (outcome : Desk × List Effect) : Option AlertKind → Prop where
  | kept :
      outcome.1.alerts = desk.alerts → outcome.2.filter Effect.isAlert = [] → Raises outcome none
  | raised (kind : AlertKind) (message : String) :
      outcome.1.alerts = (desk.raise m kind message).1.alerts →
      outcome.2.filter Effect.isAlert = (desk.raise m kind message).2 → Raises outcome (some kind)

theorem raises_operate (o : Operation) : desk.Raises m (desk.operate m o) o.alert? := by
  cases o with
  | toggle =>
      dsimp only [operate, toggle]
      split <;> exact .kept rfl rfl
  | clear agreed => cases agreed <;> exact .kept rfl rfl
  | exportConfig taken =>
      cases taken with
      | true => exact .kept rfl rfl
      | false => exact .raised .error "Failed to export configuration" rfl rfl
  | importConfig file =>
      dsimp only [operate, Operation.alert?]
      cases Config.import? file with
      | ok config => exact .raised .success "Configuration imported successfully" rfl rfl
      | error f => exact .raised .error "Failed to import configuration" rfl rfl
  | startup | load | save | askStatus | startPolling | stopPolling | edit | put =>
      exact .kept rfl rfl

theorem raises_handle {c : Completion} (other : c.expires? = none) :
    desk.Raises m (desk.handle m c) c.alert? := by
  cases c with
  | configLoaded result =>
      cases result with
      | ok config => exact .kept rfl rfl
      | error f =>
          cases f with
          | refused => exact .kept rfl rfl
          | unreachable | undecodable =>
              exact .raised .error "Failed to load configuration" rfl rfl
  | configSaved submitted result =>
      cases result with
      | ok u => exact .raised .success "Configuration saved successfully" rfl rfl
      | error f => exact .raised .error "Failed to save configuration" rfl rfl
  | statsFetched result =>
      cases result with
      | ok counts =>
          refine .kept rfl (List.filter_eq_nil_iff.mpr fun e member => ?_)
          obtain ⟨g, text, rfl⟩ | rfl | ⟨call, rfl⟩ := desk.mem_fetched m member <;> exact nofun
      | error f => exact .kept rfl rfl
  | statsCleared result =>
      cases result with
      | ok u => exact .raised .success "Statistics cleared" rfl rfl
      | error f => exact .raised .error "Failed to clear statistics" rfl rfl
  | toggleFinished result =>
      cases result with
      | ok u => exact .raised .success (toggledMessage desk.state.toggled) rfl rfl
      | error f => exact .raised .error "System control failed" rfl rfl
  | engineStatus result =>
      cases result with
      | ok status => exact .kept rfl rfl
      | error f => exact .raised .error "Failed to query engine status" rfl rfl
  | alertExpired id => cases other

theorem Raises.alerted {desk : Desk} {m : Moment} {outcome : Desk × List Effect}
    {kind? : Option AlertKind} (raises : desk.Raises m outcome kind?) : desk.Alerted m outcome := by
  cases raises with
  | kept alerts effects => exact .kept alerts effects
  | raised kind message alerts effects => exact .raised kind message alerts effects

theorem alerted_operate (o : Operation) : desk.Alerted m (desk.operate m o) :=
  (desk.raises_operate m o).alerted

theorem alerted_handle {c : Completion} (other : c.expires? = none) :
    desk.Alerted m (desk.handle m c) :=
  (desk.raises_handle m other).alerted

end Desk

/-! ## Stations -/

namespace Station

variable {s : Station} {ttl : Nat} {outcome : Desk × List Effect}

theorem shown_take (s : Station) (outcome : Desk × List Effect) :
    (s.take outcome).shown = s.shown ++ outcome.2.filterMap Effect.shown? := by
  have performed (s : Station) (effects : List Effect) :
      (s.perform effects).shown = s.shown ++ effects.filterMap Effect.shown? := by
    induction effects generalizing s with
    | nil => exact (List.append_nil _).symm
    | cons e rest ih =>
        refine (ih (s.performOne e)).trans ?_
        cases e with
        | «show» x => exact List.append_assoc _ _ _
        | send | expireAfter | startPolling | stopPolling => rfl
  exact performed { s with desk := outcome.1 } outcome.2

theorem raised_take (s : Station) (outcome : Desk × List Effect) :
    (s.take outcome).raised = s.raised ++
      (outcome.2.filter Effect.isAlert).filterMap fun e => e.shown?.bind Showing.raised? := by
  have aside : ∀ e, Effect.isAlert e = false → e.shown?.bind Showing.raised? = none := by
    intro e other
    cases e with
    | «show» x => cases x <;> first | rfl | cases other
    | send | expireAfter | startPolling | stopPolling => rfl
  rw [raised, shown_take, List.filterMap_append, List.filterMap_filterMap,
    Effect.filterMap_isAlert aside]
  rfl

theorem gone_take (s : Station) (outcome : Desk × List Effect) :
    (s.take outcome).gone = s.gone ++
      (outcome.2.filter Effect.isAlert).filterMap fun e => e.shown?.bind Showing.gone? := by
  have aside : ∀ e, Effect.isAlert e = false → e.shown?.bind Showing.gone? = none := by
    intro e other
    cases e with
    | «show» x => cases x <;> first | rfl | cases other
    | send | expireAfter | startPolling | stopPolling => rfl
  rw [gone, shown_take, List.filterMap_append, List.filterMap_filterMap,
    Effect.filterMap_isAlert aside]
  rfl

end Station

/-! ## The account of alerts -/

namespace AlertBoard

def RaisedAt (raised : List Alert) (id moment : Nat) : Prop :=
  ∃ a ∈ raised, a.id = id ∧ a.raisedAt = moment

theorem shows_iff (board : AlertBoard) (id : Nat) :
    board.shows id = true ↔ id ∈ board.visible.map (·.id) := by
  simp [shows]

/-- Alerts are numbered in the order in which they are raised. Each is visible until it is taken
away, which is once its time is over; and those that are visible have their expiries. -/
structure InTime (ttl : Nat) (raised : List Alert) (gone : List Nat) (board : AlertBoard)
    (agenda : Agenda) : Prop where
  lasts : board.ttl = ttl
  ids : raised.map (·.id) = List.range board.nextId
  visible : board.visible = raised.filter fun a => a.id ∉ gone
  once : gone.Nodup
  known : ∀ id ∈ gone, id < board.nextId
  stamped : raised.Pairwise fun a b => a.raisedAt ≤ b.raisedAt
  past : ∀ a ∈ raised, a.raisedAt ≤ agenda.now
  finished : ∀ id ∈ gone, ∃ t, RaisedAt raised id t ∧ t + ttl ≤ agenda.now
  expires : agenda.Expires (RaisedAt raised) ttl (board.visible.map (·.id) : List Nat)

namespace InTime

variable {ttl : Nat} {raised : List Alert} {gone : List Nat} {board : AlertBoard} {a b : Agenda}

theorem background (inTime : InTime ttl raised gone board a) (later : a.now ≤ b.now)
    (expires : b.Expires (RaisedAt raised) ttl (board.visible.map (·.id) : List Nat)) :
    InTime ttl raised gone board b := by
  refine { inTime with past := ?_, finished := ?_, expires := expires }
  · exact fun alert member => (inTime.past alert member).trans later
  · intro id member
    obtain ⟨t, raised, due⟩ := inTime.finished id member
    exact ⟨t, raised, due.trans later⟩

theorem add (inTime : InTime ttl raised gone board a) (kind : AlertKind) (message : String)
    (now : b.now = a.now)
    (expires : b.Expires (RaisedAt (raised ++ [board.upcoming a.now kind message])) ttl
      (board.visible.map (·.id) ++ [board.nextId] : List Nat)) :
    InTime ttl (raised ++ [board.upcoming a.now kind message]) gone
      (board.add (board.upcoming a.now kind message)) b := by
  have unknown : board.nextId ∉ gone := fun member => Nat.lt_irrefl _ (inTime.known _ member)
  refine ⟨inTime.lasts, ?_, ?_, inTime.once, ?_, ?_, ?_, ?_, ?_⟩
  · rw [List.map_append, inTime.ids]
    exact List.range_succ.symm
  · have kept : [board.upcoming a.now kind message].filter (fun a => a.id ∉ gone) =
        [board.upcoming a.now kind message] :=
      List.filter_cons_of_pos (decide_eq_true unknown)
    rw [List.filter_append, ← inTime.visible, kept]
    rfl
  · exact fun id member => (inTime.known id member).trans (Nat.lt_succ_self _)
  · refine List.pairwise_append.mpr ⟨inTime.stamped, List.pairwise_singleton _ _, ?_⟩
    intro old member new last
    rw [List.mem_singleton.mp last]
    exact inTime.past old member
  · intro alert member
    rw [now]
    rcases List.mem_append.mp member with old | new
    · exact inTime.past alert old
    · rw [List.mem_singleton.mp new]
      exact Nat.le_refl _
  · intro id member
    obtain ⟨t, ⟨alert, old, same⟩, due⟩ := inTime.finished id member
    exact ⟨t, ⟨alert, List.mem_append_left _ old, same⟩, now ▸ due⟩
  · rw [show (board.add _).visible.map (·.id) = board.visible.map (·.id) ++ [board.nextId] from
      List.map_append]
    exact expires

theorem remove {id : Nat} (inTime : InTime ttl raised gone board a) (shown : board.shows id = true)
    (finished : ∃ t, RaisedAt raised id t ∧ t + ttl ≤ a.now) (now : b.now = a.now)
    (expires : b.Expires (RaisedAt raised) ttl ((board.remove id).visible.map (·.id) : List Nat)) :
    InTime ttl raised (gone ++ [id]) (board.remove id) b := by
  obtain ⟨alert, member, same⟩ := List.any_eq_true.mp shown
  have same : alert.id = id := by simpa using same
  rw [inTime.visible] at member
  obtain ⟨old, fresh⟩ := List.mem_filter.mp member
  have fresh : id ∉ gone := by simpa [same] using fresh
  refine ⟨inTime.lasts, inTime.ids, ?_, ?_, ?_, inTime.stamped, ?_, ?_, expires⟩
  · change board.visible.filter _ = _
    rw [inTime.visible, List.filter_filter]
    refine List.filter_congr fun other _ => ?_
    by_cases taken : other.id = id <;> simp [taken]
  · refine List.nodup_append.mpr ⟨inTime.once, List.nodup_singleton _, ?_⟩
    intro other earlier last same
    rw [List.mem_singleton.mp same]
    rintro rfl
    exact fresh earlier
  · intro other member
    rcases List.mem_append.mp member with earlier | last
    · exact inTime.known other earlier
    · have numbered : alert.id ∈ raised.map (·.id) := List.mem_map_of_mem old
      rw [inTime.ids, List.mem_range, same] at numbered
      rw [List.mem_singleton.mp last]
      exact numbered
  · rw [now]
    exact inTime.past
  · intro other member
    rw [now]
    rcases List.mem_append.mp member with earlier | last
    · exact inTime.finished other earlier
    · rw [List.mem_singleton.mp last]
      exact finished

theorem raised_once (inTime : InTime ttl raised gone board a) : (raised.map (·.id)).Nodup := by
  rw [inTime.ids]
  exact List.nodup_range

theorem visible_once (inTime : InTime ttl raised gone board a) :
    (board.visible.map (·.id)).Nodup := by
  rw [inTime.visible]
  exact List.Nodup.sublist (List.filter_sublist.map _) inTime.raised_once

theorem count_expiries (inTime : InTime ttl raised gone board a) (id : Nat) :
    a.expiries.count id = if board.shows id then 1 else 0 := by
  rw [inTime.expires.expiries, Multiset.coe_count, inTime.visible_once.count]
  exact if_congr (shows_iff board id).symm rfl rfl

theorem count_gone (inTime : InTime ttl raised gone board a) (id : Nat) :
    gone.count id = if id < raised.length ∧ board.shows id = false then 1 else 0 := by
  rw [inTime.once.count]
  refine if_congr ?_ rfl rfl
  have numbered : id ∈ raised.map (·.id) ↔ id < raised.length := by
    have lengths := congrArg List.length inTime.ids
    rw [List.length_map, List.length_range] at lengths
    rw [inTime.ids, List.mem_range, lengths]
  have hidden : board.shows id = false ↔ id ∉ board.visible.map (·.id) := by
    rw [← shows_iff, Bool.not_eq_true]
  rw [← numbered, hidden, inTime.visible]
  constructor
  · intro taken
    refine ⟨?_, fun member => ?_⟩
    · rw [inTime.ids]
      exact List.mem_range.mpr (inTime.known id taken)
    · obtain ⟨alert, inside, rfl⟩ := List.mem_map.mp member
      exact of_decide_eq_true (List.mem_filter.mp inside).2 taken
  · rintro ⟨member, hidden⟩
    obtain ⟨alert, inside, rfl⟩ := List.mem_map.mp member
    refine Decidable.byContradiction fun left => hidden ?_
    exact List.mem_map_of_mem (List.mem_filter.mpr ⟨inside, decide_eq_true left⟩)

/-- Where nothing is left to be run or applied, the alerts that are visible are those whose time is
not over. -/
theorem settled (inTime : InTime ttl raised gone board a) (ahead : a.Ahead) (ready : a.ready = [])
    (arrived : a.arrived = []) :
    board.visible = raised.filter fun alert => a.now < alert.raisedAt + ttl := by
  have raisedOnce {alert : Alert} {t : Nat} (member : alert ∈ raised)
      (at' : RaisedAt raised alert.id t) : alert.raisedAt = t := by
    obtain ⟨other, member', same, rfl⟩ := at'
    rw [List.inj_on_of_nodup_map inTime.raised_once member' member same]
  rw [inTime.visible]
  refine List.filter_congr fun alert member => decide_eq_decide.mpr ⟨fun left => ?_, ?_⟩
  · have visible : alert ∈ board.visible := by
      rw [inTime.visible]
      exact List.mem_filter.mpr ⟨member, decide_eq_true left⟩
    have pending : alert.id ∈ a.expiries := by
      rw [inTime.expires.expiries]
      exact List.mem_map_of_mem visible
    rw [Agenda.expiries, arrived, List.filterMap_nil, Multiset.coe_nil, add_zero] at pending
    obtain ⟨job, found, expired⟩ := (Multiset.mem_filterMap _ _).mp pending
    have found : job ∈ a.jobs := found
    rw [Agenda.mem_jobs, ready] at found
    obtain ⟨moment, sleeping⟩ := found.resolve_left List.not_mem_nil
    obtain ⟨-, t, at', due⟩ := inTime.expires.waits _ sleeping _ expired
    rw [raisedOnce member at', ← due]
    exact ahead.later _ sleeping
  · intro early taken
    obtain ⟨t, at', due⟩ := inTime.finished _ taken
    rw [raisedOnce member at'] at early
    exact Nat.not_lt.mpr due early

end InTime

theorem ids_remove {board : AlertBoard} {id : Nat} (once : (board.visible.map (·.id)).Nodup)
    (member : id ∈ board.visible.map (·.id)) :
    ((board.remove id).visible.map (·.id) : Multiset Nat) + {id} =
      (board.visible.map (·.id) : List Nat) := by
  have erased : (board.remove id).visible.map (·.id) = (board.visible.map (·.id)).erase id := by
    rw [once.erase_eq_filter, List.filter_map]
    rfl
  rw [erased, ← Multiset.coe_erase, add_comm, Multiset.singleton_add]
  exact Multiset.cons_erase member

theorem filter_suffix {l : List Alert} {p : Alert → Bool}
    (later : l.Pairwise fun a b => p a = true → p b = true) : l.filter p <:+ l := by
  induction l with
  | nil => exact List.suffix_refl _
  | cons alert rest ih =>
      obtain ⟨first, later⟩ := List.pairwise_cons.mp later
      cases kept : p alert with
      | true =>
          have all : (alert :: rest).filter p = alert :: rest := by
            refine List.filter_eq_self.mpr fun other member => ?_
            rcases List.mem_cons.mp member with rfl | after
            · exact kept
            · exact first other after kept
          exact ⟨[], all⟩
      | false =>
          rw [List.filter_cons_of_neg (by simp [kept])]
          exact (ih later).trans (List.suffix_cons _ _)

end AlertBoard

/-! ## Runs -/

namespace Station

/-- The account of the alerts of a station. -/
def AlertsInTime (ttl : Nat) (s : Station) : Prop :=
  s.desk.alerts.InTime ttl s.raised s.gone s.agenda

variable {s s' : Station} {ttl : Nat} {outcome : Desk × List Effect}

theorem AlertsInTime.take (inTime : s.AlertsInTime ttl)
    (alerted : s.desk.Alerted s.moment outcome) : (s.take outcome).AlertsInTime ttl := by
  have now : (outcome.2.foldl Agenda.undertake s.agenda).now = s.agenda.now :=
    s.agenda.now_effects _
  have timers : ∀ e, Effect.isAlert e = false → e.expires? = none := by
    intro e other
    cases e with
    | expireAfter => cases other
    | «show» | send | startPolling | stopPolling => rfl
  have begins {span id : Nat} (member : .expireAfter span id ∈ outcome.2) :
      .expireAfter span id ∈ outcome.2.filter Effect.isAlert :=
    List.mem_filter.mpr ⟨member, rfl⟩
  unfold AlertsInTime
  rw [raised_take, gone_take, desk_take, agenda_take]
  cases alerted with
  | kept alerts effects =>
      have expires := inTime.expires.effects outcome.2 fun span id member => by
        have inside := begins member
        rw [effects] at inside
        cases inside
      rw [Effect.filterMap_isAlert timers, effects] at expires
      rw [effects, alerts, List.filterMap_nil, List.filterMap_nil, List.append_nil, List.append_nil]
      refine inTime.background now.ge ?_
      rw [List.filterMap_nil, Multiset.coe_nil, add_zero] at expires
      exact expires
  | raised kind message alerts effects =>
      let alert := s.desk.alerts.upcoming s.agenda.now kind message
      have more : ∀ id t, AlertBoard.RaisedAt s.raised id t →
          AlertBoard.RaisedAt (s.raised ++ [alert]) id t := by
        rintro id t ⟨old, member, same⟩
        exact ⟨old, List.mem_append_left _ member, same⟩
      have expires := (inTime.expires.mono more).effects outcome.2
        fun span id member => by
          have inside := begins member
          rw [effects] at inside
          rcases List.mem_cons.mp inside with other | timer
          · cases other
          · obtain ⟨rfl, rfl⟩ := Effect.expireAfter.inj (List.mem_singleton.mp timer)
            exact ⟨inTime.lasts, alert, List.mem_append_right _ List.mem_cons_self, rfl, rfl⟩
      rw [Effect.filterMap_isAlert timers, effects, Multiset.coe_add] at expires
      rw [effects, alerts]
      have added := AlertBoard.InTime.add inTime kind message now expires
      rw [← List.append_nil s.gone] at added
      exact added

/-- An expiry that is applied takes away an alert that is visible. -/
theorem AlertsInTime.expire {id : Nat} {rest : List Completion} (inTime : s.AlertsInTime ttl)
    (head : s.agenda.arrived = .alertExpired id :: rest) :
    (Station.handle { s with agenda := { s.agenda with arrived := rest } }
      (.alertExpired id)).AlertsInTime ttl := by
  obtain ⟨left, whole, expires⟩ := inTime.expires.dequeue head
  have whole : (s.desk.alerts.visible.map (·.id) : Multiset Nat) = left + {id} := whole
  have member : id ∈ s.desk.alerts.visible.map (·.id) := by
    refine Multiset.mem_coe.mp ?_
    rw [whole]
    exact Multiset.mem_add.mpr (.inr (Multiset.mem_singleton_self id))
  have shown := (s.desk.alerts.shows_iff id).mpr member
  have others : left = ((s.desk.alerts.remove id).visible.map (·.id) : List Nat) := by
    refine add_right_cancel (whole.symm.trans ?_ : left + {id} = _ + {id})
    exact (AlertBoard.ids_remove (AlertBoard.InTime.visible_once inTime) member).symm
  have effect : s.desk.expire id =
      ({ s.desk with alerts := s.desk.alerts.remove id }, [.show (.alertGone id)]) := if_pos shown
  have outcome : Station.handle { s with agenda := { s.agenda with arrived := rest } }
      (.alertExpired id) = Station.take { s with agenda := { s.agenda with arrived := rest } }
        ({ s.desk with alerts := s.desk.alerts.remove id }, [.show (.alertGone id)]) :=
    congrArg (Station.take _) effect
  rw [outcome, AlertsInTime, raised_take, gone_take, desk_take, agenda_take]
  have due := inTime.expires.finished id (.inr (head ▸ List.mem_cons_self))
  have removed := AlertBoard.InTime.remove inTime shown due
    (b := { s.agenda with arrived := rest }) rfl (others ▸ expires)
  rw [← List.append_nil s.raised] at removed
  exact removed

theorem AlertsInTime.handle {c : Completion} {rest : List Completion} (inTime : s.AlertsInTime ttl)
    (head : s.agenda.arrived = c :: rest) :
    (Station.handle { s with agenda := { s.agenda with arrived := rest } } c).AlertsInTime ttl := by
  by_cases other : c.expires? = none
  · obtain ⟨left, whole, expires⟩ := inTime.expires.dequeue head
    have taken : { s with agenda := { s.agenda with arrived := rest } }.AlertsInTime ttl := by
      refine AlertBoard.InTime.background inTime (Nat.le_refl _) ?_
      rw [whole, other]
      exact (add_zero left).symm ▸ expires
    exact taken.take (Desk.alerted_handle _ _ other)
  · cases c with
    | alertExpired id => exact inTime.expire head
    | configLoaded | configSaved | statsFetched | statsCleared | toggleFinished | engineStatus =>
        exact absurd rfl other

theorem AlertsInTime.work {before after : List Job} {job : Job} (inTime : s.AlertsInTime ttl)
    (member : s.agenda.ready = before ++ job :: after) :
    { s with agenda := Agenda.runJob { s.agenda with ready := before ++ after } job }.AlertsInTime
      ttl := by
  have ready : job ∈ s.agenda.ready := by
    rw [member]
    exact List.mem_append_right _ List.mem_cons_self
  obtain ⟨rest, whole, left⟩ := inTime.expires.taken member
  have now := Agenda.now_runJob { s.agenda with ready := before ++ after } job
  refine inTime.background now.ge ?_
  rw [whole]
  exact left.runJob (fun span id same => inTime.expires.begins span id (same ▸ ready))
    fun id same => inTime.expires.finished id (.inl (same ▸ ready))

theorem AlertsInTime.step {m : Move} (inTime : s.AlertsInTime ttl) (step : Step .any s m s')
    (timely : (Deed.mk s m).Timely) : s'.AlertsInTime ttl := by
  cases step with
  | operate o => exact inTime.take (Desk.alerted_operate _ _ o)
  | handle head => exact inTime.handle head
  | work member => exact inTime.work member
  | wake later =>
      exact inTime.background later (inTime.expires.wakeAt later timely.1 timely.2)
  | outside change =>
      obtain ⟨engine, latency, script, uptime, rfl⟩ := change
      have expires := inTime.expires
      exact inTime.background (Nat.le_refl _)
        ⟨expires.expiries, expires.begins, expires.waits, expires.finished⟩

end Station

/-! ## Raising -/

section

variable {s s' : Station}

theorem Station.raised_expire (s : Station) (id : Nat) :
    (s.take (s.desk.expire id)).raised = s.raised := by
  rw [Station.raised_take, Desk.expire]
  split <;> exact List.append_nil _

/-- An alert bears the moment of the step that raises it. -/
theorem Step.raised {m : Move} (step : Step .any s m s') :
    ∃ new, s'.raised = s.raised ++ new ∧ ∀ alert ∈ new, alert.raisedAt = s.agenda.now := by
  have taken {t : Station} {outcome : Desk × List Effect}
      (alerted : t.desk.Alerted t.moment outcome) :
      ∃ new, (t.take outcome).raised = t.raised ++ new ∧
        ∀ alert ∈ new, alert.raisedAt = t.agenda.now := by
    refine ⟨_, t.raised_take outcome, ?_⟩
    cases alerted with
    | kept alerts effects =>
        rw [effects]
        exact nofun
    | raised kind message alerts effects =>
        rw [effects]
        intro alert member
        rw [List.mem_singleton.mp member]
        rfl
  cases step with
  | operate o => exact taken (Desk.alerted_operate _ _ o)
  | @handle c rest head =>
      by_cases other : c.expires? = none
      · exact taken (t := { s with agenda := { s.agenda with arrived := rest } })
          (Desk.alerted_handle _ _ other)
      · cases c with
        | alertExpired id =>
            refine ⟨[], ?_, nofun⟩
            refine (Station.raised_expire { s with agenda := { s.agenda with arrived := rest } }
              id).trans (List.append_nil _).symm
        | configLoaded | configSaved | statsFetched | statsCleared | toggleFinished
        | engineStatus => exact absurd rfl other
  | work | wake | outside => exact ⟨[], (List.append_nil _).symm, nofun⟩

end

/-! ## Runs -/

/-- A run in virtual time, in which whoever owns the alerts may also raise some directly. -/
inductive AlertRun (first : Station) : Station → Prop where
  | begin : AlertRun first first
  | step {s s' : Station} {m : Move} :
      AlertRun first s → Step .any s m s' → (Deed.mk s m).Timely → AlertRun first s'
  | raise {s : Station} (kind : AlertKind) (message : String) :
      AlertRun first s → AlertRun first (s.take (s.desk.raise s.moment kind message))

section

variable {form : Form} {options : Options} {engine : Engine} {latency : Nat} {clock : String}
  {s : Station}

theorem AlertRun.ahead (run : AlertRun (.opened form options engine latency clock) s) :
    s.agenda.Ahead := by
  induction run with
  | begin => exact Station.ahead_opened form options engine latency clock
  | step _ step _ ih => exact step.ahead ih
  | raise kind message _ ih =>
      rw [Station.agenda_take]
      exact ih.effects _

theorem AlertRun.alertsInTime (run : AlertRun (.opened form options engine latency clock) s) :
    s.AlertsInTime options.ttl := by
  induction run with
  | begin =>
      refine ⟨rfl, rfl, rfl, .nil, nofun, .nil, nofun, nofun, ⟨rfl, nofun, nofun, ?_⟩⟩
      rintro id (ready | arrived) <;> contradiction
  | step _ step timely ih => exact ih.step step timely
  | raise kind message _ ih => exact ih.take (Desk.alerted_raise _ _ kind message)

/-- Where nothing is left to be run or applied, the visible alerts are those that were raised less
than their time ago, and so the last of all that were raised. Alerts are numbered as they are
raised, whatever their messages; each has one expiry as long as it is visible, and is taken away
once. An expiry of any other number does nothing. -/
theorem alerts_are_visible_until_over
    (run : AlertRun (.opened form options engine latency clock) s) :
    (s.agenda.ready = [] → s.agenda.arrived = [] →
      s.desk.alerts.visible =
        s.raised.filter (fun alert => s.agenda.now < alert.raisedAt + options.ttl) ∧
      s.desk.alerts.visible <:+ s.raised) ∧
    s.raised.map (·.id) = List.range s.raised.length ∧
    (∀ id, s.agenda.expiries.count id = (if s.desk.alerts.shows id then 1 else 0) ∧
      s.gone.count id = if id < s.raised.length ∧ s.desk.alerts.shows id = false then 1 else 0) ∧
    (∀ kind message,
      let alert : Alert := ⟨s.raised.length, kind, message, s.agenda.now⟩
      let after := s.take (s.desk.raise s.moment kind message)
      after.raised = s.raised ++ [alert] ∧
        after.desk.alerts.visible = s.desk.alerts.visible ++ [alert]) ∧
    (∀ m s', Step .any s m s' →
      ∃ new, s'.raised = s.raised ++ new ∧ ∀ alert ∈ new, alert.raisedAt = s.agenda.now) ∧
    (∀ id, s.desk.alerts.shows id = false →
      s.desk.expire id = (s.desk, []) ∧ s.take (s.desk.expire id) = s) := by
  have inTime := run.alertsInTime
  have count : s.raised.length = s.desk.alerts.nextId := by
    have lengths := congrArg List.length inTime.ids
    rwa [List.length_map, List.length_range] at lengths
  refine ⟨?_, ?_, ?_, ?_, fun m s' step => step.raised, ?_⟩
  · intro ready arrived
    have visible := inTime.settled run.ahead ready arrived
    refine ⟨visible, ?_⟩
    rw [visible]
    refine AlertBoard.filter_suffix (inTime.stamped.imp fun {a b} earlier left => ?_)
    have left := of_decide_eq_true left
    exact decide_eq_true (left.trans_le (Nat.add_le_add_right earlier _))
  · rw [count]
    exact inTime.ids
  · exact fun id =>
      ⟨AlertBoard.InTime.count_expiries inTime id, AlertBoard.InTime.count_gone inTime id⟩
  · intro kind message
    dsimp only
    rw [Station.raised_take, Station.desk_take, count]
    exact ⟨rfl, rfl⟩
  · intro id hidden
    have same : s.desk.expire id = (s.desk, []) := if_neg (by simp [hidden])
    exact ⟨same, by rw [same]; rfl⟩

end

/-- One of two alerts that say the same is over when the other is not. -/
theorem second_alert_outlives_first :
    let first : Station := .opened .empty { ttl := 2 } { config := .empty } 0 "12:00:00"
    ∃ s, AlertRun first s ∧ s.agenda.now = 2 ∧
      s.desk.alerts.visible = [⟨1, .success, "done", 1⟩] := by
  intro first
  obtain ⟨s, run, now, ready, arrived, raised⟩ : ∃ s, AlertRun first s ∧ s.agenda.now = 2 ∧
      s.agenda.ready = [] ∧ s.agenda.arrived = [] ∧
      s.raised = [⟨0, .success, "done", 0⟩, ⟨1, .success, "done", 1⟩] := by
    have opened : AlertRun first first := .begin
    have raised := opened.raise .success "done"
    have begun := raised.step (@Step.work _ _ [] [] (.expiry 2 0) rfl) trivial
    have later := begun.step (@Step.wake _ _ 1 (Nat.zero_le 1)) ⟨rfl, by decide⟩
    have again := later.raise .success "done"
    have both := again.step (@Step.work _ _ [] [] (.expiry 2 1) rfl) trivial
    have finished := both.step (@Step.wake _ _ 2 (Nat.le_succ 1)) ⟨rfl, by decide⟩
    have queued := finished.step (@Step.work _ _ [] [] (.expired 0) rfl) trivial
    have run := queued.step (@Step.handle _ _ (.alertExpired 0) [] rfl) trivial
    exact ⟨_, run, rfl, rfl, rfl, rfl⟩
  have visible := ((alerts_are_visible_until_over run).1 ready arrived).1
  rw [raised, now] at visible
  exact ⟨s, run, now, visible.trans (by decide)⟩

end EngineConsole
