import EngineConsole.Proofs.Run.Requests

/-!
# What operations and completions do to a desk

One law for each part of the desk, and one for the requests that are sent: what an operation makes
of it and what a completion makes of it.
-/

set_option autoImplicit false

namespace EngineConsole

/-! ## Operations -/

/-- Where a configuration that was taken over came from. -/
inductive Source where
  | loaded
  | saved
  | imported
  deriving DecidableEq

namespace Operation

def isToggle : Operation → Bool
  | .toggle => true
  | _ => false

def brings? : Operation → Option (Source × Config)
  | .importConfig file => (Config.import? file).toOption.map (.imported, ·)
  | _ => none

def reform (form : Form) : Operation → Form
  | .importConfig file => ((Config.import? file).toOption.map form.fill).getD form
  | .edit key raw => (form.edit key raw).toOption.getD form
  | .put key value => form.put key value
  | _ => form

def requests (desk : Desk) : Operation → List Request
  | .startup => [.loadConfig, .fetchStats]
  | .load => [.loadConfig]
  | .save => [.saveConfig desk.form.values]
  | .toggle => if desk.pending then [] else [Desk.requestFor desk.state.toggled]
  | .clear agreed => if agreed then [.clearStats] else []
  | .askStatus => [.askStatus]
  | _ => []

end Operation

namespace Desk

variable (desk : Desk) (m : Moment)

private theorem operate_parts (o : Operation) :
    (desk.operate m o).1.state = desk.state ∧
      (desk.operate m o).1.pending = (o.isToggle || desk.pending) ∧
      (desk.operate m o).1.config = (o.brings?.map (·.2)).getD desk.config ∧
      (desk.operate m o).1.form = o.reform desk.form ∧
      Effect.requests (desk.operate m o).2 = o.requests desk := by
  cases o with
  | toggle =>
      dsimp only [operate, toggle, Operation.requests]
      split
      next busy => exact ⟨rfl, busy, rfl, rfl, rfl⟩
      next => exact ⟨rfl, rfl, rfl, rfl, rfl⟩
  | clear agreed => cases agreed <;> exact ⟨rfl, rfl, rfl, rfl, rfl⟩
  | exportConfig taken => cases taken <;> exact ⟨rfl, rfl, rfl, rfl, rfl⟩
  | importConfig file =>
      dsimp only [operate, Operation.brings?, Operation.reform]
      cases Config.import? file <;> exact ⟨rfl, rfl, rfl, rfl, rfl⟩
  | startup | load | save | askStatus | startPolling | stopPolling | edit | put =>
      exact ⟨rfl, rfl, rfl, rfl, rfl⟩

theorem state_operate (o : Operation) : (desk.operate m o).1.state = desk.state :=
  (operate_parts desk m o).1

theorem pending_operate (o : Operation) :
    (desk.operate m o).1.pending = (o.isToggle || desk.pending) :=
  (operate_parts desk m o).2.1

theorem config_operate (o : Operation) :
    (desk.operate m o).1.config = (o.brings?.map (·.2)).getD desk.config :=
  (operate_parts desk m o).2.2.1

theorem form_operate (o : Operation) : (desk.operate m o).1.form = o.reform desk.form :=
  (operate_parts desk m o).2.2.2.1

theorem requests_operate (o : Operation) :
    Effect.requests (desk.operate m o).2 = o.requests desk :=
  (operate_parts desk m o).2.2.2.2

end Desk

/-! ## Completions -/

namespace Completion

def ends? : Completion → Option (Except Failure Unit)
  | .toggleFinished result => some result
  | _ => none

def brings? : Completion → Option (Source × Config)
  | .configLoaded (.ok config) => some (.loaded, config)
  | .configSaved submitted (.ok _) => some (.saved, submitted)
  | _ => none

def reform (form : Form) : Completion → Form
  | .configLoaded (.ok config) => form.fill config
  | _ => form

def requests : Completion → List Request
  | .statsCleared (.ok _) => [.fetchStats]
  | _ => []

end Completion

namespace Desk

variable (desk : Desk) (m : Moment)

/-- Of counters that were fetched nothing comes but that they are shown. -/
theorem mem_fetched {state : RunState} {result : Except Failure Counts} {e : Effect}
    (member : e ∈ (desk.fetched m state result).2) :
    (∃ g text, e = .show (.gauge g text)) ∨ e = .show (.state state) ∨
      ∃ call, e = .show (.chart call) := by
  cases result with
  | ok counts =>
      dsimp only [fetched] at member
      rcases List.mem_append.mp member with gauge | other
      · obtain ⟨g, -, rfl⟩ := List.mem_map.mp gauge
        exact .inl ⟨g, _, rfl⟩
      · rcases List.mem_cons.mp other with rfl | drawn
        · exact .inr (.inl rfl)
        · obtain ⟨call, -, rfl⟩ := List.mem_map.mp drawn
          exact .inr (.inr ⟨call, rfl⟩)
  | error f => cases member

private theorem handle_parts (c : Completion) :
    (desk.handle m c).1.state = (match c.ends? with
      | some (.ok _) => desk.state.toggled
      | _ => desk.state) ∧
      (desk.handle m c).1.pending = (c.ends?.isNone && desk.pending) ∧
      (desk.handle m c).1.config = (c.brings?.map (·.2)).getD desk.config ∧
      (desk.handle m c).1.form = c.reform desk.form ∧
      Effect.requests (desk.handle m c).2 = c.requests := by
  cases c with
  | configLoaded result =>
      cases result with
      | ok config => exact ⟨rfl, rfl, rfl, rfl, rfl⟩
      | error f => cases f <;> exact ⟨rfl, rfl, rfl, rfl, rfl⟩
  | statsFetched result =>
      cases result with
      | ok counts =>
          refine ⟨rfl, rfl, rfl, rfl, List.filterMap_eq_nil_iff.mpr fun e member => ?_⟩
          obtain ⟨g, text, rfl⟩ | rfl | ⟨call, rfl⟩ := desk.mem_fetched m member <;> rfl
      | error f => exact ⟨rfl, rfl, rfl, rfl, rfl⟩
  | configSaved _ result | statsCleared result | toggleFinished result | engineStatus result =>
      cases result <;> exact ⟨rfl, rfl, rfl, rfl, rfl⟩
  | alertExpired id =>
      dsimp only [handle, expire]
      split <;> exact ⟨rfl, rfl, rfl, rfl, rfl⟩

theorem state_handle (c : Completion) :
    (desk.handle m c).1.state = match c.ends? with
      | some (.ok _) => desk.state.toggled
      | _ => desk.state :=
  (handle_parts desk m c).1

theorem pending_handle (c : Completion) :
    (desk.handle m c).1.pending = (c.ends?.isNone && desk.pending) :=
  (handle_parts desk m c).2.1

theorem config_handle (c : Completion) :
    (desk.handle m c).1.config = (c.brings?.map (·.2)).getD desk.config :=
  (handle_parts desk m c).2.2.1

theorem form_handle (c : Completion) : (desk.handle m c).1.form = c.reform desk.form :=
  (handle_parts desk m c).2.2.2.1

theorem requests_handle (c : Completion) : Effect.requests (desk.handle m c).2 = c.requests :=
  (handle_parts desk m c).2.2.2.2

end Desk

/-! ## The requests of a step -/

theorem Deed.issued_operate (s : Station) (o : Operation) :
    (Deed.mk s (.operate o)).issued = o.requests s.desk :=
  s.desk.requests_operate s.moment o

theorem Deed.issued_handle (s : Station) (c : Completion) :
    (Deed.mk s (.handle c)).issued = c.requests :=
  s.desk.requests_handle s.moment c

theorem Deed.issued_work {s : Station} {job : Job} {r : Request}
    (member : r ∈ (Deed.mk s (.work job)).issued) : r = .fetchStats :=
  List.eq_of_mem_replicate member

/-! ## What an engine answers -/

/-- An engine has the configuration that it handed out or took over with its last such answer. -/
theorem Engine.config_serve (e : Engine) (uptime : String) (r : Request) :
    (e.serve uptime r).1.config = ((e.serve uptime r).2.brings?.map (·.2)).getD e.config := by
  unfold Engine.serve
  split
  next => cases r <;> rfl
  next =>
    cases r with
    | start =>
        dsimp only [Engine.start]
        split
        · rfl
        · split <;> rfl
    | stop =>
        dsimp only [Engine.stop]
        split <;> rfl
    | loadConfig | saveConfig | fetchStats | clearStats | askStatus => rfl

end EngineConsole
