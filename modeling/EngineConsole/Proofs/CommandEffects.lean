import EngineConsole.Console.Workplace
import EngineConsole.Proofs.AlertLifetime
import EngineConsole.Proofs.FormHistory
import EngineConsole.Proofs.PollCadence
import EngineConsole.Proofs.Readings

/-!
# What commands do

A command comes to one operation of the desk at most, once it has what it asked for: an answer, a
file or a place for one. The operation is done by the time the command is over, and what it started
comes later; so a command does no more than what it is for, whatever goes on in the background.
-/

set_option autoImplicit false

namespace EngineConsole

/-- Whether there is to be polling from a command on. -/
def Command.polls? : Command → Option Bool
  | .poll on => some on
  | _ => none

/-! ## Waiting -/

/-- It happens while nobody looks after the desk. -/
def Move.isBackground : Move → Bool
  | .operate _ => false
  | .handle _ => false
  | .work _ => true
  | .wake _ => true
  | .outside => true

/-- What happens at a station while a command waits. -/
inductive Station.Waits (s : Station) : History → Station → Prop where
  | wait {log : History} {t : Station} :
      Run .any s log t → (∀ d ∈ log, d.move.isBackground = true) → Waits s log t

namespace Station.Waits

variable {s t : Station} {log : History}

theorem none (s : Station) : s.Waits [] s := by
  refine .wait .begin ?_
  intro d member
  cases member

theorem eq_of_nil (waits : s.Waits [] t) : t = s := by
  obtain ⟨run, -⟩ := waits
  generalize nothing : ([] : History) = log at run
  cases run with
  | begin => rfl
  | step => simp at nothing

/-- What no step in the background changes is as it was. -/
theorem keeps {β : Type} (waits : s.Waits log t) (read : Station → β)
    (same : ∀ {s s' : Station} {m : Move}, Step .any s m s' → m.isBackground = true →
      read s' = read s) : read t = read s := by
  obtain ⟨run, background⟩ := waits
  induction run with
  | begin => rfl
  | @step log s s' m run step ih =>
      have last := background ⟨s, m⟩ (List.mem_append_right _ List.mem_cons_self)
      apply (same step last).trans
      exact ih fun d member => background d (List.mem_append_left _ member)

theorem desk (waits : s.Waits log t) : t.desk = s.desk := by
  apply waits.keeps Station.desk
  intro s s' m step background
  rw [step.desk_eq]
  cases m with
  | operate | handle => cases background
  | work | wake | outside => rfl

theorem timer (waits : s.Waits log t) : t.agenda.timer = s.agenda.timer := by
  apply waits.keeps fun s => s.agenda.timer
  intro s s' m step background
  apply step.timer
  cases m with
  | operate | handle => cases background
  | work | wake | outside => rfl

end Station.Waits

namespace Workplace

def desk (w : Workplace) : Desk :=
  w.session.station.desk

/-- What is answered to a question. Neither the end of the input nor a line that is no text is an
answer. -/
def answer? (w : Workplace) : Option String :=
  (splitLine w.input).bind fun line => Text.decode? line.1

/-- The input once a line of it has been read, if there is one left. -/
def inputAfterLine (w : Workplace) : List UInt8 :=
  ((splitLine w.input).map Prod.snd).getD w.input

/-- The place of an exported configuration, and the disk with it. -/
def exporting (w : Workplace) : Disk × Option String :=
  w.disk.offer w.exports Desk.exportName w.desk.config.document

/-! ## Carrying out -/

/-- A command is carried out. While it waits for a line or a file, the background goes on. -/
inductive Carries (w : Workplace) (c : Command) : History → Workplace → Prop where
  | atOnce {session : Session} :
      w.session.carryOut c = (session, none) → Carries w c [] { w with session }
  | later {session : Session} {errand : Errand} {log : History} {station : Station} :
      w.session.carryOut c = (session, some errand) → session.station.Waits log station →
      Carries w c log (run { w with session := { session with station } } errand)

/-- The operation that a command comes to. -/
def operation? (w : Workplace) : Command → Option Operation
  | .toggle => some .toggle
  | .start => if w.desk.state = .running then none else some .toggle
  | .stop => if w.desk.state = .stopped then none else some .toggle
  | .set key value => some (.edit key value)
  | .load => some .load
  | .save => some .save
  | .exportConfig => some (.exportConfig w.exporting.2.isSome)
  | .importConfig path => some (.importConfig (w.disk.read? path))
  | .clear => some (.clear (w.answer?.any Command.isYes))
  | .status => some .askStatus
  | .poll on => some (if on then .startPolling else .stopPolling)
  | .help => none
  | .stats => none
  | .chart => none
  | .config => none
  | .alerts => none
  | .quit => none

end Workplace

/-- A station once an operation is done, if there is one to do. -/
def Station.doing (s : Station) : Option Operation → Station
  | none => s
  | some o => s.take (s.desk.operate s.moment o)

namespace Session

variable (s : Session)

theorem station_press : s.press.station = s.station.doing (some .toggle) := by
  unfold press
  split
  next => rfl
  next busy =>
    have pending : s.station.desk.pending = true := by simpa [Desk.heedsToggle] using busy
    have nothing : s.station.desk.toggle = (s.station.desk, []) := if_pos pending
    dsimp only [Station.doing, Desk.operate]
    rw [nothing]
    rfl

theorem station_bring (wanted : RunState) : (s.bring wanted).station =
    s.station.doing (if s.station.desk.state = wanted then none else some .toggle) := by
  unfold bring
  split
  next => rfl
  next => exact s.station_press

theorem station_edit (key raw : String) :
    (s.edit key raw).station = s.station.doing (some (.edit key raw)) := by
  unfold edit
  cases typed : s.station.desk.form.edit key raw with
  | ok form =>
      dsimp only [Station.doing, Desk.operate]
      rw [typed]
      rfl
  | error e =>
      dsimp only [Station.doing, Desk.operate]
      rw [typed]
      rfl

theorem station_exported (place : Option String) :
    (s.exported place).station = s.station.doing (some (.exportConfig place.isSome)) := by
  cases place with
  | none => rfl
  | some path => rfl

end Session

namespace Workplace

variable {w w' : Workplace} {c : Command} {log : History}

theorem carryOut_station (w : Workplace) (c : Command) (atOnce : (w.session.carryOut c).2 = none) :
    (w.session.carryOut c).1.station = w.session.station.doing (w.operation? c) := by
  cases c with
  | toggle => exact w.session.station_press
  | start => exact w.session.station_bring .running
  | stop => exact w.session.station_bring .stopped
  | set key value => exact w.session.station_edit key value
  | exportConfig | importConfig | clear => cases atOnce
  | poll on => cases on <;> rfl
  | load | save | status | help | stats | chart | config | alerts | quit => rfl

theorem run_ask (w : Workplace) : w.run .ask =
    { w with session := w.session.answered w.answer?, input := w.inputAfterLine } := by
  unfold run answer? inputAfterLine readLine
  cases splitLine w.input <;> rfl

/-- A command does its operation when the wait is over. Besides, it reads the line that it asks for
and writes what it exports. -/
theorem Carries.outcome (carries : w.Carries c log w') : ∃ t,
    w.session.station.Waits log t ∧ w'.session.station = t.doing (w.operation? c) ∧
      w'.input = (if c = .clear then w.inputAfterLine else w.input) ∧
      w'.disk = if c = .exportConfig then w.exporting.1 else w.disk := by
  cases carries with
  | @atOnce session done =>
      have station : (w.session.carryOut c).1.station = session.station := by rw [done]
      have finished : (w.session.carryOut c).2 = none := congrArg Prod.snd done
      refine ⟨w.session.station, .none _, station.symm.trans (w.carryOut_station c finished), ?_⟩
      cases c with
      | exportConfig | clear => cases finished
      | _ => exact ⟨rfl, rfl⟩
  | @later session errand _ t asked waits =>
      cases c with
      | exportConfig =>
          cases asked
          exact ⟨t, waits, Session.station_exported _ _, rfl, rfl⟩
      | importConfig path =>
          cases asked
          exact ⟨t, waits, rfl, rfl, rfl⟩
      | clear =>
          cases asked
          rw [run_ask]
          exact ⟨t, waits, rfl, rfl, rfl⟩
      | poll on => cases on <;> cases asked
      | toggle | start | stop | set | load | save | status | help | stats | chart | config | alerts
      | quit => cases asked

/-! ## What a command asks and what it leaves -/

/-- The request that a command issues. -/
inductive Asks (w : Workplace) : Command → Request → Prop where
  | start {c : Command} : c = .start ∨ c = .toggle → w.desk.state = .stopped →
      w.desk.pending = false → Asks w c .start
  | stop {c : Command} : c = .stop ∨ c = .toggle → w.desk.state = .running →
      w.desk.pending = false → Asks w c .stop
  | load : Asks w .load .loadConfig
  | save : Asks w .save (.saveConfig w.desk.form.values)
  | clear {answer : String} : w.answer? = some answer → Command.isYes answer = true →
      Asks w .clear .clearStats
  | status : Asks w .status .askStatus

/-- The configuration that a command brings in. -/
def imported? (w : Workplace) : Command → Option Config
  | .importConfig path => (Config.import? (w.disk.read? path)).toOption
  | _ => none

/-- The alert with which a command tells how a file was transferred. -/
def tells? (w : Workplace) : Command → Option AlertKind
  | .importConfig path =>
    some (if (Config.import? (w.disk.read? path)).isOk then .success else .error)
  | .exportConfig => if w.exporting.2.isSome then none else some .error
  | _ => none

/-- What there is once a command has been carried out. -/
structure Leaves (w : Workplace) (c : Command) (w' : Workplace) : Prop where
  state : w'.desk.state = w.desk.state
  counts : w'.desk.counts = w.desk.counts
  chart : w'.desk.chart = w.desk.chart
  config : w'.desk.config = (w.imported? c).getD w.desk.config
  alerts : ∃ raised : List Alert, w'.desk.alerts.visible = w.desk.alerts.visible ++ raised ∧
    raised.map Alert.kind = (w.tells? c).toList
  pending : w'.desk.pending = true ↔
    w.desk.pending = true ∨ w.Asks c .start ∨ w.Asks c .stop
  formFilled : ∀ config, w.imported? c = some config → w'.desk.form = w.desk.form.fill config
  formTyped : ∀ key raw, c = .set key raw →
    w'.desk.form = (w.desk.form.edit key raw).toOption.getD w.desk.form ∧
      ∀ other, other ≠ key → w'.desk.form.get? other = w.desk.form.get? other
  formKept : w.imported? c = none → (∀ key raw, c ≠ .set key raw) → w'.desk.form = w.desk.form
  polling : w'.session.station.agenda.isPolling =
    c.polls?.getD w.session.station.agenda.isPolling
  input : w'.input = if c = .clear then w.inputAfterLine else w.input
  disk : w'.disk = if c = .exportConfig then w.exporting.1 else w.disk

/-- The requests of the operation that a command comes to. -/
def issues (w : Workplace) (c : Command) : List Request :=
  (w.operation? c).elim [] fun o => o.requests w.desk

theorem length_issues_le (w : Workplace) (c : Command) : (w.issues c).length ≤ 1 := by
  have toggling : (Operation.toggle.requests w.desk).length ≤ 1 := by
    dsimp only [Operation.requests]
    split
    · exact Nat.zero_le 1
    · exact Nat.le_refl 1
  unfold issues
  cases c with
  | toggle => exact toggling
  | start | stop =>
      dsimp only [operation?]
      split
      · exact Nat.zero_le 1
      · exact toggling
  | clear =>
      dsimp only [operation?, Option.elim, Operation.requests]
      split <;> decide
  | poll on => cases on <;> exact Nat.zero_le 1
  | load | save | status => exact Nat.le_refl 1
  | help | stats | chart | config | set | exportConfig | importConfig | alerts | quit =>
      exact Nat.zero_le 1

theorem Asks.unique {r r' : Request} (asks : w.Asks c r) (asks' : w.Asks c r') : r = r' := by
  cases asks with
  | start kind state =>
      cases asks' with
      | start => rfl
      | stop _ state' => cases state.symm.trans state'
      | load | save | clear | status => simp at kind
  | stop kind state =>
      cases asks' with
      | start _ state' => cases state.symm.trans state'
      | stop => rfl
      | load | save | clear | status => simp at kind
  | load | save | clear | status =>
      cases asks' with
      | start kind | stop kind => simp at kind
      | _ => rfl

theorem asks_alone {r r' : Request} (asks : w.Asks c r) : r' ∈ [r] ↔ w.Asks c r' := by
  constructor
  · intro member
    obtain rfl := List.mem_singleton.mp member
    exact asks
  · intro other
    exact List.mem_singleton.mpr (other.unique asks)

theorem mem_toggle_requests {desk : Desk} {r : Request} :
    r ∈ Operation.toggle.requests desk ↔
      desk.pending = false ∧ r = Desk.requestFor desk.state.toggled := by
  dsimp only [Operation.requests]
  cases desk.pending <;> simp

theorem asks_of_toggle {r : Request} (kind : c = .start ∧ w.desk.state = .stopped ∨
    c = .stop ∧ w.desk.state = .running ∨ c = .toggle) :
    r ∈ Operation.toggle.requests w.desk ↔ w.Asks c r := by
  rw [mem_toggle_requests]
  constructor
  · rintro ⟨idle, rfl⟩
    cases state : w.desk.state with
    | stopped =>
        refine .start ?_ state idle
        rw [state] at kind
        simpa using kind
    | running =>
        refine .stop ?_ state idle
        rw [state] at kind
        simpa using kind
  · intro asks
    cases asks with
    | start _ state idle => exact ⟨idle, by rw [state]; rfl⟩
    | stop _ state idle => exact ⟨idle, by rw [state]; rfl⟩
    | load | save | clear | status => simp at kind

theorem agrees_iff : w.answer?.any Command.isYes = true ↔
    ∃ answer, w.answer? = some answer ∧ Command.isYes answer = true := by
  cases w.answer? <;> simp

theorem not_asks_of_others {r : Request} (other : c ≠ .start ∧ c ≠ .stop ∧ c ≠ .toggle ∧
    c ≠ .load ∧ c ≠ .save ∧ c ≠ .clear ∧ c ≠ .status) : ¬w.Asks c r := by
  intro asks
  cases asks with
  | start kind | stop kind => rcases kind with rfl | rfl <;> simp at other
  | load | save | clear | status => simp at other

/-- A command issues what it asks, and nothing else. -/
theorem mem_issues {r : Request} : r ∈ w.issues c ↔ w.Asks c r := by
  unfold issues
  cases c with
  | toggle => exact asks_of_toggle (.inr (.inr rfl))
  | start =>
      dsimp only [operation?]
      split
      next running =>
        constructor
        · exact List.not_mem_nil.elim
        · rintro (⟨-, stopped, -⟩ | ⟨kind, -, -⟩)
          · cases running.symm.trans stopped
          · simp at kind
      next other =>
        have stopped : w.desk.state = .stopped := by
          cases state : w.desk.state with
          | stopped => rfl
          | running => exact absurd state other
        exact asks_of_toggle (.inl ⟨rfl, stopped⟩)
  | stop =>
      dsimp only [operation?]
      split
      next stopped =>
        constructor
        · exact List.not_mem_nil.elim
        · rintro (⟨kind, -, -⟩ | ⟨-, running, -⟩)
          · simp at kind
          · cases stopped.symm.trans running
      next other =>
        have running : w.desk.state = .running := by
          cases state : w.desk.state with
          | stopped => exact absurd state other
          | running => rfl
        exact asks_of_toggle (.inr (.inl ⟨rfl, running⟩))
  | clear =>
      dsimp only [operation?, Option.elim, Operation.requests]
      split
      next agreed =>
        obtain ⟨answer, given, yes⟩ := agrees_iff.mp agreed
        exact asks_alone (.clear given yes)
      next declined =>
        constructor
        · exact List.not_mem_nil.elim
        · rintro (⟨kind, -, -⟩ | ⟨kind, -, -⟩ | - | - | ⟨given, yes⟩)
          · simp at kind
          · simp at kind
          · exact absurd (agrees_iff.mpr ⟨_, given, yes⟩) declined
  | load => exact asks_alone .load
  | save => exact asks_alone .save
  | status => exact asks_alone .status
  | poll on => cases on <;> exact ⟨List.not_mem_nil.elim, (not_asks_of_others (by simp)).elim⟩
  | help | stats | chart | config | set | exportConfig | importConfig | alerts | quit =>
      exact ⟨List.not_mem_nil.elim, (not_asks_of_others (by simp)).elim⟩

/-- What the parts of a command's operation come to. -/
theorem operation_parts (w : Workplace) (c : Command) :
    ((w.operation? c).bind Operation.brings?).map (·.2) = w.imported? c ∧
      (w.operation? c).bind Operation.alert? = w.tells? c ∧
      ((∀ on, c ≠ .poll on) → (w.operation? c).elim [] Operation.timers = []) ∧
      ((∀ key raw, c ≠ .set key raw) →
        (w.operation? c).elim w.desk.form (Operation.reform w.desk.form) =
          ((w.imported? c).map w.desk.form.fill).getD w.desk.form) := by
  cases c with
  | start | stop =>
      dsimp only [operation?]
      split <;> exact ⟨rfl, rfl, fun _ => rfl, fun _ => rfl⟩
  | set key value => exact ⟨rfl, rfl, fun _ => rfl, fun other => absurd rfl (other key value)⟩
  | poll on =>
      cases on <;> exact ⟨rfl, rfl, fun other => absurd rfl (other _), fun _ => rfl⟩
  | importConfig path =>
      dsimp only [operation?, Option.bind, Option.elim, Operation.brings?, Operation.alert?,
        Operation.reform, imported?, tells?]
      cases Config.import? (w.disk.read? path) <;> exact ⟨rfl, rfl, fun _ => rfl, fun _ => rfl⟩
  | _ => exact ⟨rfl, rfl, fun _ => rfl, fun _ => rfl⟩

theorem toggles_operation (w : Workplace) (c : Command) :
    (w.operation? c).any Operation.isToggle = true ↔ c = .toggle ∨
      (c = .start ∧ w.desk.state = .stopped) ∨ (c = .stop ∧ w.desk.state = .running) := by
  cases c with
  | start | stop =>
      dsimp only [operation?]
      cases w.desk.state <;> simp [Operation.isToggle]
  | poll on => cases on <;> simp [operation?, Operation.isToggle]
  | _ => simp [operation?, Operation.isToggle]

end Workplace

/-! ## The desk after an operation -/

namespace Station

variable (s : Station) (o : Option Operation)

theorem desk_doing : (s.doing o).desk = o.elim s.desk fun o => (s.desk.operate s.moment o).1 := by
  cases o with
  | none => rfl
  | some o => exact desk_take _ _

theorem underway_doing : (s.doing o).agenda.underway = s.agenda.underway +
    ((o.elim [] fun o => o.requests s.desk : List Request) : Multiset Request) := by
  cases o with
  | none => exact (add_zero _).symm
  | some o =>
      dsimp only [doing, Option.elim]
      rw [agenda_take, Agenda.underway_effects, Desk.requests_operate]

theorem config_doing : (s.doing o).desk.config =
    ((o.bind Operation.brings?).map (·.2)).getD s.desk.config := by
  rw [desk_doing]
  cases o with
  | none => rfl
  | some o => exact s.desk.config_operate s.moment o

theorem pending_doing :
    (s.doing o).desk.pending = (o.any Operation.isToggle || s.desk.pending) := by
  rw [desk_doing]
  cases o with
  | none => rfl
  | some o => exact s.desk.pending_operate s.moment o

theorem form_doing :
    (s.doing o).desk.form = o.elim s.desk.form (Operation.reform s.desk.form) := by
  rw [desk_doing]
  cases o with
  | none => rfl
  | some o => exact s.desk.form_operate s.moment o

theorem kept_doing : (s.doing o).desk.state = s.desk.state ∧
    (s.doing o).desk.counts = s.desk.counts ∧ (s.doing o).desk.chart = s.desk.chart := by
  rw [desk_doing]
  cases o with
  | none => exact ⟨rfl, rfl, rfl⟩
  | some o =>
      have unread := s.desk.unread_operate s.moment o
      exact ⟨s.desk.state_operate s.moment o, unread.counts, unread.chart⟩

theorem alerts_doing : ∃ raised : List Alert,
    (s.doing o).desk.alerts.visible = s.desk.alerts.visible ++ raised ∧
      raised.map Alert.kind = (o.bind Operation.alert?).toList := by
  rw [desk_doing]
  cases o with
  | none => exact ⟨[], (List.append_nil _).symm, rfl⟩
  | some o =>
      have raises := s.desk.raises_operate s.moment o
      dsimp only [Option.elim, Option.bind]
      generalize o.alert? = kind? at raises ⊢
      cases raises with
      | kept alerts _ => exact ⟨[], by rw [alerts, List.append_nil], rfl⟩
      | raised kind message alerts _ =>
          refine ⟨[s.desk.alerts.upcoming s.moment.now kind message], ?_, rfl⟩
          rw [alerts]
          rfl

theorem timer_doing (aside : o.elim [] Operation.timers = []) :
    (s.doing o).agenda.timer = s.agenda.timer := by
  cases o with
  | none => rfl
  | some o =>
      dsimp only [doing]
      rw [agenda_take]
      exact Agenda.timer_effects ((s.desk.timers_operate s.moment o).trans aside)

end Station

/-! ## Commands -/

namespace Workplace

variable {w w' : Workplace} {c : Command} {log : History}

/-- A toggle that comes of a command is heeded if a start or a stop is asked. -/
theorem toggles_iff_asks (idle : w.desk.pending = false) :
    (w.operation? c).any Operation.isToggle = true ↔ w.Asks c .start ∨ w.Asks c .stop := by
  rw [toggles_operation]
  constructor
  · intro toggles
    have kind : c = .start ∧ w.desk.state = .stopped ∨ c = .stop ∧ w.desk.state = .running ∨
        c = .toggle := by tauto
    have asks := (asks_of_toggle kind).mp (mem_toggle_requests.mpr ⟨idle, rfl⟩)
    cases state : w.desk.state with
    | stopped =>
        rw [state] at asks
        exact .inl asks
    | running =>
        rw [state] at asks
        exact .inr asks
  · rintro (asks | asks)
    · cases asks with
      | start kind stopped =>
        rcases kind with start | toggle
        · exact .inr (.inl ⟨start, stopped⟩)
        · exact .inl toggle
    · cases asks with
      | stop kind running =>
        rcases kind with stop | toggle
        · exact .inr (.inr ⟨stop, running⟩)
        · exact .inl toggle

theorem isPolling_doing (w : Workplace) (t : Station) (c : Command) :
    (t.doing (w.operation? c)).agenda.isPolling = c.polls?.getD t.agenda.isPolling := by
  by_cases polls : ∃ on, c = .poll on
  · obtain ⟨on, rfl⟩ := polls
    cases on <;> rfl
  · push Not at polls
    have kept := t.timer_doing _ ((w.operation_parts c).2.2.1 polls)
    unfold Agenda.isPolling
    rw [kept]
    cases c with
    | poll on => exact absurd rfl (polls on)
    | _ => rfl

theorem Carries.leaves (carries : w.Carries c log w') : w.Leaves c w' := by
  obtain ⟨t, waits, station, input, disk⟩ := carries.outcome
  have before : t.desk = w.desk := waits.desk
  have after : w'.desk = (t.doing (w.operation? c)).desk := congrArg Station.desk station
  obtain ⟨state, counts, chart⟩ := t.kept_doing (w.operation? c)
  have form := t.form_doing (w.operation? c)
  have config := t.config_doing (w.operation? c)
  have pending := t.pending_doing (w.operation? c)
  have alerts := t.alerts_doing (w.operation? c)
  rw [← after, before] at state counts chart form config pending alerts
  obtain ⟨brings, alert, -, reform⟩ := w.operation_parts c
  rw [brings] at config
  rw [alert] at alerts
  refine ⟨state, counts, chart, config, alerts, ?pending, ?filled, ?typed, ?kept, ?polling, input,
    disk⟩
  case pending =>
    rw [pending, Bool.or_eq_true]
    cases busy : w.desk.pending with
    | true => simp
    | false => simp [toggles_iff_asks busy]
  case filled =>
    intro config imports
    have other : ∀ key raw, c ≠ .set key raw := by
      rintro key raw rfl
      cases imports
    rw [form, reform other, imports]
    rfl
  case typed =>
    rintro key raw rfl
    have typed : w'.desk.form = (w.desk.form.edit key raw).toOption.getD w.desk.form := form
    refine ⟨typed, ?_⟩
    intro other apart
    rw [typed]
    exact (Form.get?_perform w.desk.form (.edit key raw) other).trans (if_neg apart)
  case kept =>
    intro none other
    rw [form, reform other, none]
    rfl
  case polling =>
    have timer : t.agenda.isPolling = w.session.station.agenda.isPolling :=
      congrArg Option.isSome waits.timer
    rw [station, isPolling_doing, timer]

/-- What is asked comes to the requests that the background left under way. -/
theorem Carries.issues (carries : w.Carries c log w') : ∃ t, w.session.station.Waits log t ∧
    w'.session.station.agenda.underway =
      t.agenda.underway + (w.issues c : Multiset Request) := by
  obtain ⟨t, waits, station, -, -⟩ := carries.outcome
  have desk : t.desk = w.desk := waits.desk
  refine ⟨t, waits, ?_⟩
  rw [station, Station.underway_doing, desk]
  rfl

theorem exists_carries (w : Workplace) (c : Command) : ∃ w', w.Carries c [] w' := by
  cases done : w.session.carryOut c with
  | mk session errand =>
      cases errand with
      | none => exact ⟨_, .atOnce done⟩
      | some errand => exact ⟨_, .later done (.none _)⟩

theorem obey_of_parse (s : Session) {line : String}
    (command : Command.parse line = .ok (some c)) (goesOn : c ≠ .quit) :
    s.obey line = ((s.carryOut c).1, .done (s.carryOut c).2) := by
  unfold Session.obey
  rw [command]
  cases c with
  | quit => exact absurd rfl goesOn
  | _ => rfl

/-- A line on which a command is read has it carried out. -/
theorem turn_carries {w₁ : Workplace} {line : String} (read : w.readLine = (w₁, some (some line)))
    (command : Command.parse line = .ok (some c)) :
    w₁.Carries c [] w.turn.1 ∧ (w.turn.2 = .quit ↔ c = .quit) := by
  unfold turn
  rw [read]
  dsimp only
  by_cases goesOn : c = .quit
  · subst goesOn
    have quits : w₁.session.obey line = (w₁.session, .quit) := by
      unfold Session.obey
      rw [command]
    rw [quits]
    exact ⟨.atOnce rfl, by simp⟩
  · rw [obey_of_parse _ command goesOn]
    cases done : w₁.session.carryOut c with
    | mk session errand =>
        cases errand with
        | none => exact ⟨.atOnce done, by simp [goesOn]⟩
        | some errand => exact ⟨.later done (.none _), by simp [goesOn]⟩

/-- Every command can be carried out, at once or after a while in which the background goes on, and
a line on which one is read has it carried out; only one ends the console. It issues one request at
most, the one that it asks: a start or a stop that is called for while none is pending, a loading, a
saving, a clearing that was agreed to, or a question for the status. What there is besides it leaves
alone, but for what it is there to change. -/
theorem commands_do_what_they_are_for :
    (∀ (w : Workplace) (c : Command), ∃ w', w.Carries c [] w') ∧
      (∀ (w w₁ : Workplace) (line : String) (c : Command),
        w.readLine = (w₁, some (some line)) → Command.parse line = .ok (some c) →
        w₁.Carries c [] w.turn.1 ∧ (w.turn.2 = .quit ↔ c = .quit)) ∧
      ∀ (w w' : Workplace) (c : Command) (log : History), w.Carries c log w' →
        w.Leaves c w' ∧ ∃ (t : Station) (issued : List Request),
          w.session.station.Waits log t ∧
          w'.session.station.agenda.underway = t.agenda.underway + (issued : Multiset Request) ∧
          issued.length ≤ 1 ∧ ∀ r, r ∈ issued ↔ w.Asks c r := by
  refine ⟨exists_carries, fun _ _ _ _ => turn_carries, ?_⟩
  intro w w' c log carries
  obtain ⟨t, waits, underway⟩ := carries.issues
  exact ⟨carries.leaves, t, w.issues c, waits, underway, w.length_issues_le c, fun _ => mem_issues⟩

/-- A clearing that is agreed to takes the line of the answer and is asked of the engine once. -/
theorem agreed_clearing_takes_one_line :
    let station : Station := .opened .empty {} { config := .empty } 0 ""
    let typed : List UInt8 := [99, 108, 101, 97, 114, 10, 89, 101, 115, 10, 113, 10]
    let w : Workplace := { session := { station }, input := typed, disk := .empty, exports := "" }
    w.turn.2 ≠ .quit ∧ w.turn.1.input = [113, 10] ∧ w.turn.1.desk.state = .stopped ∧
      w.turn.1.session.station.agenda.underway = {.clearStats} ∧
      ∃ w', w.Carries .start [] w' := by
  intro station typed w
  let w₁ : Workplace := { w with input := [89, 101, 115, 10, 113, 10] }
  have command : Text.decode? [99, 108, 101, 97, 114] = some "clear" := by
    simp [Text.decode?, Text.decode, Text.Glyph.char?]
  have answer : Text.decode? [89, 101, 115] = some "Yes" := by
    simp [Text.decode?, Text.decode, Text.Glyph.char?]
  have read : w.readLine = (w₁, some (some "clear")) :=
    congrArg (fun line => (w₁, some line)) command
  obtain ⟨possible, turns, commands⟩ := commands_do_what_they_are_for
  obtain ⟨carries, quits⟩ := turns w w₁ "clear" .clear read (by rfl)
  obtain ⟨leaves, t, issued, waits, underway, one, asks⟩ := commands _ _ _ _ carries
  refine ⟨by simp [quits], leaves.input, leaves.state, ?_, possible w .start⟩
  have asked : .clearStats ∈ issued := (asks .clearStats).mpr (.clear answer (by decide))
  have alone : issued = [.clearStats] := by
    have length : issued.length = 1 := Nat.le_antisymm one (List.length_pos_of_mem asked)
    obtain ⟨r, rfl⟩ := List.length_eq_one_iff.mp length
    rw [List.mem_singleton.mp asked]
  rw [underway, alone, waits.eq_of_nil]
  rfl

end Workplace

end EngineConsole
