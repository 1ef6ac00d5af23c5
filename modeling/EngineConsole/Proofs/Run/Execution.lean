import EngineConsole.Console.Session
import EngineConsole.Proofs.Run.Requests

/-!
# Executing is running

The console lets work run in rounds, moves the clock from one moment to the next at which
something is woken, and applies completions in batches. Whatever it executes that way is a run, so
what is true of every run is true of it.
-/

set_option autoImplicit false

namespace EngineConsole

namespace Agenda

variable (a : Agenda) (jobs : List Job)

/-! ## Work in front -/

/-- The agenda with more work that is ready, before what is. -/
def behind (jobs : List Job) (a : Agenda) : Agenda :=
  { a with ready := jobs ++ a.ready }

theorem spawn_behind (job : Job) : (a.behind jobs).spawn job = (a.spawn job).behind jobs := by
  simp [spawn, behind]

theorem release_behind (waiter : Option Nat) :
    (a.behind jobs).release waiter = (a.release waiter).behind jobs := by
  have same : (a.behind jobs).waiting = a.waiting := rfl
  unfold release
  rw [same]
  split
  · split
    · rw [spawn_behind]
      rfl
    · rfl
  · rfl

theorem serve_behind (r : Request) (waiter : Option Nat) :
    (a.behind jobs).serve r waiter = (a.serve r waiter).behind jobs := by
  let answered : Agenda := { a with engine := (a.engine.serve a.uptime r).1 }
  exact release_behind (answered.post (a.engine.serve a.uptime r).2) jobs waiter

theorem proceed_behind (r : Request) (ending : Scripted) (waiter : Option Nat) :
    (a.behind jobs).proceed r ending waiter = (a.proceed r ending waiter).behind jobs := by
  unfold proceed
  split
  · exact release_behind a jobs waiter
  · split
    next c _ => exact release_behind (a.post c) jobs waiter
    next =>
      dsimp only
      split
      next soon =>
        have soon : a.latency = 0 := soon
        rw [if_pos soon]
        exact serve_behind { a with engine := a.engine.arrive r.endpoint } jobs r waiter
      next later =>
        have later : ¬a.latency = 0 := later
        rw [if_neg later]
        rfl

theorem begin_behind (r : Request) (waiter : Option Nat) :
    (a.behind jobs).begin r waiter = (a.begin r waiter).behind jobs := by
  have same : (a.behind jobs).script = a.script := rfl
  unfold begin
  rw [same]
  cases a.script.next r.kind with
  | mk entry script =>
      dsimp only
      split
      · exact proceed_behind { a with script, begun := a.begun ++ [r.kind] } jobs r entry.ending
          waiter
      · rfl

theorem tick_behind (timer due : Nat) :
    (a.behind jobs).tick timer due = (a.tick timer due).behind jobs := by
  have now : (a.behind jobs).now = a.now := rfl
  have overlap : (a.behind jobs).overlap = a.overlap := rfl
  unfold tick
  rw [now, overlap]
  split
  · rfl
  · split
    · simp [sleep, behind]
    · rw [spawn_behind]
      rfl

theorem runJob_behind (job : Job) :
    (a.behind jobs).runJob job = (a.runJob job).behind jobs := by
  cases job with
  | begin r waiter => exact begin_behind a jobs r waiter
  | proceed r ending waiter => exact proceed_behind a jobs r ending waiter
  | serve r waiter => exact serve_behind a jobs r waiter
  | expiry ttl id =>
      dsimp only [runJob]
      split <;> rfl
  | expired id => rfl
  | pollBegin timer =>
      have interval : (a.behind jobs).interval = a.interval := rfl
      dsimp only [runJob]
      rw [interval]
      split <;> rfl
  | pollTick timer due => exact tick_behind a jobs timer due

/-! ## The clock -/

@[simp] theorem now_release (waiter : Option Nat) : (a.release waiter).now = a.now := by
  unfold release
  split
  · split <;> rfl
  · rfl

@[simp] theorem now_serve (r : Request) (waiter : Option Nat) : (a.serve r waiter).now = a.now :=
  now_release _ _

@[simp] theorem now_proceed (r : Request) (ending : Scripted) (waiter : Option Nat) :
    (a.proceed r ending waiter).now = a.now := by
  unfold proceed
  split
  · exact now_release _ _
  · split
    · exact now_release _ _
    · dsimp only
      split
      · exact now_serve _ _ _
      · rfl

theorem now_runJob (job : Job) : (a.runJob job).now = a.now := by
  cases job with
  | begin r waiter =>
      dsimp only [runJob, begin]
      split
      · exact now_proceed _ _ _ _
      · rfl
  | proceed r ending waiter => exact now_proceed _ _ _ _
  | serve r waiter => exact now_serve _ _ _
  | expiry ttl id =>
      dsimp only [runJob]
      split <;> rfl
  | expired id => rfl
  | pollBegin timer =>
      dsimp only [runJob]
      split <;> rfl
  | pollTick timer due =>
      dsimp only [runJob, tick]
      split
      · rfl
      · split <;> rfl

theorem now_jobs : (jobs.foldl runJob a).now = a.now := by
  induction jobs generalizing a with
  | nil => rfl
  | cons job rest ih => exact (ih _).trans (now_runJob a job)

theorem now_rounds (n : Nat) : (rounds n a).now = a.now := by
  induction n generalizing a with
  | zero => rfl
  | succ n ih =>
      unfold rounds
      split
      · rfl
      · exact (ih _).trans (now_jobs { a with ready := [] } a.ready)

theorem now_effects (effects : List Effect) : (effects.foldl undertake a).now = a.now :=
  effects_keep now (fun _ e => by cases e <;> rfl) a effects

end Agenda

/-! ## Reaching -/

/-- Some run leads from one station to the other. -/
def Station.Reaches (world : World) (s t : Station) : Prop :=
  ∃ log, Run world s log t

namespace Station.Reaches

variable {world : World} {s t u : Station}

theorem refl (s : Station) : Reaches world s s :=
  ⟨[], .begin⟩

theorem trans (first : Reaches world s t) (second : Reaches world t u) : Reaches world s u := by
  obtain ⟨log, run⟩ := first
  obtain ⟨log', more⟩ := second
  exact ⟨log ++ log', run.append more⟩

theorem step {m : Move} (step : Step world s m t) : Reaches world s t :=
  ⟨_, .single step⟩

end Station.Reaches

/-- Background work leads from one agenda to the other, whatever the desk. -/
def Agenda.Reaches (world : World) (a b : Agenda) : Prop :=
  ∀ s : Station, Station.Reaches world { s with agenda := a } { s with agenda := b }

namespace Agenda.Reaches

variable {world : World} {a b c : Agenda}

theorem refl (a : Agenda) : Reaches world a a := by
  intro s
  exact .refl _

theorem trans (first : Reaches world a b) (second : Reaches world b c) : Reaches world a c := by
  intro s
  exact (first s).trans (second s)

theorem wakeAt {moment : Nat} (later : a.now ≤ moment) : Reaches world a (a.wakeAt moment) := by
  intro s
  exact .step (.wake later)

theorem batch (a : Agenda) (jobs : List Job) :
    Reaches world (a.behind jobs) (jobs.foldl Agenda.runJob a) := by
  induction jobs generalizing a with
  | nil => exact .refl a
  | cons job rest ih =>
      have first : Reaches world (a.behind (job :: rest)) ((a.runJob job).behind rest) := by
        intro s
        rw [← Agenda.runJob_behind]
        exact .step (@Step.work world _ [] (rest ++ a.ready) job rfl)
      exact first.trans (ih _)

theorem round (a : Agenda) : Reaches world a a.round := by
  have whole : ({ a with ready := [] } : Agenda).behind a.ready = a := by
    change ({ a with ready := a.ready ++ [] } : Agenda) = a
    rw [List.append_nil]
  have run : Reaches world _ _ := batch { a with ready := [] } a.ready
  rwa [whole] at run

theorem rounds (n : Nat) (a : Agenda) : Reaches world a (Agenda.rounds n a) := by
  induction n generalizing a with
  | zero => exact .refl a
  | succ n ih =>
      unfold Agenda.rounds
      split
      · exact .refl a
      · exact (round a).trans (ih _)

theorem runReady (a : Agenda) : Reaches world a a.runReady :=
  rounds _ a

theorem passTurns {limit : Nat} (turns : Nat) (early : a.now ≤ limit) :
    Reaches world a (Agenda.passTurns limit turns a) := by
  induction turns generalizing a with
  | zero => exact .refl a
  | succ turns ih =>
      have early : a.runReady.now ≤ limit := (Agenda.now_rounds a _).trans_le early
      unfold Agenda.passTurns
      dsimp only
      split
      · split
        next between =>
          refine (runReady a).trans ((wakeAt between.1.le).trans (ih ?_))
          exact between.2
        next => exact (runReady a).trans (wakeAt early)
      · exact (runReady a).trans (wakeAt early)

theorem pass (a : Agenda) (ms : Nat) : Reaches world a (a.pass ms) :=
  passTurns _ (Nat.le_add_right _ _)

end Agenda.Reaches

/-! ## Applying completions -/

namespace Station

/-- The station with these completions in its queue. -/
def queued (l : List Completion) (s : Station) : Station :=
  { s with agenda := { s.agenda with arrived := l } }

theorem perform_queued (l : List Completion) (s : Station) (effects : List Effect) :
    (s.queued l).perform effects = (s.perform effects).queued l := by
  induction effects generalizing s with
  | nil => rfl
  | cons e rest ih =>
      have one : (s.queued l).performOne e = (s.performOne e).queued l := by
        cases e <;> rfl
      change ((s.queued l).performOne e).perform rest = _
      rw [one]
      exact ih _

theorem handle_queued (l : List Completion) (s : Station) (c : Completion) :
    (s.queued l).handle c = (s.handle c).queued l :=
  perform_queued l { s with desk := (s.desk.handle s.moment c).1 } _

theorem now_handle (s : Station) (c : Completion) : (s.handle c).agenda.now = s.agenda.now := by
  rw [handle, agenda_take, Agenda.now_effects]

theorem now_batch (s : Station) (l : List Completion) :
    (l.foldl handle s).agenda.now = s.agenda.now := by
  induction l generalizing s with
  | nil => rfl
  | cons c rest ih => exact (ih _).trans (s.now_handle c)

theorem now_settleTurns (turns : Nat) (s : Station) :
    (settleTurns turns s).1.agenda.now = s.agenda.now := by
  induction turns generalizing s with
  | zero => rfl
  | succ turns ih =>
      have ran : s.runReady.agenda.now = s.agenda.now := s.agenda.now_rounds _
      unfold settleTurns
      dsimp only
      split
      · exact ran
      · exact (ih _).trans ((now_batch _ _).trans ran)

namespace Reaches

variable {world : World} {s : Station}

theorem batch (l : List Completion) (s : Station) :
    Reaches world (s.queued l) (l.foldl Station.handle (s.queued [])) := by
  induction l generalizing s with
  | nil => exact .refl _
  | cons c rest ih =>
      have first : Reaches world (s.queued (c :: rest)) ((s.handle c).queued rest) := by
        rw [← handle_queued]
        exact .step (@Step.handle world _ c rest rfl)
      refine first.trans ?_
      rw [List.foldl_cons, handle_queued]
      exact ih _

theorem runReady (s : Station) : Reaches world s s.runReady :=
  Agenda.Reaches.runReady s.agenda s

theorem process (s : Station) : Reaches world s s.process.1 :=
  batch s.agenda.arrived s

theorem settleTurns (turns : Nat) (s : Station) :
    Reaches world s (Station.settleTurns turns s).1 := by
  induction turns generalizing s with
  | zero => exact .refl s
  | succ turns ih =>
      unfold Station.settleTurns
      dsimp only
      split
      · exact runReady s
      · exact (runReady s).trans ((process _).trans (ih _))

theorem settle (s : Station) : Reaches world s s.settle.1 :=
  settleTurns _ s

theorem advance (s : Station) (ms : Nat) : Reaches world s (s.advance ms).1 :=
  (Agenda.Reaches.pass s.agenda ms s).trans (settle _)

theorem runTurns {limit : Nat} (turns : Nat) (early : s.agenda.now ≤ limit) :
    Reaches world s (Station.runTurns limit turns s).1 := by
  induction turns generalizing s with
  | zero => exact settle s
  | succ turns ih =>
      have early : s.settle.1.agenda.now ≤ limit := (now_settleTurns _ s).trans_le early
      have last : Reaches world s
          (Station.settle { s.settle.1 with agenda := s.settle.1.agenda.wakeAt limit }).1 :=
        (settle s).trans ((Agenda.Reaches.wakeAt early s.settle.1).trans (settle _))
      unfold Station.runTurns
      dsimp only
      split
      · split
        next between =>
          refine (settle s).trans
            ((Agenda.Reaches.wakeAt between.1.le s.settle.1).trans (ih ?_))
          exact between.2.le
        next => exact last
      · exact last

theorem run (s : Station) (ms : Nat) : Reaches world s (s.run ms).1 := by
  have turns : Reaches world s.process.1
      (Station.runTurns (s.process.1.agenda.now + ms) (ms + 1) s.process.1).1 :=
    runTurns _ (Nat.le_add_right _ _)
  exact (process s).trans turns

theorem awaitTurns {limit : Nat} {a : Agenda} (turns : Nat) (early : a.now ≤ limit) :
    Agenda.Reaches world a (Station.awaitTurns limit turns a) := by
  induction turns generalizing a with
  | zero => exact .refl a
  | succ turns ih =>
      have early : a.runReady.now ≤ limit := (Agenda.now_rounds a _).trans_le early
      have ready : Agenda.Reaches world a a.runReady := .runReady a
      unfold Station.awaitTurns
      dsimp only
      split
      · split
        · split
          · split
            next between =>
              exact ready.trans ((Agenda.Reaches.wakeAt between.1.le).trans (ih between.2.le))
            next => exact ready.trans (.wakeAt early)
          · exact ready.trans (.wakeAt early)
        · exact ready
      · exact .refl a

theorem next (s : Station) : Reaches world s s.next.1 := by
  have early : s.agenda.now ≤ s.agenda.now + patience := Nat.le_add_right _ _
  have waited : Reaches world s _ := awaitTurns (patience + 1) early s
  unfold Station.next await?
  dsimp only
  generalize Station.awaitTurns (s.agenda.now + patience) (patience + 1) s.agenda = agenda
    at waited ⊢
  cases arrived : agenda.arrived with
  | nil => exact waited
  | cons c rest => exact waited.trans (.step (.handle arrived))

end Reaches

end Station

/-! ## Sessions -/

namespace Session

variable {world : World}

private theorem operated (station : Station) (o : Operation) :
    Station.Reaches world station (station.take (station.desk.operate station.moment o)) :=
  .step (.operate o)

theorem reaches_press (s : Session) : Station.Reaches world s.station s.press.station := by
  unfold press
  split
  · exact operated s.station .toggle
  · exact .refl _

theorem reaches_bring (s : Session) (wanted : RunState) :
    Station.Reaches world s.station (s.bring wanted).station := by
  unfold bring
  split
  · exact .refl _
  · exact s.reaches_press

theorem reaches_edit (s : Session) (key raw : String) :
    Station.Reaches world s.station (s.edit key raw).station := by
  have typed : Station.Reaches world s.station _ := operated s.station (.edit key raw)
  dsimp only [Desk.operate] at typed
  unfold edit
  split
  next form accepted =>
    rw [accepted] at typed
    exact typed
  next => exact .refl _

theorem reaches_carryOut (s : Session) (c : Command) :
    Station.Reaches world s.station (s.carryOut c).1.station := by
  cases c with
  | toggle => exact s.reaches_press
  | start => exact s.reaches_bring .running
  | stop => exact s.reaches_bring .stopped
  | set key value => exact s.reaches_edit key value
  | load => exact operated s.station .load
  | save => exact operated s.station .save
  | status => exact operated s.station .askStatus
  | poll on =>
      cases on with
      | true => exact operated s.station .startPolling
      | false => exact operated s.station .stopPolling
  | help | stats | chart | config | exportConfig | importConfig | clear | alerts | quit =>
      exact .refl _

/-- A line that the operator enters is a run of the station, and so is what comes of the errand
that its command may have left. -/
theorem reaches_obey (s : Session) (line : String) :
    Station.Reaches world s.station (s.obey line).1.station := by
  unfold obey
  split
  · exact .refl _
  · exact .refl _
  · exact .refl _
  · exact s.reaches_carryOut _

theorem reaches_answered (s : Session) (answer : Option String) :
    Station.Reaches world s.station (s.answered answer).station :=
  operated s.station (.clear (answer.any Command.isYes))

theorem reaches_importFile (s : Session) (file : Option (List UInt8)) :
    Station.Reaches world s.station (s.importFile file).station :=
  operated s.station (.importConfig file)

theorem reaches_exported (s : Session) (place : Option String) :
    Station.Reaches world s.station (s.exported place).station := by
  cases place with
  | some path => exact .refl _
  | none => exact operated s.station (.exportConfig false)

theorem reaches_pass (s : Session) (ms : Nat) :
    Station.Reaches world s.station (s.pass ms).1.station :=
  .run s.station ms

theorem reaches_settle (s : Session) : Station.Reaches world s.station s.settle.1.station :=
  .settle s.station

theorem reaches_start (form : Form) (options : Options) (engine : Engine) (latency : Nat)
    (clock : String) (printed : List Printed) :
    let s := Station.ofOptions form options engine clock
    Station.Reaches world (.opened form options engine latency clock)
      (start { s with agenda := { s.agenda with latency } } printed).station :=
  operated (.opened form options engine latency clock) .startup

end Session

end EngineConsole
