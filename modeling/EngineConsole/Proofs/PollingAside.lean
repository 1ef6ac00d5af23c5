import EngineConsole.Proofs.Run.Settling

/-!
# Polling interferes with nothing

Whether the console polls, how often and under which policy makes no difference to its
configuration, its form, the state it believes the engine to be in, or its alerts. Polling makes
the clock stop at more moments, but a station that has come to rest only passes through a moment at
which nothing but work on the side is due: letting time pass is letting it pass by milliseconds.
-/

set_option autoImplicit false

namespace EngineConsole

namespace Station

variable {s t : Station} {rest : Station → Station} {Still : Station → Prop}

/-- The station when the clock has moved on. -/
def wakeAt (s : Station) (moment : Nat) : Station :=
  { s with agenda := s.agenda.wakeAt moment }

theorem Alike.wakeAt (alike : s.Alike t) (moment : Nat) :
    (s.wakeAt moment).Alike (t.wakeAt moment) :=
  ⟨alike.desk, alike.agenda.wakeAt moment⟩

/-! ## Coming to rest -/

/-- A way to come to rest at a moment: a station that rests does not change any more, and it goes on
resting when the clock moves on and nothing is due. -/
structure Rests (rest : Station → Station) (Still : Station → Prop) : Prop where
  reaches : ∀ s, Reaches .any s (rest s)
  now : ∀ s, (rest s).agenda.now = s.agenda.now
  alike : ∀ {s t}, s.Alike t → (rest s).Alike (rest t)
  aside : ∀ {s t}, s.Alike t → Still s → (rest s).Alike t
  still : ∀ {s}, s.agenda.Ahead → Still (rest s)
  passes : ∀ {s}, Still s → ∀ moment, Still { s with agenda := { s.agenda with now := moment } }

theorem rests_runReady : Rests runReady fun s => s.agenda.Resting where
  reaches := .runReady
  now s := s.agenda.now_rounds _
  alike := Alike.runReady
  aside alike resting := ⟨alike.desk, alike.agenda.runReadyResting resting⟩
  still ahead := Agenda.resting_runReady ahead.sorted
  passes resting _ := resting

theorem rests_settle : Rests (fun s => s.settle.1) Idle where
  reaches := .settle
  now := now_settleTurns 4
  alike := Alike.settle
  aside := Alike.settleAside
  still ahead := idle_settle ahead.sorted
  passes idle _ := ⟨idle.ready, idle.arrived⟩

/-! ## Letting time pass -/

/-- Let a millisecond pass, and come to rest. -/
def stride (rest : Station → Station) (s : Station) : Station :=
  rest (s.wakeAt (s.agenda.now + 1))

namespace Rests

theorem stride (rests : Rests rest Still) (alike : s.Alike t) :
    (Station.stride rest s).Alike (Station.stride rest t) := by
  unfold Station.stride
  rw [alike.agenda.now]
  exact rests.alike (alike.wakeAt _)

theorem strides (rests : Rests rest Still) (alike : s.Alike t) (n : Nat) :
    ((Station.stride rest)^[n] s).Alike ((Station.stride rest)^[n] t) := by
  induction n with
  | zero => exact alike
  | succ n ih =>
      rw [Function.iterate_succ_apply', Function.iterate_succ_apply']
      exact rests.stride ih

/-- A station at rest gets to a moment in one go if nothing is due before. -/
theorem leap (rests : Rests rest Still) (ahead : s.agenda.Ahead) (still : Still s) (n : Nat)
    (free : ∀ e ∈ s.agenda.sleeping, s.agenda.now + n ≤ e.1) :
    ((Station.stride rest)^[n] s).Alike (rest (s.wakeAt (s.agenda.now + n))) := by
  induction n with
  | zero =>
      have stays : s.wakeAt s.agenda.now = s := by
        unfold Station.wakeAt
        rw [Agenda.wakeAt_of_lt ahead.later]
      rw [Function.iterate_zero, id, Nat.add_zero, stays]
      exact (rests.aside (.refl ahead.sorted) still).symm
  | succ n ih =>
      have before : ∀ e ∈ s.agenda.sleeping, s.agenda.now + n < e.1 := free
      have there : s.wakeAt (s.agenda.now + n) =
          { s with agenda := { s.agenda with now := s.agenda.now + n } } := by
        unfold Station.wakeAt
        rw [Agenda.wakeAt_of_lt before]
      have resting : (rest (s.wakeAt (s.agenda.now + n))).Alike (s.wakeAt (s.agenda.now + n)) := by
        refine rests.aside (.refl ?_) ?_
        · exact (ahead.wakeAt _).sorted
        · rw [there]
          exact rests.passes still _
      have on : ((s.wakeAt (s.agenda.now + n)).wakeAt (s.agenda.now + n + 1)) =
          s.wakeAt (s.agenda.now + (n + 1)) := by
        rw [there]
        rfl
      rw [Function.iterate_succ_apply']
      have last := rests.stride ((ih fun e member => (before e member).le).trans resting)
      unfold Station.stride at last ⊢
      rw [show (s.wakeAt (s.agenda.now + n)).agenda.now = s.agenda.now + n from rfl, on] at last
      exact last

/-- The next moment at which something is due, or the end of the wait if that comes first, is
reached in one go from a station that came to rest. -/
theorem leapTo (rests : Rests rest Still) (ahead : s.agenda.Ahead) {moment : Nat}
    (later : s.agenda.now ≤ moment)
    (free : ∀ e ∈ (rest s).agenda.sleeping, moment ≤ e.1) :
    ((Station.stride rest)^[moment - s.agenda.now] (rest s)).Alike
      (rest ((rest s).wakeAt moment)) := by
  have there : (rest s).agenda.now + (moment - s.agenda.now) = moment := by
    rw [rests.now]
    exact Nat.add_sub_cancel' later
  have ahead' : (rest s).agenda.Ahead := (rests.reaches s).ahead ahead
  have leap := rests.leap ahead' (rests.still ahead) (moment - s.agenda.now) (by rwa [there])
  rwa [there] at leap

end Rests

/-! ## Waiting -/

/-- A turn of a wait: the station comes to rest, and then the clock moves on to a moment up to which
nothing is due. What is left of the wait follows, or that moment is its end. -/
inductive WaitTurn (rest : Station → Station) (limit : Nat) (wait : Station → Station)
    (s t : Station) : Prop where
  | stops (moment : Nat) :
      s.agenda.now < moment → moment ≤ limit →
      (∀ e ∈ (rest s).agenda.sleeping, moment ≤ e.1) →
      t = wait ((rest s).wakeAt moment) → WaitTurn rest limit wait s t
  | ends :
      (∀ e ∈ (rest s).agenda.sleeping, limit ≤ e.1) →
      t = rest ((rest s).wakeAt limit) → WaitTurn rest limit wait s t

/-- A wait in turns is letting the time pass by milliseconds. -/
theorem Rests.wait (rests : Rests rest Still) {limit : Nat} {wait : Nat → Station → Station}
    (turn : ∀ turns {s : Station}, s.agenda.Ahead →
      WaitTurn rest limit (wait turns) s (wait (turns + 1) s))
    (turns : Nat) (ahead : s.agenda.Ahead) (early : s.agenda.now ≤ limit)
    (enough : limit - s.agenda.now < turns) :
    (wait turns s).Alike ((Station.stride rest)^[limit - s.agenda.now] (rest s)) := by
  induction turns generalizing s with
  | zero => exact absurd enough (Nat.not_lt_zero _)
  | succ turns ih =>
      cases turn turns ahead with
      | stops moment later before free on =>
          have ahead' : ((rest s).wakeAt moment).agenda.Ahead :=
            ((rests.reaches s).ahead ahead).wakeAt moment
          have left : limit - moment < turns := by omega
          have waited := ih ahead' before left
          have passed := rests.strides (rests.leapTo ahead later.le free) (limit - moment)
          rw [← Function.iterate_add_apply, Nat.sub_add_sub_cancel before later.le] at passed
          rw [on]
          exact waited.trans passed.symm
      | ends free whole =>
          rw [whole]
          exact (rests.leapTo ahead early free).symm

theorem waitTurn_pass (limit turns : Nat) (ahead : s.agenda.Ahead) :
    WaitTurn runReady limit
      (fun s => { s with agenda := Agenda.passTurns limit turns s.agenda }.runReady) s
      { s with agenda := Agenda.passTurns limit (turns + 1) s.agenda }.runReady := by
  have ahead' : s.agenda.runReady.Ahead := (rests_runReady.reaches s).ahead ahead
  have now : s.agenda.runReady.now = s.agenda.now := rests_runReady.now s
  simp only [Agenda.passTurns]
  split
  next moment next =>
    obtain ⟨later, free⟩ := ahead'.nextMoment next
    split
    next between => exact .stops moment (now ▸ later) between.2 free rfl
    next beyond =>
      have beyond : limit ≤ moment := by omega
      exact .ends (fun e member => beyond.trans (free e member)) rfl
  next none =>
    refine .ends (fun e member => ?_) rfl
    rw [show s.runReady.agenda.sleeping = [] from Agenda.sleeping_of_nextMoment none] at member
    cases member

theorem waitTurn_run (limit turns : Nat) (ahead : s.agenda.Ahead) :
    WaitTurn (fun s => s.settle.1) limit (fun s => (runTurns limit turns s).1) s
      (runTurns limit (turns + 1) s).1 := by
  have ahead' : s.settle.1.agenda.Ahead := (rests_settle.reaches s).ahead ahead
  have now : s.settle.1.agenda.now = s.agenda.now := rests_settle.now s
  simp only [runTurns]
  split
  next moment next =>
    obtain ⟨later, free⟩ := ahead'.nextMoment next
    split
    next between => exact .stops moment (now ▸ later) between.2.le free rfl
    next beyond =>
      have beyond : limit ≤ moment := by omega
      exact .ends (fun e member => beyond.trans (free e member)) rfl
  next none =>
    refine .ends (fun e member => ?_) rfl
    rw [Agenda.sleeping_of_nextMoment none] at member
    cases member

theorem Alike.advance (alike : s.Alike t) (ahead : s.agenda.Ahead) (ahead' : t.agenda.Ahead)
    (ms : Nat) : (s.advance ms).1.Alike (t.advance ms).1 := by
  have passed {s : Station} (ahead : s.agenda.Ahead) :
      (s.advance ms).1.Alike ((stride Station.runReady)^[ms] s.runReady).settle.1 := by
    have waited := rests_runReady.wait (fun turns _ => waitTurn_pass _ turns) (ms + 1) ahead
      (Nat.le_add_right _ ms) (by omega)
    rw [Nat.add_sub_cancel_left] at waited
    have passed : Reaches .any s { s with agenda := s.agenda.pass ms } :=
      Agenda.Reaches.pass s.agenda ms s
    exact (alike_settle_runReady (passed.ahead ahead).sorted).symm.trans waited.settle
  exact ((passed ahead).trans (rests_runReady.strides alike.runReady ms).settle).trans
    (passed ahead').symm

theorem Alike.run (alike : s.Alike t) (ahead : s.agenda.Ahead) (ahead' : t.agenda.Ahead)
    (ms : Nat) : (s.run ms).1.Alike (t.run ms).1 := by
  have passed {s : Station} (ahead : s.agenda.Ahead) :
      (s.run ms).1.Alike ((stride fun s => s.settle.1)^[ms] s.process.1.settle.1) := by
    have ahead' : s.process.1.agenda.Ahead := (Reaches.process s).ahead ahead
    have waited := rests_settle.wait (fun turns _ => waitTurn_run _ turns) (ms + 1) ahead'
      (Nat.le_add_right _ ms) (by omega)
    rwa [Nat.add_sub_cancel_left] at waited
  exact ((passed ahead).trans (rests_settle.strides alike.process.settle ms)).trans
    (passed ahead').symm

end Station

/-! ## Doing the same -/

/-- What is done to a console from outside: what the operator does, how long things are left to
themselves, and what happens to the engine. Waiting for the next completion, whatever that is about,
is not among them. -/
inductive Act where
  | operate (o : Operation)
  | runReady
  | process
  | settle
  | advance (ms : Nat)
  | run (ms : Nat)
  | offline (offline : Bool)
  | counter (key : String) (value : UInt64)
  | uptime (uptime : String)
  | clock (clock : String)

/-- Starting and stopping to poll, and what only counters, their chart and answers about the
engine's state tell of. -/
def Act.isAside : Act → Bool
  | .operate .startPolling => true
  | .operate .stopPolling => true
  | .counter _ _ => true
  | .uptime _ => true
  | .clock _ => true
  | _ => false

namespace Station

variable {s t : Station} {act : Act}

def enact (s : Station) : Act → Station
  | .operate o => s.take (s.desk.operate s.moment o)
  | .runReady => s.runReady
  | .process => s.process.1
  | .settle => s.settle.1
  | .advance ms => (s.advance ms).1
  | .run ms => (s.run ms).1
  | .offline offline => { s with agenda.engine.offline := offline }
  | .counter key value => { s with agenda.engine := s.agenda.engine.setCounter key value }
  | .uptime uptime => { s with agenda.uptime := uptime }
  | .clock clock => { s with clock }

/-- Whatever is done is a run. -/
theorem reaches_enact (s : Station) (act : Act) : Reaches .simulated s (s.enact act) := by
  cases act with
  | operate o => exact .step (.operate o)
  | runReady => exact .runReady s
  | process => exact .process s
  | settle => exact .settle s
  | advance ms => exact .advance s ms
  | run ms => exact .run s ms
  | offline offline => exact .step (.outside (.offline _ offline))
  | counter key value => exact .step (.outside (.counter _ key value))
  | uptime uptime => exact .step (.outside (.uptime _ uptime))
  | clock clock => exact .step (.outside (.uptime _ s.agenda.uptime))

theorem ahead_enact (ahead : s.agenda.Ahead) (act : Act) : (s.enact act).agenda.Ahead := by
  obtain ⟨log, run⟩ := s.reaches_enact act
  exact (run.weaken fun _ _ => World.simulated_any).ahead ahead

theorem Alike.enactAside (alike : s.Alike t) (aside : act.isAside = true) :
    (s.enact act).Alike t := by
  cases act with
  | operate o =>
      cases o with
      | startPolling =>
          have outcomes : Desk.AlikeOutcomes (s.desk, [.startPolling]) (t.desk, []) :=
            ⟨alike.desk, rfl⟩
          exact alike.take outcomes
      | stopPolling =>
          have outcomes : Desk.AlikeOutcomes (s.desk, [.stopPolling]) (t.desk, []) :=
            ⟨alike.desk, rfl⟩
          exact alike.take outcomes
      | startup | load | save | toggle | clear | askStatus | exportConfig | importConfig | edit
      | put => cases aside
  | counter key value =>
      have engine : (s.agenda.engine.setCounter key value).Alike t.agenda.engine :=
        { alike.agenda.engine with }
      exact ⟨alike.desk, alike.agenda.withEngine engine⟩
  | uptime | clock => exact ⟨alike.desk, { alike.agenda with }⟩
  | runReady | process | settle | advance | run | offline => cases aside

theorem Alike.enact (alike : s.Alike t) (ahead : s.agenda.Ahead) (ahead' : t.agenda.Ahead)
    (main : act.isAside = false) : (s.enact act).Alike (t.enact act) := by
  cases act with
  | operate o => exact alike.operate o
  | runReady => exact alike.runReady
  | process => exact alike.process
  | settle => exact alike.settle
  | advance ms => exact alike.advance ahead ahead' ms
  | run ms => exact alike.run ahead ahead' ms
  | offline offline =>
      have engine : Engine.Alike { s.agenda.engine with offline }
          { t.agenda.engine with offline } :=
        { alike.agenda.engine with offline := rfl }
      exact ⟨alike.desk, alike.agenda.withEngine engine⟩
  | counter | uptime | clock => cases main

def enactAll (s : Station) (acts : List Act) : Station :=
  acts.foldl enact s

/-- Stations that are alike, and at which nothing is overdue. -/
structure Parallel (s t : Station) : Prop where
  alike : s.Alike t
  ahead : s.agenda.Ahead
  ahead' : t.agenda.Ahead

theorem Parallel.enactAll (parallel : s.Parallel t) {acts acts' : List Act}
    (same : acts.filter (!·.isAside) = acts'.filter (!·.isAside)) :
    (s.enactAll acts).Parallel (t.enactAll acts') := by
  refine foldl_related (R := Parallel) ?_ ?_ ?_ ?_ same parallel
  · exact fun ⟨alike, ahead, ahead'⟩ => ⟨alike.symm, ahead', ahead⟩
  · exact fun first second => ⟨first.alike.trans second.alike, first.ahead, second.ahead'⟩
  · exact fun aside ⟨alike, ahead, ahead'⟩ =>
      ⟨alike.enactAside aside, ahead_enact ahead _, ahead'⟩
  · exact fun main ⟨alike, ahead, ahead'⟩ =>
      ⟨alike.enact ahead ahead' main, ahead_enact ahead _, ahead_enact ahead' _⟩

end Station

/-- Polling does not interfere with the rest of the console. Two consoles over the same engine,
which answers after any latency, differ in the interval and the policy of polling and in what their
charts hold. To both of them the same is done, and to each whatever it takes to start and stop
polling in between. Then they have the same configuration and form, believe the engine to be in the
same state, have a toggle under way or not, and show the same alerts, raised at the same moments. -/
theorem polling_interferes_with_nothing (form : Form) {options options' : Options}
    (engine : Engine) (latency : Nat) (clock clock' : String) {acts acts' : List Act}
    (lifetime : options.ttl = options'.ttl)
    (same : acts.filter (!·.isAside) = acts'.filter (!·.isAside)) :
    let s := (Station.opened form options engine latency clock).enactAll acts
    let t := (Station.opened form options' engine latency clock').enactAll acts'
    s.agenda.now = t.agenda.now ∧ s.desk.config = t.desk.config ∧ s.desk.form = t.desk.form ∧
      s.desk.state = t.desk.state ∧ s.desk.pending = t.desk.pending ∧
      s.desk.alerts.visible = t.desk.alerts.visible := by
  intro s t
  have opened : (Station.opened form options engine latency clock).Parallel
      (.opened form options' engine latency clock') := by
    refine ⟨⟨?_, ?_⟩, Station.ahead_opened .., Station.ahead_opened ..⟩
    · rw [Station.desk_opened, Station.desk_opened, lifetime]
      exact ⟨rfl, rfl, rfl, rfl, rfl⟩
    · rw [Station.agenda_opened, Station.agenda_opened]
      exact ⟨.nil, .nil, rfl, rfl, rfl, rfl, .refl _, rfl, fun _ _ => rfl⟩
  obtain ⟨desk, agenda⟩ := (opened.enactAll same).alike
  exact ⟨agenda.now, desk.config, desk.form, desk.state, desk.pending,
    congrArg AlertBoard.visible desk.alerts⟩

/-- A start that is asked for while the console polls takes as long as one without polling, and
raises the same alert at the same moment. -/
theorem start_while_polling :
    let engine : Engine := { config := .ofList [("Iface", .text "lo")] }
    let s := (Station.opened .empty { interval := 10 } engine 30 "12:00:00").enactAll
      [.operate .startPolling, .run 5, .operate .toggle, .run 40, .operate .stopPolling]
    s.agenda.now = 45 ∧ s.desk.state = .running ∧ s.desk.pending = false ∧
      s.desk.alerts.visible = [⟨0, .success, "System started", 35⟩] := by
  intro engine s
  let calm : List Act := [.run 5, .operate .toggle, .run 40]
  have same : s.agenda.now = _ ∧ _ := polling_interferes_with_nothing .empty engine 30 "12:00:00"
    "12:00:00" (rfl : ({ interval := 10 } : Options).ttl = ({} : Options).ttl)
    (rfl : _ = calm.filter (!·.isAside))
  obtain ⟨now, -, -, state, pending, visible⟩ := same
  rw [now, state, pending, visible]
  decide +kernel

end EngineConsole
