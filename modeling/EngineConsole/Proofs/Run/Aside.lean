import EngineConsole.Proofs.Run.VirtualTime

/-!
# Work on the side

Polling and the fetching of counters go on beside everything else. Two agendas are alike when they
differ in nothing but that: in what there is of poll timers, of fetches and of counters, and in the
settings that only polling reads. Work on the side then leaves an agenda like any other that it was
like before, and any other piece of work keeps two agendas alike.
-/

set_option autoImplicit false

namespace EngineConsole

/-- Polling, and fetching counters. -/
def Job.isAside : Job → Bool
  | .begin r _ => r = .fetchStats
  | .proceed r _ _ => r = .fetchStats
  | .serve r _ => r = .fetchStats
  | .expiry _ _ => false
  | .expired _ => false
  | .pollBegin _ => true
  | .pollTick _ _ => true

/-- Completions of which nothing comes but that something is shown. -/
def Completion.isAside : Completion → Bool
  | .statsFetched _ => true
  | .engineStatus (.ok _) => true
  | _ => false

def Effect.isAside : Effect → Bool
  | .show _ => true
  | .send r => r = .fetchStats
  | .expireAfter _ _ => false
  | .startPolling => true
  | .stopPolling => true

/-- Folds over lists that agree but for what is aside lead to related states, if that is neither
here nor there. -/
theorem foldl_related {σ α : Type} {R : σ → σ → Prop} {f : σ → α → σ} {aside : α → Bool}
    (symm : ∀ {s t}, R s t → R t s) (trans : ∀ {s t u}, R s t → R t u → R s u)
    (skip : ∀ {s t x}, aside x = true → R s t → R (f s x) t)
    (step : ∀ {s t x}, aside x = false → R s t → R (f s x) (f t x))
    {l l' : List α} (same : l.filter (!aside ·) = l'.filter (!aside ·)) {s t : σ}
    (related : R s t) : R (l.foldl f s) (l'.foldl f t) := by
  have one (l : List α) :
      ∀ {s t : σ}, R s t → R (l.foldl f s) ((l.filter (!aside ·)).foldl f t) := by
    induction l with
    | nil => exact id
    | cons x rest ih =>
        intro s t related
        cases kind : aside x with
        | true =>
            rw [List.filter_cons_of_neg (by simp [kind])]
            exact ih (skip kind related)
        | false =>
            rw [List.filter_cons_of_pos (by simp [kind])]
            exact ih (step kind related)
  have left := one l related
  rw [same] at left
  exact trans left (symm (one l' (trans (symm related) related)))

/-! ## Engines -/

/-- Engines that differ in nothing but their counters, and in what they remember of requests. -/
structure Engine.Alike (e f : Engine) : Prop where
  config : e.config = f.config
  running : e.running = f.running
  offline : e.offline = f.offline

namespace Engine.Alike

variable {e f g : Engine}

theorem refl (e : Engine) : e.Alike e :=
  ⟨rfl, rfl, rfl⟩

theorem symm (alike : e.Alike f) : f.Alike e :=
  ⟨alike.config.symm, alike.running.symm, alike.offline.symm⟩

theorem trans (alike : e.Alike f) (alike' : f.Alike g) : e.Alike g :=
  ⟨alike.config.trans alike'.config, alike.running.trans alike'.running,
    alike.offline.trans alike'.offline⟩

theorem fetch (alike : e.Alike f) (uptime : String) : (e.serve uptime .fetchStats).1.Alike f := by
  unfold serve
  split <;> exact ⟨alike.config, alike.running, alike.offline⟩

private theorem start (alike : e.Alike f) :
    e.start.1.Alike f.start.1 ∧ e.start.2 = f.start.2 := by
  unfold Engine.start
  rw [← alike.running, ← alike.config]
  split
  · exact ⟨alike, rfl⟩
  · split
    · exact ⟨alike, rfl⟩
    · exact ⟨⟨alike.config, rfl, alike.offline⟩, rfl⟩

private theorem stop (alike : e.Alike f) : e.stop.1.Alike f.stop.1 ∧ e.stop.2 = f.stop.2 := by
  unfold Engine.stop
  rw [← alike.running]
  split
  · exact ⟨⟨alike.config, rfl, alike.offline⟩, rfl⟩
  · exact ⟨alike, rfl⟩

/-- Counters aside, engines that are alike have the same to say, and stay alike. -/
theorem serve (alike : e.Alike f) (uptime uptime' : String) {r : Request}
    (other : r ≠ .fetchStats) :
    (e.serve uptime r).1.Alike (f.serve uptime' r).1 ∧
      [(e.serve uptime r).2].filter (!·.isAside) =
        [(f.serve uptime' r).2].filter (!·.isAside) := by
  unfold Engine.serve
  by_cases cut : e.offline = true
  · have cut' : f.offline = true := alike.offline ▸ cut
    rw [if_pos cut, if_pos cut']
    exact ⟨alike, rfl⟩
  · have cut' : ¬f.offline = true := alike.offline ▸ cut
    rw [if_neg cut, if_neg cut']
    cases r with
    | loadConfig =>
        refine ⟨alike, ?_⟩
        dsimp only
        rw [alike.config]
    | saveConfig submitted => exact ⟨⟨rfl, alike.running, alike.offline⟩, rfl⟩
    | fetchStats => exact absurd rfl other
    | clearStats => exact ⟨⟨alike.config, alike.running, alike.offline⟩, rfl⟩
    | start =>
        refine ⟨alike.start.1, ?_⟩
        dsimp only
        rw [alike.start.2]
    | stop =>
        refine ⟨alike.stop.1, ?_⟩
        dsimp only
        rw [alike.stop.2]
    | askStatus => exact ⟨alike, rfl⟩

end Engine.Alike

theorem Engine.isAside_fetch (e : Engine) (uptime : String) :
    (e.serve uptime .fetchStats).2.isAside = true := by
  unfold Engine.serve
  split <;> rfl

theorem Scripted.isAside_fetch {ending : Scripted} {c : Completion}
    (answer : ending.completion? .fetchStats = some c) : c.isAside = true := by
  cases ending with
  | fail | answer => cases answer; rfl
  | crash | engine => cases answer

theorem Script.next_of_ne (s : Script) {kind other : Request.Kind} (ne : other ≠ kind) :
    (s.next kind).2 other = s other := by
  unfold next
  split
  · rfl
  · exact if_neg ne

theorem Script.next_congr {s t : Script} {kind : Request.Kind} (same : s kind = t kind) :
    (s.next kind).1 = (t.next kind).1 ∧ (s.next kind).2 kind = (t.next kind).2 kind := by
  unfold next
  rw [← same]
  split
  next none => exact ⟨rfl, none.trans (same.symm.trans none).symm⟩
  next => exact ⟨rfl, by simp⟩

theorem Request.kind_eq {r : Request} (fetch : r.kind = .fetchStats) : r = .fetchStats := by
  cases r <;> first | rfl | cases fetch

/-! ## Agendas -/

namespace Agenda

/-- Agendas that differ in nothing but the work on the side and what belongs to it. -/
structure Alike (a b : Agenda) : Prop where
  sorted : a.sleeping.Pairwise fun e f => e.1 ≤ f.1
  sorted' : b.sleeping.Pairwise fun e f => e.1 ≤ f.1
  now : a.now = b.now
  ready : a.ready.filter (!·.isAside) = b.ready.filter (!·.isAside)
  sleeping : a.sleeping.filter (!·.2.isAside) = b.sleeping.filter (!·.2.isAside)
  arrived : a.arrived.filter (!·.isAside) = b.arrived.filter (!·.isAside)
  engine : a.engine.Alike b.engine
  latency : a.latency = b.latency
  script : ∀ kind, kind ≠ .fetchStats → a.script kind = b.script kind

namespace Alike

variable {a b c : Agenda} {job : Job} {r : Request}

theorem refl (sorted : a.sleeping.Pairwise fun e f => e.1 ≤ f.1) : a.Alike a :=
  ⟨sorted, sorted, rfl, rfl, rfl, rfl, .refl _, rfl, fun _ _ => rfl⟩

theorem symm (alike : a.Alike b) : b.Alike a where
  sorted := alike.sorted'
  sorted' := alike.sorted
  now := alike.now.symm
  ready := alike.ready.symm
  sleeping := alike.sleeping.symm
  arrived := alike.arrived.symm
  engine := alike.engine.symm
  latency := alike.latency.symm
  script kind other := (alike.script kind other).symm

theorem trans (alike : a.Alike b) (alike' : b.Alike c) : a.Alike c where
  sorted := alike.sorted
  sorted' := alike'.sorted'
  now := alike.now.trans alike'.now
  ready := alike.ready.trans alike'.ready
  sleeping := alike.sleeping.trans alike'.sleeping
  arrived := alike.arrived.trans alike'.arrived
  engine := alike.engine.trans alike'.engine
  latency := alike.latency.trans alike'.latency
  script kind other := (alike.script kind other).trans (alike'.script kind other)

/-! ### Small changes -/

theorem spawn (alike : a.Alike b) (job : Job) : (a.spawn job).Alike (b.spawn job) :=
  { alike with
    ready := by
      simp only [Agenda.spawn, List.filter_append]
      rw [alike.ready] }

theorem spawnAside (alike : a.Alike b) (aside : job.isAside = true) : (a.spawn job).Alike b :=
  { alike with
    ready := by
      rw [← alike.ready]
      simp [Agenda.spawn, aside] }

theorem sleep (alike : a.Alike b) (main : job.isAside = false) {moment moment' : Nat}
    (same : moment = moment') : (a.sleep moment job).Alike (b.sleep moment' job) :=
  { alike with
    sorted := sorted_insertSleeper alike.sorted
    sorted' := sorted_insertSleeper alike.sorted'
    sleeping := by
      have counts : (!job.isAside) = true := by simp [main]
      dsimp only [Agenda.sleep]
      rw [← same, filter_insertSleeper_of_pos alike.sorted counts,
        filter_insertSleeper_of_pos alike.sorted' counts, alike.sleeping] }

theorem sleepAside (alike : a.Alike b) (aside : job.isAside = true) (moment : Nat) :
    (a.sleep moment job).Alike b :=
  { alike with
    sorted := sorted_insertSleeper alike.sorted
    sleeping := (filter_insertSleeper_of_neg (by simp [aside])).trans alike.sleeping }

theorem post (alike : a.Alike b) {d d' : Completion}
    (same : [d].filter (!·.isAside) = [d'].filter (!·.isAside)) : (a.post d).Alike (b.post d') :=
  { alike with
    arrived := by
      simp only [Agenda.post, List.filter_append]
      rw [alike.arrived, same] }

theorem postAside (alike : a.Alike b) {d : Completion} (aside : d.isAside = true) :
    (a.post d).Alike b :=
  { alike with
    arrived := by
      rw [← alike.arrived]
      simp [Agenda.post, aside] }

theorem withEngine (alike : a.Alike b) {e f : Engine} (engine : e.Alike f) :
    { a with engine := e }.Alike { b with engine := f } :=
  { alike with engine }

/-- The end of a request that a poll timer waits for is followed by nothing but polling. -/
theorem releaseAside (alike : a.Alike b) (waiter : Option Nat) : (a.release waiter).Alike b := by
  unfold Agenda.release
  split
  · split
    next timer _ due _ _ =>
      have tick : (Job.pollTick timer due).isAside = true := rfl
      exact { alike.spawnAside tick with }
    next => exact alike
  · exact alike

theorem release (alike : a.Alike b) (waiter : Option Nat) :
    (a.release waiter).Alike (b.release waiter) :=
  ((alike.releaseAside waiter).symm.releaseAside waiter).symm

/-! ### Requests -/

theorem serve (alike : a.Alike b) (other : r ≠ .fetchStats) (waiter : Option Nat) :
    (a.serve r waiter).Alike (b.serve r waiter) := by
  obtain ⟨engine, answer⟩ := alike.engine.serve a.uptime b.uptime other
  exact ((alike.withEngine engine).post answer).release waiter

theorem proceed (alike : a.Alike b) (other : r ≠ .fetchStats) (ending : Scripted)
    (waiter : Option Nat) : (a.proceed r ending waiter).Alike (b.proceed r ending waiter) := by
  unfold Agenda.proceed
  split
  · exact alike.release waiter
  · split
    · exact (alike.post rfl).release waiter
    · have engine : (a.engine.arrive r.endpoint).Alike (b.engine.arrive r.endpoint) :=
        { alike.engine with }
      have arrived := alike.withEngine engine
      have main : (Job.serve r waiter).isAside = false := decide_eq_false other
      dsimp only
      by_cases soon : a.latency = 0
      · have soon' : b.latency = 0 := alike.latency ▸ soon
        rw [if_pos soon, if_pos soon']
        exact arrived.serve other waiter
      · have late' : ¬b.latency = 0 := alike.latency ▸ soon
        rw [if_neg soon, if_neg late']
        exact arrived.sleep main (congrArg₂ _ alike.now alike.latency)

theorem begin (alike : a.Alike b) (other : r ≠ .fetchStats) (waiter : Option Nat) :
    (a.begin r waiter).Alike (b.begin r waiter) := by
  have kind : r.kind ≠ .fetchStats := fun fetch => other (Request.kind_eq fetch)
  obtain ⟨entry, rest⟩ := Script.next_congr (alike.script r.kind kind)
  have script (k : Request.Kind) (counted : k ≠ .fetchStats) :
      (a.script.next r.kind).2 k = (b.script.next r.kind).2 k := by
    by_cases same : k = r.kind
    · exact same ▸ rest
    · rw [Script.next_of_ne _ same, Script.next_of_ne _ same]
      exact alike.script k counted
  have begun : { a with script := (a.script.next r.kind).2, begun := a.begun ++ [r.kind] }.Alike
      { b with script := (b.script.next r.kind).2, begun := b.begun ++ [r.kind] } :=
    { alike with script }
  have main : (Job.proceed r (a.script.next r.kind).1.ending waiter).isAside = false :=
    decide_eq_false other
  unfold Agenda.begin
  dsimp only
  rw [← entry]
  split
  · exact begun.proceed other _ waiter
  · exact begun.sleep main (congrArg (· + _) alike.now)

theorem serveAside (alike : a.Alike b) (waiter : Option Nat) :
    (a.serve .fetchStats waiter).Alike b := by
  have engine : (a.engine.serve a.uptime .fetchStats).1.Alike b.engine :=
    alike.engine.fetch a.uptime
  exact ((alike.withEngine engine).postAside (a.engine.isAside_fetch a.uptime)).releaseAside waiter

theorem proceedAside (alike : a.Alike b) (ending : Scripted) (waiter : Option Nat) :
    (a.proceed .fetchStats ending waiter).Alike b := by
  unfold Agenda.proceed
  split
  · exact alike.releaseAside waiter
  · split
    next c answer => exact (alike.postAside (Scripted.isAside_fetch answer)).releaseAside waiter
    next =>
      have engine : (a.engine.arrive Request.fetchStats.endpoint).Alike b.engine :=
        { alike.engine with }
      have arrived := alike.withEngine engine
      dsimp only
      split
      · exact arrived.serveAside waiter
      · exact arrived.sleepAside rfl _

theorem beginAside (alike : a.Alike b) (waiter : Option Nat) :
    (a.begin .fetchStats waiter).Alike b := by
  have script (k : Request.Kind) (counted : k ≠ .fetchStats) :
      (a.script.next .fetchStats).2 k = b.script k := by
    rw [Script.next_of_ne _ counted]
    exact alike.script k counted
  have begun : Alike { a with
      script := (a.script.next .fetchStats).2, begun := a.begun ++ [.fetchStats] } b :=
    { alike with script }
  unfold Agenda.begin
  dsimp only
  split
  · exact begun.proceedAside _ waiter
  · exact begun.sleepAside rfl _

/-! ### Pieces of work -/

theorem tickAside (alike : a.Alike b) (timer due : Nat) : (a.tick timer due).Alike b := by
  unfold Agenda.tick
  split
  · exact alike.sleepAside rfl due
  · split
    · have spawned (count : Nat) : (a.spawnFetches count).Alike b :=
        { alike with
          ready := by
            rw [← alike.ready]
            simp [spawnFetches, Job.isAside] }
      exact (spawned _).sleepAside rfl _
    · have fetch : (Job.begin .fetchStats (some timer)).isAside = true := rfl
      exact { alike.spawnAside fetch with }

/-- Work on the side leaves no trace. -/
theorem runAside (alike : a.Alike b) (aside : job.isAside = true) : (a.runJob job).Alike b := by
  cases job with
  | begin r waiter =>
      obtain rfl := of_decide_eq_true aside
      exact alike.beginAside waiter
  | proceed r ending waiter =>
      obtain rfl := of_decide_eq_true aside
      exact alike.proceedAside ending waiter
  | serve r waiter =>
      obtain rfl := of_decide_eq_true aside
      exact alike.serveAside waiter
  | expiry | expired => cases aside
  | pollBegin timer =>
      dsimp only [runJob]
      split
      · exact alike
      · exact alike.sleepAside rfl _
  | pollTick timer due => exact alike.tickAside timer due

/-- All other work does the same to agendas that are alike. -/
theorem runJob (alike : a.Alike b) (main : job.isAside = false) :
    (a.runJob job).Alike (b.runJob job) := by
  cases job with
  | begin r waiter => exact alike.begin (of_decide_eq_false main) waiter
  | proceed r ending waiter => exact alike.proceed (of_decide_eq_false main) ending waiter
  | serve r waiter => exact alike.serve (of_decide_eq_false main) waiter
  | expiry ttl id =>
      dsimp only [Agenda.runJob]
      split
      · exact alike.post rfl
      · exact alike.sleep rfl (congrArg (· + _) alike.now)
  | expired id => exact alike.post rfl
  | pollBegin | pollTick => cases main

theorem jobs (alike : a.Alike b) {l l' : List Job}
    (same : l.filter (!·.isAside) = l'.filter (!·.isAside)) :
    (l.foldl Agenda.runJob a).Alike (l'.foldl Agenda.runJob b) := by
  refine foldl_related (R := Alike) symm trans ?_ ?_ same alike
  · exact fun aside alike => alike.runAside aside
  · exact fun main alike => alike.runJob main

/-! ### Effects -/

theorem stopAside (alike : a.Alike b) : a.stopPolling.Alike b := by
  have aside (job : Job) : (!job.isAside && !job.isPoll) = !job.isAside := by
    cases job <;> first | rfl | exact Bool.and_true _
  exact { alike with
    sorted := alike.sorted.sublist List.filter_sublist
    ready := by
      rw [← alike.ready, stopPolling, List.filter_filter]
      simp only [aside]
    sleeping := by
      rw [← alike.sleeping, stopPolling, List.filter_filter]
      simp only [aside] }

theorem startAside (alike : a.Alike b) : a.startPolling.Alike b := by
  have first : (Job.pollBegin a.started).isAside = true := rfl
  exact { alike.stopAside.spawnAside first with }

theorem effects (alike : a.Alike b) {l l' : List Effect}
    (same : l.filter (!·.isAside) = l'.filter (!·.isAside)) :
    (l.foldl Agenda.undertake a).Alike (l'.foldl Agenda.undertake b) := by
  refine foldl_related (R := Alike) symm trans ?_ ?_ same alike
  · intro a b e aside alike
    cases e with
    | «show» _ => exact alike
    | send r => exact alike.spawnAside aside
    | expireAfter => cases aside
    | startPolling => exact alike.startAside
    | stopPolling => exact alike.stopAside
  · intro a b e main alike
    cases e with
    | send | expireAfter => exact alike.spawn _
    | «show» | startPolling | stopPolling => cases main

end Alike

/-! ## Rounds -/

variable {a b : Agenda}

/-- Nothing is ready but work on the side. -/
def Resting (a : Agenda) : Prop :=
  a.ready.filter (!·.isAside) = []

/-- Running work makes nothing ready but work on the side. -/
theorem ready_runJob (a : Agenda) (job : Job) :
    (a.runJob job).ready.filter (!·.isAside) = a.ready.filter (!·.isAside) := by
  have progress := a.progress job
  generalize a.runJob job = b at progress ⊢
  cases progress with
  | request asked worked =>
      cases worked with
      | finished engine script begun ended _ _ whole =>
          rw [whole]
          dsimp only
          unfold release
          split
          · split
            · simp [spawn, Job.isAside]
            · rfl
          · rfl
      | asleep engine script begun moment later _ _ _ _ whole => rw [whole]; rfl
  | expires | expiresNow | expired | still | begins | waits => rfl
  | overlaps => simp [sleep, spawnFetches, Job.isAside]
  | fetches => simp [spawn, Job.isAside]

theorem ready_jobs (l : List Job) (a : Agenda) :
    (l.foldl runJob a).ready.filter (!·.isAside) = a.ready.filter (!·.isAside) := by
  induction l generalizing a with
  | nil => rfl
  | cons job rest ih => exact (ih _).trans (a.ready_runJob job)

theorem resting_round (a : Agenda) : a.round.Resting :=
  ready_jobs a.ready { a with ready := [] }

theorem Alike.resting (alike : a.Alike b) (resting : b.Resting) : a.Resting :=
  alike.ready.trans resting

theorem Alike.round (alike : a.Alike b) : a.round.Alike b.round := by
  have started : Alike { a with ready := [] } { b with ready := [] } :=
    { alike with ready := rfl }
  exact started.jobs alike.ready

/-- A round of nothing but work on the side leaves no trace. -/
theorem Alike.roundAside (alike : a.Alike b) (resting : a.Resting) : a.round.Alike b := by
  have started : Alike { a with ready := [] } b :=
    { alike with ready := resting.symm.trans alike.ready }
  have none : a.ready.filter (!·.isAside) = ([] : List Job).filter (!·.isAside) := resting
  exact started.jobs none

theorem Alike.roundsAside (alike : a.Alike b) (resting : a.Resting) (n : Nat) :
    (rounds n a).Alike b := by
  induction n generalizing a with
  | zero => exact alike
  | succ n ih =>
      unfold rounds
      split
      · exact alike
      · exact ih (alike.roundAside resting) a.resting_round

/-- After the first round there is nothing left to do but work on the side. -/
theorem Alike.runReadyAside (alike : a.round.Alike b) : a.runReady.Alike b := by
  unfold runReady rounds
  split
  next idle =>
    have none : a.ready = [] := List.isEmpty_iff.mp idle
    have same : a.round = a := by
      unfold Agenda.round
      rw [none, List.foldl_nil, ← none]
    rwa [same] at alike
  next => exact alike.roundsAside a.resting_round _

theorem Alike.runReady (alike : a.Alike b) : a.runReady.Alike b.runReady :=
  alike.round.runReadyAside.symm.runReadyAside.symm

theorem Alike.runReadyResting (alike : a.Alike b) (resting : a.Resting) : a.runReady.Alike b :=
  (alike.roundAside resting).runReadyAside

theorem resting_runReady (sorted : a.sleeping.Pairwise fun e f => e.1 ≤ f.1) :
    a.runReady.Resting :=
  (Alike.refl sorted).round.runReadyAside.resting a.resting_round

/-! ## Waking -/

theorem takeWhile_eq_filter {moment : Nat} {l : List (Nat × Job)}
    (sorted : l.Pairwise fun e f => e.1 ≤ f.1) :
    (l.takeWhile fun e => e.1 ≤ moment) = l.filter fun e => e.1 ≤ moment := by
  induction l with
  | nil => rfl
  | cons e rest ih =>
      obtain ⟨first, sorted⟩ := List.pairwise_cons.mp sorted
      by_cases due : e.1 ≤ moment
      · rw [List.takeWhile_cons_of_pos (by simpa using due),
          List.filter_cons_of_pos (by simpa using due), ih sorted]
      · rw [List.takeWhile_cons_of_neg (by simpa using due),
          List.filter_cons_of_neg (by simpa using due)]
        refine (List.filter_eq_nil_iff.mpr fun f member => ?_).symm
        simpa using (Nat.lt_of_not_le due).trans_le (first f member)

theorem dropWhile_eq_filter {moment : Nat} {l : List (Nat × Job)}
    (sorted : l.Pairwise fun e f => e.1 ≤ f.1) :
    (l.dropWhile fun e => e.1 ≤ moment) = l.filter fun e => moment < e.1 := by
  induction l with
  | nil => rfl
  | cons e rest ih =>
      obtain ⟨first, sorted⟩ := List.pairwise_cons.mp sorted
      by_cases due : e.1 ≤ moment
      · rw [List.dropWhile_cons_of_pos (by simpa using due),
          List.filter_cons_of_neg (by simpa using due), ih sorted]
      · have late := Nat.lt_of_not_le due
        rw [List.dropWhile_cons_of_neg (by simpa using due)]
        refine (List.filter_eq_self.mpr fun f member => ?_).symm
        rcases List.mem_cons.mp member with rfl | old
        · simpa using late
        · simpa using late.trans_le (first f old)

theorem ready_wakeAt (moment : Nat) (sorted : a.sleeping.Pairwise fun e f => e.1 ≤ f.1) :
    (a.wakeAt moment).ready.filter (!·.isAside) = a.ready.filter (!·.isAside) ++
      ((a.sleeping.filter (!·.2.isAside)).filter fun e => e.1 ≤ moment).map (·.2) := by
  rw [wakeAt, takeWhile_eq_filter sorted, List.filter_append, List.filter_map, List.filter_comm]
  rfl

theorem sleeping_wakeAt (moment : Nat) (sorted : a.sleeping.Pairwise fun e f => e.1 ≤ f.1) :
    (a.wakeAt moment).sleeping.filter (!·.2.isAside) =
      (a.sleeping.filter (!·.2.isAside)).filter fun e => moment < e.1 := by
  rw [wakeAt, dropWhile_eq_filter sorted, List.filter_comm]

theorem Alike.wakeAt (alike : a.Alike b) (moment : Nat) :
    (a.wakeAt moment).Alike (b.wakeAt moment) :=
  { alike with
    sorted := alike.sorted.sublist (List.dropWhile_sublist _)
    sorted' := alike.sorted'.sublist (List.dropWhile_sublist _)
    now := rfl
    ready := by
      rw [ready_wakeAt moment alike.sorted, ready_wakeAt moment alike.sorted', alike.ready,
        alike.sleeping]
    sleeping := by
      rw [sleeping_wakeAt moment alike.sorted, sleeping_wakeAt moment alike.sorted',
        alike.sleeping] }

end Agenda

end EngineConsole
