import EngineConsole.Proofs.Run.Timers
import Mathlib.Data.List.TakeWhile

/-!
# The poll timer

A poll timer that nobody stops or starts again is always in one of few phases: it is about to begin,
its tick waits, its tick is ready, or it waits for its fetch. A step moves it from one phase to
another, or is none of its business.
-/

set_option autoImplicit false

namespace EngineConsole

/-! ## Phases -/

/-- Where a poll timer is in its cycle. A tick that is ready need not be due yet. -/
inductive Phase where
  | beginning
  | ahead (due : Nat)
  | ready (due : Nat)
  /-- It waits for its fetch to end, and then for a moment. -/
  | fetching (next : Nat)

namespace Agenda

variable {a b : Agenda} {job : Job} {timer : Nat}

/-- How many requests a poll timer waits for. -/
def awaited (a : Agenda) (timer : Nat) : Nat :=
  a.work.countP fun job => job.waiter? = some timer

/-- This is all that there is of poll timers: work of one that is ready or asleep, what it waits
for, and how many requests are its own. -/
structure Polls (timer : Nat) (ready : Option Job) (asleep : Option (Nat × Job))
    (waiting : Option (Nat × Nat)) (fetches : Nat) (a : Agenda) : Prop where
  ready : a.ready.filter Job.isPoll = ready.toList
  asleep : a.sleeping.filter (fun e => e.2.isPoll) = asleep.toList
  waiting : a.waiting = waiting
  awaited : a.awaited timer = fetches

/-- The poll timer is in a phase, and there is no other. -/
def At (timer : Nat) : Phase → Agenda → Prop
  | .beginning => Polls timer (some (.pollBegin timer)) none none 0
  | .ahead due => Polls timer none (some (due, .pollTick timer due)) none 0
  | .ready due => Polls timer (some (.pollTick timer due)) none none 0
  | .fetching next => Polls timer none none (some (timer, next)) 1

theorem awaited_add (work : b.work = a.work + {job}) :
    b.awaited timer = a.awaited timer + if job.waiter? = some timer then 1 else 0 := by
  rw [awaited, work, add_comm, Multiset.singleton_add, Multiset.countP_cons]
  rfl

theorem filter_insertSleeper_poll (moment : Nat) (poll : job.isPoll = true) {l : List (Nat × Job)}
    (none : l.filter (fun e => e.2.isPoll) = []) :
    (insertSleeper moment job l).filter (fun e => e.2.isPoll) = [(moment, job)] := by
  induction l with
  | nil => simp [insertSleeper, poll]
  | cons e rest ih =>
      obtain ⟨m, other⟩ := e
      have aside : other.isPoll = false := by
        simpa using List.filter_eq_nil_iff.mp none (m, other) List.mem_cons_self
      have left : rest.filter (fun e => e.2.isPoll) = [] := by
        simpa [aside] using none
      unfold insertSleeper
      split <;> simp [aside, poll, left, ih left]

namespace Polls

variable {ready : Option Job} {asleep : Option (Nat × Job)} {waiting : Option (Nat × Nat)}
  {fetches : Nat}

theorem spawn (polls : a.Polls timer ready asleep waiting fetches) (job : Job)
    (aside : job.isPoll = false) :
    (a.spawn job).Polls timer ready asleep waiting
      (fetches + if job.waiter? = some timer then 1 else 0) where
  ready := by
    rw [← polls.ready]
    exact (List.filter_append ..).trans (by simp [aside])
  asleep := polls.asleep
  waiting := polls.waiting
  awaited := by rw [awaited_add (a.work_spawn job), polls.awaited]

theorem spawnPoll (polls : a.Polls timer none asleep waiting fetches) (job : Job)
    (poll : job.isPoll = true) (free : job.waiter? = none) :
    (a.spawn job).Polls timer (some job) asleep waiting fetches where
  ready := by
    have none : a.ready.filter Job.isPoll = [] := polls.ready
    exact (List.filter_append ..).trans (by simp [poll, none])
  asleep := polls.asleep
  waiting := polls.waiting
  awaited := by simp [awaited_add (a.work_spawn job), polls.awaited, free]

theorem sleep (polls : a.Polls timer ready asleep waiting fetches) (moment : Nat) (job : Job)
    (aside : job.isPoll = false) :
    (a.sleep moment job).Polls timer ready asleep waiting
      (fetches + if job.waiter? = some timer then 1 else 0) where
  ready := polls.ready
  asleep := (filter_insertSleeper_of_neg aside).trans polls.asleep
  waiting := polls.waiting
  awaited := by rw [awaited_add (a.work_sleep moment job), polls.awaited]

theorem sleepPoll (polls : a.Polls timer ready none waiting fetches) (moment : Nat) (job : Job)
    (poll : job.isPoll = true) (free : job.waiter? = none) :
    (a.sleep moment job).Polls timer ready (some (moment, job)) waiting fetches where
  ready := polls.ready
  asleep := filter_insertSleeper_poll moment poll polls.asleep
  waiting := polls.waiting
  awaited := by simp [awaited_add (a.work_sleep moment job), polls.awaited, free]

theorem taken {before after : List Job} (polls : a.Polls timer ready asleep waiting fetches)
    (member : a.ready = before ++ job :: after) (aside : job.isPoll = false) :
    ∃ left, fetches = left + (if job.waiter? = some timer then 1 else 0) ∧
      ({ a with ready := before ++ after } : Agenda).Polls timer ready asleep waiting left := by
  refine ⟨_, ?_, ?_, polls.asleep, polls.waiting, rfl⟩
  · rw [← polls.awaited]
    exact awaited_add (work_taken member)
  · rw [← polls.ready, member, List.filter_append, List.filter_append, List.filter_cons_of_neg
      (by simp [aside])]

theorem takenPoll {before after : List Job} (polls : a.Polls timer ready asleep waiting fetches)
    (member : a.ready = before ++ job :: after) (poll : job.isPoll = true)
    (free : job.waiter? = none) :
    ready = some job ∧
      ({ a with ready := before ++ after } : Agenda).Polls timer none asleep waiting fetches := by
  have all := polls.ready
  rw [member, List.filter_append, List.filter_cons_of_pos poll] at all
  have one : ready = some job ∧ before.filter Job.isPoll = [] ∧ after.filter Job.isPoll = [] := by
    cases ready with
    | none => simp at all
    | some other =>
        have all : before.filter Job.isPoll ++ job :: after.filter Job.isPoll = [other] := all
        obtain ⟨first, rest⟩ | ⟨-, rest⟩ := List.append_eq_singleton_iff.mp all
        · obtain ⟨rfl, last⟩ := List.cons.inj rest
          exact ⟨rfl, first, last⟩
        · cases rest
  refine ⟨one.1, ?_, polls.asleep, polls.waiting, ?_⟩
  · exact (List.filter_append ..).trans (by simp [one.2])
  · rw [← polls.awaited, awaited_add (work_taken member)]
    simp [free]

theorem spawnFetches (polls : a.Polls timer ready asleep waiting fetches) (count : Nat) :
    (a.spawnFetches count).Polls timer ready asleep waiting fetches where
  ready := by
    rw [← polls.ready]
    exact (List.filter_append ..).trans (by simp [Job.isPoll])
  asleep := polls.asleep
  waiting := polls.waiting
  awaited := by
    have work : (a.spawnFetches count).work = a.work + _ := work_of_ready _ rfl rfl
    have none : Multiset.countP (fun job : Job => job.waiter? = some timer)
        (List.replicate count (.begin .fetchStats none) : List Job) = 0 := by
      refine Multiset.countP_eq_zero.mpr fun job member => ?_
      rw [List.eq_of_mem_replicate member]
      exact nofun
    rw [← polls.awaited, Agenda.awaited, work, Multiset.countP_add, none]
    rfl

/-- Other fields do not matter. -/
theorem fields (polls : a.Polls timer ready asleep waiting fetches) (same : b.ready = a.ready)
    (sleeping : b.sleeping = a.sleeping) (waits : b.waiting = a.waiting) :
    b.Polls timer ready asleep waiting fetches := by
  have work : b.work = a.work := by rw [work_eq, work_eq, same, sleeping]
  refine ⟨same ▸ polls.ready, sleeping ▸ polls.asleep, waits.trans polls.waiting, ?_⟩
  exact (congrArg _ work).trans polls.awaited

end Polls

theorem release_other {waiter : Option Nat}
    (held : ∀ other due, a.waiting = some (other, due) → waiter ≠ some other) :
    a.release waiter = a := by
  unfold release
  split
  next waits other due same =>
    rw [if_neg fun first => held other due same (congrArg some first)]
  next => rfl

namespace Polls

variable {ready : Option Job} {asleep : Option (Nat × Job)} {waiting : Option (Nat × Nat)}
  {fetches : Nat}

theorem runAside (polls : a.Polls timer ready asleep waiting fetches) (aside : job.isPoll = false)
    (other : job.waiter? ≠ some timer) (held : ∀ own due, waiting = some (own, due) → own = timer) :
    (a.runJob job).Polls timer ready asleep waiting fetches := by
  have progress := a.progress job
  generalize a.runJob job = b at progress ⊢
  cases progress with
  | request asked worked =>
      cases worked with
      | finished engine script begun ended _ _ whole =>
          have same : a.release job.waiter? = a := by
            refine release_other fun own due waits => ?_
            rwa [held own due (polls.waiting.symm.trans waits)]
          rw [whole, same]
          exact polls.fields rfl rfl rfl
      | asleep engine script begun moment later _ _ asked' waits whole =>
          have slept := polls.sleep moment later (Job.timer_of_request (asked'.trans asked)).2
          rw [waits, if_neg other] at slept
          rw [whole]
          exact slept.fields rfl rfl rfl
  | expires span id => exact polls.sleep (a.now + span) (.expired id) rfl
  | expiresNow | expired => exact polls.fields rfl rfl rfl
  | still | begins | waits | overlaps | fetches => cases aside

end Polls

theorem finishes_taken (a : Agenda) (ready : List Job) (job : Job) :
    ({ a with ready } : Agenda).finishes job = a.finishes job := by
  cases job <;> rfl

end Agenda

/-- The clock can be moved on to a moment without the poll timer being woken. -/
def Phase.Rests (moment : Nat) : Phase → Prop
  | .beginning => False
  | .ahead due => moment < due
  | .ready _ => False
  | .fetching _ => True

/-- How a step moves the poll timer on. -/
inductive Phase.Next (timer : Nat) (a : Agenda) : Move → Phase → Phase → Prop where
  | stays {m : Move} {phase : Phase} :
      (∀ job, m = .work job →
        job.isPoll = false ∧ (job.waiter? = some timer → a.finishes job = false)) →
      (∀ moment, m = .wake moment → phase.Rests moment) → Next timer a m phase phase
  | begins : Next timer a (.work (.pollBegin timer)) .beginning (.ahead (a.now + a.interval))
  | wakes {due : Nat} : Next timer a (.wake due) (.ahead due) (.ready due)
  | waits {due : Nat} :
      a.now < due → Next timer a (.work (.pollTick timer due)) (.ready due) (.ahead due)
  | overlaps {due : Nat} :
      due ≤ a.now → a.overlap = .allow →
      Next timer a (.work (.pollTick timer due)) (.ready due)
        (.ahead (due + ((a.now - due) / a.interval + 1) * a.interval))
  | fetches {due : Nat} :
      due ≤ a.now → a.overlap = .serialize →
      Next timer a (.work (.pollTick timer due)) (.ready due)
        (.fetching (Agenda.nextSerialized a.now due a.interval))
  | ends {job : Job} {next : Nat} :
      job.waiter? = some timer → a.finishes job = true →
      Next timer a (.work job) (.fetching next) (.ready next)

/-- Neither is work run nor the clock moved on. -/
def Move.isIdle : Move → Bool
  | .work _ => false
  | .wake _ => false
  | _ => true

theorem Phase.Next.idle {timer : Nat} {a : Agenda} {m : Move} {phase : Phase}
    (idle : m.isIdle = true) : Phase.Next timer a m phase phase := by
  refine .stays (fun job same => ?_) fun moment same => ?_
  all_goals
    rw [same] at idle
    cases idle

namespace Agenda

variable {a : Agenda} {job : Job} {timer : Nat} {phase : Phase} {before after : List Job}

theorem At.aside (inPhase : At timer phase a) (member : a.ready = before ++ job :: after)
    (aside : job.isPoll = false) (other : job.waiter? ≠ some timer) :
    At timer phase (({ a with ready := before ++ after } : Agenda).runJob job) := by
  have still {ready : Option Job} {asleep : Option (Nat × Job)} {waiting : Option (Nat × Nat)}
      {fetches : Nat} (polls : a.Polls timer ready asleep waiting fetches)
      (held : ∀ own due, waiting = some (own, due) → own = timer) :
      (({ a with ready := before ++ after } : Agenda).runJob job).Polls timer ready asleep waiting
        fetches := by
    obtain ⟨left, rfl, taken⟩ := polls.taken member aside
    rw [if_neg other]
    exact taken.runAside aside other held
  cases phase with
  | beginning | ahead | ready => exact still inPhase nofun
  | fetching next =>
      refine still inPhase ?_
      rintro own due ⟨⟩
      rfl

theorem At.fetch (inPhase : At timer phase a) (member : a.ready = before ++ job :: after)
    (waits : job.waiter? = some timer) :
    ∃ phase', Phase.Next timer a (.work job) phase phase' ∧
      At timer phase' (({ a with ready := before ++ after } : Agenda).runJob job) := by
  have aside : job.isPoll = false := by
    cases job with
    | pollBegin | pollTick => cases waits
    | begin | proceed | serve | expiry | expired => rfl
  obtain ⟨r, asked⟩ : ∃ r, job.request? = some r := by
    cases job with
    | expiry | expired | pollBegin | pollTick => cases waits
    | begin r | proceed r | serve r => exact ⟨r, rfl⟩
  have idle {ready : Option Job} {asleep : Option (Nat × Job)} {waiting : Option (Nat × Nat)}
      (polls : a.Polls timer ready asleep waiting 0) : False := by
    obtain ⟨left, none, -⟩ := polls.taken member aside
    rw [if_pos waits] at none
    omega
  cases phase with
  | beginning | ahead | ready => exact (idle inPhase).elim
  | fetching next =>
      obtain ⟨left, one, taken⟩ := Polls.taken inPhase member aside
      obtain rfl : left = 0 := by
        rw [if_pos waits] at one
        omega
      cases worked (a := { a with ready := before ++ after }) asked with
      | finished engine script begun ended finished _ whole =>
          refine ⟨.ready next, .ends waits ((a.finishes_taken _ job).symm.trans finished), ?_⟩
          have released : ({ a with ready := before ++ after } : Agenda).release job.waiter? =
              { Agenda.spawn { a with ready := before ++ after } (.pollTick timer next) with
                waiting := none } := by
            unfold release
            rw [waits, taken.waiting]
            exact if_pos rfl
          rw [whole, released]
          have spawned := taken.spawnPoll (.pollTick timer next) rfl rfl
          exact ⟨spawned.ready, spawned.asleep, rfl, spawned.awaited⟩
      | asleep engine script begun moment later goesOn _ asked' waits' whole =>
          refine ⟨.fetching next, .stays ?_ nofun, ?_⟩
          · rintro other ⟨⟩
            exact ⟨aside, fun _ => (a.finishes_taken _ job).symm.trans goesOn⟩
          · have slept := taken.sleep moment later (Job.timer_of_request (asked'.trans asked)).2
            rw [waits', if_pos waits] at slept
            rw [whole]
            exact slept.fields rfl rfl rfl

theorem At.poll (inPhase : At timer phase a) (member : a.ready = before ++ job :: after)
    (poll : job.isPoll = true) (interval : a.interval ≠ 0) :
    ∃ phase', Phase.Next timer a (.work job) phase phase' ∧
      At timer phase' (({ a with ready := before ++ after } : Agenda).runJob job) := by
  have free : job.waiter? = none := by
    cases job with
    | pollBegin | pollTick => rfl
    | begin | proceed | serve | expiry | expired => cases poll
  let a' : Agenda := { a with ready := before ++ after }
  have progress := a'.progress job
  change ∃ phase', _ ∧ At timer phase' (a'.runJob job)
  generalize a'.runJob job = b at progress ⊢
  cases phase with
  | ahead | fetching => cases (Polls.takenPoll inPhase member poll free).1
  | beginning =>
      obtain ⟨same, taken⟩ := Polls.takenPoll inPhase member poll free
      obtain rfl := Option.some.inj same
      cases progress with
      | request asked => cases asked
      | still _ zero => exact absurd zero interval
      | begins => exact ⟨_, .begins, taken.sleepPoll _ (.pollTick timer _) rfl rfl⟩
  | ready due =>
      obtain ⟨same, taken⟩ := Polls.takenPoll inPhase member poll free
      obtain rfl := Option.some.inj same
      cases progress with
      | request asked => cases asked
      | waits _ _ early =>
          exact ⟨_, .waits early, taken.sleepPoll due (.pollTick timer due) rfl rfl⟩
      | overlaps _ _ next count late policy count_eq next_eq =>
          subst count_eq next_eq
          exact ⟨_, .overlaps late policy,
            (taken.spawnFetches _).sleepPoll _ (.pollTick timer _) rfl rfl⟩
      | fetches _ _ next late policy next_eq =>
          subst next_eq
          have own : (Job.begin .fetchStats (some timer)).waiter? = some timer := rfl
          have spawned := taken.spawn (.begin .fetchStats (some timer)) rfl
          rw [if_pos own] at spawned
          exact ⟨_, .fetches late policy, spawned.ready, spawned.asleep, rfl, spawned.awaited⟩

/-- The clock goes to the next moment at which anything is woken, or stops before it. -/
theorem At.wake {moment : Nat} (inPhase : At timer phase a) (ahead : a.Ahead) (ready : a.ready = [])
    (next : ∀ e ∈ a.sleeping, moment ≤ e.1) :
    ∃ phase', Phase.Next timer a (.wake moment) phase phase' ∧
      At timer phase' (a.wakeAt moment) := by
  have parts (asleep : Option (Nat × Job))
      (all : a.sleeping.filter (fun e => e.2.isPoll) = asleep.toList) :
      ((a.sleeping.takeWhile fun e => e.1 ≤ moment).filter fun e => e.2.isPoll) ++
        ((a.sleeping.dropWhile fun e => e.1 ≤ moment).filter fun e => e.2.isPoll) =
          asleep.toList := by
    rw [← List.filter_append, List.takeWhile_append_dropWhile, all]
  have woken : (a.wakeAt moment).ready.filter Job.isPoll =
      ((a.sleeping.takeWhile fun e => e.1 ≤ moment).filter fun e => e.2.isPoll).map (·.2) := by
    rw [wakeAt, ready, List.nil_append, List.filter_map]
    rfl
  have awaited : (a.wakeAt moment).awaited timer = a.awaited timer :=
    congrArg _ (a.work_wakeAt moment)
  have other : ∀ job, Move.wake moment = .work job →
      job.isPoll = false ∧ (job.waiter? = some timer → a.finishes job = false) :=
    fun _ same => Move.noConfusion same
  cases phase with
  | beginning | ready =>
      have none := inPhase.ready
      rw [ready] at none
      cases none
  | fetching next =>
      obtain ⟨none, left⟩ := List.append_eq_nil_iff.mp (parts none inPhase.asleep)
      refine ⟨.fetching next, .stays other fun _ _ => trivial, ?_, left, inPhase.waiting,
        awaited.trans inPhase.awaited⟩
      rw [woken, none]
      rfl
  | ahead due =>
      have split := parts (some (due, .pollTick timer due)) inPhase.asleep
      obtain ⟨none, left⟩ | ⟨one, left⟩ := List.append_eq_singleton_iff.mp split
      · have later : moment < due := by
          refine lt_of_mem_dropWhile ahead.sorted (e := (due, .pollTick timer due)) ?_
          exact List.mem_of_mem_filter (left ▸ List.mem_cons_self)
        refine ⟨.ahead due, .stays other ?_, ?_, left, inPhase.waiting,
          awaited.trans inPhase.awaited⟩
        · intro next same
          exact Move.wake.inj same ▸ later
        · rw [woken, none]
          rfl
      · have member : (due, .pollTick timer due) ∈ a.sleeping.takeWhile fun e => e.1 ≤ moment :=
          List.mem_of_mem_filter (one ▸ List.mem_cons_self)
        have early : due ≤ moment := by
          simpa using List.mem_takeWhile_imp member
        obtain rfl : moment = due :=
          Nat.le_antisymm (next _ ((List.takeWhile_prefix _).subset member)) early
        refine ⟨.ready moment, .wakes, ?_, left, inPhase.waiting, awaited.trans inPhase.awaited⟩
        rw [woken, one]
        rfl

theorem At.fields {b : Agenda} (inPhase : At timer phase a) (ready : b.ready = a.ready)
    (sleeping : b.sleeping = a.sleeping) (waiting : b.waiting = a.waiting) : At timer phase b := by
  cases phase <;> exact Polls.fields inPhase ready sleeping waiting

theorem At.startPolling (numbered : a.Numbered) : At a.started .beginning a.startPolling where
  ready := by simp [Agenda.startPolling, Agenda.spawn, Agenda.stopPolling, Job.isPoll]
  asleep := by simp [Agenda.startPolling, Agenda.spawn, Agenda.stopPolling]
  waiting := rfl
  awaited := by
    refine Multiset.countP_eq_zero.mpr fun job member waits => ?_
    rcases mem_jobs_spawn.mp (member : job ∈ (a.stopPolling.spawn (.pollBegin a.started)).jobs)
      with old | rfl
    · have known : job.timer? = some a.started := by
        cases job with
        | begin | proceed | serve => exact waits
        | expiry | expired | pollBegin | pollTick => cases waits
      exact Nat.lt_irrefl _ (numbered.stopPolling.jobs job old a.started known)
    · cases waits

end Agenda

/-! ## Steps -/

/-- Effects that stop the poll timer or start one. -/
def Effect.isTimer : Effect → Bool
  | .startPolling => true
  | .stopPolling => true
  | _ => false

/-- What an operation does to the poll timer. -/
def Operation.timers : Operation → List Effect
  | .startup => [.startPolling]
  | .startPolling => [.startPolling]
  | .stopPolling => [.stopPolling]
  | _ => []

def Move.timers : Move → List Effect
  | .operate o => o.timers
  | _ => []

namespace Desk

variable (desk : Desk) (m : Moment)

theorem timers_operate (o : Operation) :
    (desk.operate m o).2.filter Effect.isTimer = o.timers := by
  cases o with
  | toggle =>
      dsimp only [operate, toggle]
      split <;> rfl
  | clear agreed => cases agreed <;> rfl
  | exportConfig taken => cases taken <;> rfl
  | importConfig file =>
      dsimp only [operate]
      cases Config.import? file <;> rfl
  | startup | load | save | askStatus | startPolling | stopPolling | edit | put => rfl

/-- Nothing that comes back from the background touches the poll timer. -/
theorem timers_handle (c : Completion) : (desk.handle m c).2.filter Effect.isTimer = [] := by
  cases c with
  | configLoaded result =>
      cases result with
      | ok config => rfl
      | error f => cases f <;> rfl
  | statsFetched result =>
      refine List.filter_eq_nil_iff.mpr fun e member => ?_
      obtain ⟨g, text, rfl⟩ | rfl | ⟨call, rfl⟩ := desk.mem_fetched m member <;> exact nofun
  | configSaved _ result | statsCleared result | toggleFinished result | engineStatus result =>
      cases result <;> rfl
  | alertExpired id =>
      dsimp only [handle, expire]
      split <;> rfl

end Desk

namespace Agenda

variable {a : Agenda} {timer : Nat} {phase : Phase}

/-- Effects that leave the poll timer alone spawn work that is not its own, and nothing else. -/
theorem effects_aside {motive : Agenda → Prop} {effects : List Effect}
    (others : effects.filter Effect.isTimer = []) (holds : motive a)
    (spawns : ∀ (a : Agenda) (job : Job), job.isPoll = false → job.waiter? = none →
      motive a → motive (a.spawn job)) : motive (effects.foldl undertake a) := by
  induction effects generalizing a with
  | nil => exact holds
  | cons e rest ih =>
      have aside : ¬e.isTimer = true := List.filter_eq_nil_iff.mp others e List.mem_cons_self
      refine ih (by rwa [List.filter_cons_of_neg aside] at others) ?_
      cases e with
      | «show» x => exact holds
      | send r => exact spawns a (.begin r none) rfl rfl holds
      | expireAfter ttl id => exact spawns a (.expiry ttl id) rfl rfl holds
      | startPolling | stopPolling => exact absurd rfl aside

theorem At.effects (inPhase : At timer phase a) {effects : List Effect}
    (others : effects.filter Effect.isTimer = []) :
    At timer phase (effects.foldl undertake a) := by
  apply effects_aside others inPhase
  intro a job plain free inPhase
  have more {ready : Option Job} {asleep : Option (Nat × Job)} {waiting : Option (Nat × Nat)}
      {fetches : Nat} (polls : a.Polls timer ready asleep waiting fetches) :
      (a.spawn job).Polls timer ready asleep waiting fetches := by
    simpa [free] using polls.spawn job plain
  cases phase <;> exact more inPhase

end Agenda

section

variable {s s' : Station} {m : Move} {timer : Nat}

/-- An operation that starts a poll timer starts the one with the next number. -/
theorem Station.beginning (s : Station) (numbered : s.agenda.Numbered) {o : Operation}
    (starts : o.timers = [.startPolling]) :
    (s.take (s.desk.operate s.moment o)).agenda.At s.agenda.started .beginning := by
  rw [Station.agenda_take]
  cases o with
  | startup =>
      have loading : (s.agenda.spawn (.begin .loadConfig none)).Numbered := numbered.spawn nofun
      have fetching : ((s.agenda.spawn (.begin .loadConfig none)).spawn
          (.begin .fetchStats none)).Numbered := loading.spawn nofun
      exact Agenda.At.startPolling fetching
  | startPolling => exact Agenda.At.startPolling numbered
  | stopPolling | load | save | toggle | clear | askStatus | exportConfig | importConfig | edit
  | put => cases starts

theorem Step.phase {phase : Phase} (step : Step .any s m s') (timely : (Deed.mk s m).Timely)
    (ahead : s.agenda.Ahead) (interval : s.agenda.interval ≠ 0) (kept : m.timers = [])
    (inPhase : s.agenda.At timer phase) :
    ∃ phase', Phase.Next timer s.agenda m phase phase' ∧ s'.agenda.At timer phase' := by
  cases step with
  | operate o =>
      refine ⟨phase, .idle rfl, ?_⟩
      rw [Station.agenda_take]
      exact inPhase.effects ((s.desk.timers_operate s.moment o).trans kept)
  | @handle c rest head =>
      refine ⟨phase, .idle rfl, ?_⟩
      rw [Station.handle, Station.agenda_take]
      have taken : { s.agenda with arrived := rest }.At timer phase := inPhase.fields rfl rfl rfl
      exact taken.effects (Desk.timers_handle _ _ c)
  | @work before after job ready =>
      by_cases poll : job.isPoll = true
      · exact inPhase.poll ready poll interval
      have aside : job.isPoll = false := Bool.eq_false_iff.mpr poll
      by_cases waits : job.waiter? = some timer
      · exact inPhase.fetch ready waits
      · refine ⟨phase, .stays ?_ fun _ same => Move.noConfusion same,
          inPhase.aside ready aside waits⟩
        intro other same
        obtain rfl := Move.work.inj same
        exact ⟨aside, fun own => absurd own waits⟩
  | wake later => exact inPhase.wake ahead timely.1 timely.2
  | outside change =>
      obtain ⟨engine, latency, script, uptime, rfl⟩ := change
      exact ⟨phase, .idle rfl, inPhase.fields rfl rfl rfl⟩

end

end EngineConsole
