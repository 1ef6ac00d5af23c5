import EngineConsole.Proofs.Run.Basic
import Mathlib.Algebra.Order.Group.Multiset

/-!
# What a piece of work comes to

A request is under way from the moment it is sent until it is over. Running a piece of work ends a
request, keeps it under way, or has nothing to do with one; nothing else can happen to requests,
and the engine takes part only where it answers.
-/

set_option autoImplicit false

namespace EngineConsole

def Job.request? : Job → Option Request
  | .begin r _ => some r
  | .proceed r _ _ => some r
  | .serve r _ => some r
  | .expiry _ _ => none
  | .expired _ => none
  | .pollBegin _ => none
  | .pollTick _ _ => none

namespace Agenda

variable {a : Agenda} {job : Job}

def jobs (a : Agenda) : List Job :=
  a.ready ++ a.sleeping.map (·.2)

def underway (a : Agenda) : Multiset Request :=
  (a.jobs.filterMap Job.request? : List Request)

/-- How the request of a piece of work is going to end. -/
def ending (a : Agenda) : Job → Scripted
  | .begin r _ => (a.script.next r.kind).1.ending
  | .proceed _ ending _ => ending
  | _ => .engine

/-- The request that dies when a piece of work is run. -/
def crashed? (a : Agenda) : Job → Option Request
  | .begin r _ =>
    let entry := (a.script.next r.kind).1
    if entry.delay = 0 ∧ entry.ending = .crash then some r else none
  | .proceed r ending _ => if ending = .crash then some r else none
  | _ => none

def fetches (a : Agenda) : Job → Nat
  | .pollTick _ due =>
    if a.now < due then 0
    else
      match a.overlap with
      | .allow => (a.now - due) / a.interval + 1
      | .serialize => 1
  | _ => 0

/-! ## All the work there is -/

/-- All work, in no order. -/
def work (a : Agenda) : Multiset Job :=
  a.jobs

theorem work_eq (a : Agenda) :
    a.work = (a.ready : Multiset Job) + (a.sleeping.map (·.2) : List Job) := rfl

theorem insertSleeper_perm (moment : Nat) (job : Job) (l : List (Nat × Job)) :
    (insertSleeper moment job l).Perm ((moment, job) :: l) := by
  induction l with
  | nil => exact .refl _
  | cons e rest ih =>
      obtain ⟨m, other⟩ := e
      unfold insertSleeper
      split
      · exact (ih.cons _).trans (.swap _ _ _)
      · exact .refl _

theorem work_of_ready {a b : Agenda} (extra : List Job) (ready : b.ready = a.ready ++ extra)
    (sleeping : b.sleeping = a.sleeping) : b.work = a.work + (extra : Multiset Job) := by
  rw [work_eq, work_eq, ready, sleeping, ← Multiset.coe_add]
  exact add_right_comm _ _ _

theorem work_spawn (a : Agenda) (job : Job) : (a.spawn job).work = a.work + {job} :=
  work_of_ready [job] rfl rfl

theorem work_sleep (a : Agenda) (moment : Nat) (job : Job) :
    (a.sleep moment job).work = a.work + {job} := by
  have inserted : ((a.sleep moment job).sleeping.map (·.2) : Multiset Job) =
      (a.sleeping.map (·.2) : List Job) + {job} := by
    refine (Multiset.coe_eq_coe.mpr ((insertSleeper_perm moment job a.sleeping).map (·.2))).trans ?_
    rw [List.map_cons, ← Multiset.cons_coe, ← Multiset.singleton_add]
    exact add_comm _ _
  rw [work_eq, work_eq, inserted]
  exact (add_assoc _ _ _).symm

theorem work_taken {before after : List Job} (member : a.ready = before ++ job :: after) :
    a.work = { a with ready := before ++ after }.work + {job} := by
  have moved : (a.ready : Multiset Job) =
      ((before ++ after : List Job) : Multiset Job) + {job} := by
    rw [member]
    exact Multiset.coe_eq_coe.mpr
      (List.perm_middle.trans (List.perm_append_singleton job (before ++ after)).symm)
  rw [work_eq, work_eq, moved]
  exact add_right_comm _ _ _

theorem work_wakeAt (a : Agenda) (moment : Nat) : (a.wakeAt moment).work = a.work := by
  have parts := congrArg (List.map fun e : Nat × Job => e.2)
    (List.takeWhile_append_dropWhile (p := fun e => decide (e.1 ≤ moment)) (l := a.sleeping))
  rw [work_eq, work_eq, ← parts, List.map_append, wakeAt, ← Multiset.coe_add, ← Multiset.coe_add]
  exact add_assoc _ _ _

theorem work_stopPolling (a : Agenda) :
    a.stopPolling.work = a.work.filter fun j => !j.isPoll := by
  rw [work_eq, work_eq, Multiset.filter_add, Multiset.filter_coe, Multiset.filter_coe,
    List.filter_map]
  simp [stopPolling, Function.comp_def]

theorem filterMap_singleton {β : Type} (f : Job → Option β) (job : Job) :
    ({job} : Multiset Job).filterMap f = ((f job).toList : Multiset β) := by
  cases asked : f job <;> simp [← Multiset.cons_zero, asked]

/-- The agenda with fetches that nobody waits for. -/
def spawnFetches (a : Agenda) (count : Nat) : Agenda :=
  { a with ready := a.ready ++ List.replicate count (.begin .fetchStats none) }

section

variable {other : Job}

theorem mem_jobs : job ∈ a.jobs ↔ job ∈ a.ready ∨ ∃ moment, (moment, job) ∈ a.sleeping := by
  simp [jobs]

theorem mem_jobs_spawn : other ∈ (a.spawn job).jobs ↔ other ∈ a.jobs ∨ other = job := by
  simp only [mem_jobs, spawn, List.mem_append, List.mem_singleton]
  exact or_right_comm

theorem mem_jobs_sleep {moment : Nat} :
    other ∈ (a.sleep moment job).jobs ↔ other ∈ a.jobs ∨ other = job := by
  have inserted (e : Nat × Job) : e ∈ insertSleeper moment job a.sleeping ↔
      e ∈ a.sleeping ∨ e = (moment, job) := by
    rw [(insertSleeper_perm moment job a.sleeping).mem_iff, List.mem_cons]
    exact or_comm
  simp only [mem_jobs, sleep, inserted, Prod.mk.injEq, exists_or, exists_eq_left, or_assoc]

theorem mem_jobs_spawnFetches {count : Nat} (member : job ∈ (a.spawnFetches count).jobs) :
    job ∈ a.jobs ∨ job = .begin .fetchStats none := by
  rcases mem_jobs.mp member with ready | sleeping
  · rcases List.mem_append.mp ready with old | new
    · exact .inl (mem_jobs.mpr (.inl old))
    · exact .inr (List.eq_of_mem_replicate new)
  · exact .inl (mem_jobs.mpr (.inr sleeping))

theorem mem_jobs_taken {before after : List Job} (member : a.ready = before ++ job :: after) :
    other ∈ a.jobs ↔ other ∈ ({ a with ready := before ++ after } : Agenda).jobs ∨ other = job := by
  change other ∈ a.work ↔ _
  rw [work_taken member, Multiset.mem_add, Multiset.mem_singleton]
  rfl

theorem mem_jobs_wakeAt {moment : Nat} : job ∈ (a.wakeAt moment).jobs ↔ job ∈ a.jobs := by
  change job ∈ (a.wakeAt moment).work ↔ job ∈ a.work
  rw [work_wakeAt]

theorem mem_jobs_stopPolling :
    job ∈ a.stopPolling.jobs ↔ job ∈ a.jobs ∧ (!job.isPoll) = true := by
  change job ∈ a.stopPolling.work ↔ job ∈ a.work ∧ _
  rw [work_stopPolling, Multiset.mem_filter]

end

/-! ## Requests under way -/

theorem mem_underway {r : Request} :
    r ∈ a.underway ↔ ∃ job ∈ a.jobs, job.request? = some r := by
  simp [underway]

theorem underway_eq (a : Agenda) : a.underway = a.work.filterMap Job.request? := rfl

theorem underway_of_ready {a b : Agenda} (extra : List Job) (ready : b.ready = a.ready ++ extra)
    (sleeping : b.sleeping = a.sleeping) :
    b.underway = a.underway + (extra.filterMap Job.request? : List Request) := by
  rw [underway_eq, underway_eq, work_of_ready extra ready sleeping, Multiset.filterMap_add]
  rfl

theorem underway_spawn (a : Agenda) (job : Job) :
    (a.spawn job).underway = a.underway + (job.request?.toList : List Request) := by
  rw [underway_eq, underway_eq, work_spawn, Multiset.filterMap_add, filterMap_singleton]

theorem underway_sleep (a : Agenda) (moment : Nat) (job : Job) :
    (a.sleep moment job).underway = a.underway + (job.request?.toList : List Request) := by
  rw [underway_eq, underway_eq, work_sleep, Multiset.filterMap_add, filterMap_singleton]

@[simp] theorem underway_post (a : Agenda) (c : Completion) :
    (a.post c).underway = a.underway := rfl

/-- The tick that a released timer goes on with is no request. -/
@[simp] theorem underway_release (a : Agenda) (waiter : Option Nat) :
    (a.release waiter).underway = a.underway := by
  unfold release
  split
  next timer _ due _ =>
    split
    · exact (underway_of_ready (a := a) [.pollTick timer due] (by rfl) (by rfl)).trans (add_zero _)
    · rfl
  next => rfl

@[simp] theorem arrived_release (a : Agenda) (waiter : Option Nat) :
    (a.release waiter).arrived = a.arrived := by
  unfold release
  split
  · split <;> rfl
  · rfl

@[simp] theorem engine_release (a : Agenda) (waiter : Option Nat) :
    (a.release waiter).engine = a.engine := by
  unfold release
  split
  · split <;> rfl
  · rfl

/-! ## The outcomes of work -/

/-- What running a piece of work leads to, from an agenda on which it is no longer ready. -/
inductive Ran (a : Agenda) (job : Job) (b : Agenda) : Prop where
  | served {r : Request} {seen : List Endpoint} :
      job.request? = some r → a.crashed? job = none → (a.ending job).completion? r = none →
      b.engine = (Engine.serve { a.engine with seen } a.uptime r).1 →
      b.arrived = a.arrived ++ [(Engine.serve { a.engine with seen } a.uptime r).2] →
      b.underway = a.underway → Ran a job b
  | scripted {r : Request} {c : Completion} :
      job.request? = some r → a.crashed? job = none → (a.ending job).completion? r = some c →
      b.engine = a.engine → b.arrived = a.arrived ++ [c] → b.underway = a.underway → Ran a job b
  | kept {r : Request} {seen : List Endpoint} :
      job.request? = some r → a.crashed? job = none →
      b.engine = { a.engine with seen } → b.arrived = a.arrived → b.underway = a.underway + {r} →
      Ran a job b
  | crashed {r : Request} :
      job.request? = some r → a.crashed? job = some r →
      b.engine = a.engine → b.arrived = a.arrived → b.underway = a.underway → Ran a job b
  | expired {id : Nat} :
      job.request? = none → a.crashed? job = none → a.fetches job = 0 →
      b.engine = a.engine → b.arrived = a.arrived ++ [.alertExpired id] → b.underway = a.underway →
      Ran a job b
  | idle :
      job.request? = none → a.crashed? job = none →
      b.engine = a.engine → b.arrived = a.arrived →
      b.underway = a.underway + Multiset.replicate (a.fetches job) .fetchStats → Ran a job b

private theorem engine_serve (a : Agenda) (r : Request) (waiter : Option Nat) :
    (a.serve r waiter).engine = (a.engine.serve a.uptime r).1 := by
  simp [serve, post]

theorem arrived_serve (a : Agenda) (r : Request) (waiter : Option Nat) :
    (a.serve r waiter).arrived = a.arrived ++ [(a.engine.serve a.uptime r).2] := by
  simp [serve, post]

private theorem underway_serve (a : Agenda) (r : Request) (waiter : Option Nat) :
    (a.serve r waiter).underway = a.underway := by
  rw [serve, underway_release, underway_post]
  rfl

private theorem ran_proceed (a : Agenda) (r : Request) (ending : Scripted) (waiter : Option Nat) :
    Ran a (.proceed r ending waiter) (a.proceed r ending waiter) := by
  unfold proceed
  by_cases dies : ending = .crash
  · rw [if_pos dies]
    exact .crashed (r := r) rfl (if_pos dies) (engine_release _ _) (arrived_release _ _)
      (underway_release _ _)
  · have lives : a.crashed? (.proceed r ending waiter) = none := if_neg dies
    rw [if_neg dies]
    cases answer : ending.completion? r with
    | some c =>
        exact .scripted (r := r) rfl lives answer (engine_release _ _) (arrived_release _ _)
          (underway_release _ _)
    | none =>
        dsimp only
        split
        · exact .served (r := r) rfl lives answer (engine_serve _ _ _) (arrived_serve _ _ _)
            (underway_serve _ _ _)
        · refine .kept (r := r) rfl lives rfl rfl ?_
          rw [underway_sleep]
          rfl

/-- Without a delay the request goes on at once, on an agenda that differs in what is left of the
script. -/
private theorem ran_begin (a : Agenda) (r : Request) (waiter : Option Nat) :
    Ran a (.begin r waiter) (a.begin r waiter) := by
  unfold begin
  cases next : a.script.next r.kind with
  | mk entry script =>
    have how : a.ending (.begin r waiter) = entry.ending := by simp [ending, next]
    dsimp only
    split
    next soon =>
      have dying : a.crashed? (.begin r waiter) = a.crashed? (.proceed r entry.ending waiter) := by
        simp [crashed?, next, soon]
      cases ran_proceed { a with script, begun := a.begun ++ [r.kind] } r entry.ending waiter with
      | served asked alive silent engine arrived under =>
          exact .served asked (dying.trans alive) (how ▸ silent) engine arrived under
      | scripted asked alive answer engine arrived under =>
          exact .scripted asked (dying.trans alive) (how ▸ answer) engine arrived under
      | kept asked alive engine arrived under =>
          exact .kept asked (dying.trans alive) engine arrived under
      | crashed asked dead engine arrived under =>
          exact .crashed asked (dying.trans dead) engine arrived under
      | expired asked => cases asked
      | idle asked => cases asked
    next later =>
      have alive : a.crashed? (.begin r waiter) = none := by simp [crashed?, next, later]
      refine .kept (r := r) rfl alive rfl rfl ?_
      rw [underway_sleep]
      rfl

private theorem ran_tick (a : Agenda) (timer due : Nat) :
    Ran a (.pollTick timer due) (a.tick timer due) := by
  unfold tick
  split
  next early =>
    refine .idle rfl rfl rfl rfl ?_
    rw [underway_sleep]
    simp [fetches, early, Job.request?]
  next late =>
    cases policy : a.overlap with
    | allow =>
        refine .idle rfl rfl rfl rfl ?_
        dsimp only
        rw [underway_sleep]
        refine (congrArg (· + _)
          (underway_of_ready (a := a) (List.replicate _ _) (by rfl) (by rfl))).trans ?_
        rw [List.filterMap_replicate_of_some (f := Job.request?) (b := .fetchStats) rfl,
          Multiset.coe_replicate]
        simp only [fetches, late, policy, if_false]
        exact add_zero _
    | serialize =>
        refine .idle rfl rfl rfl rfl ?_
        have spawned := underway_spawn a (.begin .fetchStats (some timer))
        simp only [fetches, late, policy, if_false, Multiset.replicate_one]
        exact spawned

theorem Ran.underway_le {a b : Agenda} {job : Job} (ran : Ran a job b) :
    b.underway ≤ a.underway + (job.request?.toList : List Request) +
      (List.replicate (a.fetches job) .fetchStats : List Request) := by
  cases ran with
  | served _ _ _ _ _ under | scripted _ _ _ _ _ under | crashed _ _ _ _ under
  | expired _ _ _ _ _ under =>
      rw [under, add_assoc]
      exact Multiset.le_add_right _ _
  | kept asked _ _ _ under =>
      rw [under, asked]
      exact Multiset.le_add_right _ _
  | idle asked _ _ _ under =>
      rw [under, asked, Multiset.coe_replicate]
      exact le_of_eq (congrArg (· + _) (add_zero _).symm)

theorem ran (a : Agenda) (job : Job) : Ran a job (a.runJob job) := by
  cases job with
  | begin r waiter => exact ran_begin a r waiter
  | proceed r ending waiter => exact ran_proceed a r ending waiter
  | serve r waiter =>
      exact .served (r := r) rfl rfl rfl (engine_serve _ _ _) (arrived_serve _ _ _)
        (underway_serve _ _ _)
  | expiry ttl id =>
      dsimp only [runJob]
      split
      · exact .expired rfl rfl rfl rfl rfl rfl
      · refine .idle rfl rfl rfl rfl ?_
        rw [underway_sleep]
        rfl
  | expired id => exact .expired rfl rfl rfl rfl rfl rfl
  | pollBegin timer =>
      dsimp only [runJob]
      split
      · exact .idle rfl rfl rfl rfl (by simp [fetches])
      · refine .idle rfl rfl rfl rfl ?_
        rw [underway_sleep]
        rfl
  | pollTick timer due => exact ran_tick a timer due

end Agenda

end EngineConsole
