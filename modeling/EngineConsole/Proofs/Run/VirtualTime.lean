import EngineConsole.Proofs.Run.Execution
import EngineConsole.Proofs.Run.Simulated

/-!
# Virtual time

Time stands still while any work is ready, and it does not pass over a moment at which work is to be
woken. Work that waits is kept in order of its moments, and all of them are ahead.
-/

set_option autoImplicit false

namespace EngineConsole

/-- The clock is moved on only when no work is ready, and no further than to the next moment at
which work is woken. Completions may be left in the queue meanwhile. -/
def Deed.Timely (d : Deed) : Prop :=
  match d.move with
  | .wake moment => d.before.agenda.ready = [] ∧ ∀ e ∈ d.before.agenda.sleeping, moment ≤ e.1
  | _ => True

def History.Timely (log : History) : Prop :=
  ∀ d ∈ log, d.Timely

/-! ## The end of a request -/

/-- The poll timer that waits for the end of a request. -/
def Job.waiter? : Job → Option Nat
  | .begin _ waiter => waiter
  | .proceed _ _ waiter => waiter
  | .serve _ waiter => waiter
  | _ => none

def Job.isTick : Job → Bool
  | .pollTick _ _ => true
  | _ => false

namespace Agenda

variable {a b : Agenda} {job other : Job}

/-- Whether a request is over as soon as it is through with the delay of its script entry. -/
def endsAtOnce (a : Agenda) (r : Request) (ending : Scripted) : Bool :=
  ending = .crash || (ending.completion? r).isSome || a.latency = 0

/-- Whether running a piece of work is the end of a request. -/
def finishes (a : Agenda) : Job → Bool
  | .begin r _ =>
    let entry := (a.script.next r.kind).1
    entry.delay = 0 && a.endsAtOnce r entry.ending
  | .proceed r ending _ => a.endsAtOnce r ending
  | .serve _ _ => true
  | _ => false

/-- What running a request does to the work there is: the request is over, or it goes to sleep. -/
inductive Worked (a : Agenda) (job : Job) (b : Agenda) : Prop where
  | finished (engine : Engine) (script : Script) (begun : List Request.Kind)
      (ended : List Completion) :
      a.finishes job = true → (∀ c ∈ ended, c.matter? ≠ none) →
      b = { a.release job.waiter? with engine, script, begun, arrived := a.arrived ++ ended } →
      Worked a job b
  | asleep (engine : Engine) (script : Script) (begun : List Request.Kind) (moment : Nat)
      (later : Job) :
      a.finishes job = false → a.now < moment → later.request? = job.request? →
      later.waiter? = job.waiter? → b = { a.sleep moment later with engine, script, begun } →
      Worked a job b

theorem release_with (a : Agenda) (waiter : Option Nat) (engine : Engine) (script : Script)
    (begun : List Request.Kind) (arrived : List Completion) :
    ({ a with engine, script, begun, arrived } : Agenda).release waiter =
      { a.release waiter with engine, script, begun, arrived } := by
  unfold release
  dsimp only
  split
  · split <;> rfl
  · rfl

private theorem matters_of {c : Completion} {r : Request} (matter : c.matter? = some r.matter) :
    ∀ d ∈ [c], d.matter? ≠ none := by
  intro d member
  rw [List.mem_singleton.mp member, matter]
  exact Option.some_ne_none _

private theorem worked_serve (a : Agenda) (r : Request) (waiter : Option Nat) :
    Worked a (.serve r waiter) (a.serve r waiter) := by
  have matter := a.engine.matter_serve a.uptime r
  exact .finished (a.engine.serve a.uptime r).1 a.script a.begun [(a.engine.serve a.uptime r).2]
    rfl (matters_of matter) (a.release_with waiter _ _ _ _)

private theorem worked_proceed (a : Agenda) (r : Request) (ending : Scripted)
    (waiter : Option Nat) : Worked a (.proceed r ending waiter) (a.proceed r ending waiter) := by
  unfold proceed
  by_cases dies : ending = .crash
  · rw [if_pos dies]
    have finished : a.finishes (.proceed r ending waiter) = true := by
      simp [finishes, endsAtOnce, dies]
    refine .finished a.engine a.script a.begun [] finished nofun ?_
    rw [List.append_nil]
    exact a.release_with waiter _ _ _ _
  rw [if_neg dies]
  cases answer : ending.completion? r with
  | some c =>
      have finished : a.finishes (.proceed r ending waiter) = true := by
        simp [finishes, endsAtOnce, answer]
      exact .finished a.engine a.script a.begun [c] finished
        (matters_of (Scripted.matter_completion answer)) (a.release_with waiter _ _ _ _)
  | none =>
      dsimp only
      split
      next soon =>
        have finished : a.finishes (.proceed r ending waiter) = true := by
          simp [finishes, endsAtOnce, soon]
        let engine := a.engine.arrive r.endpoint
        have matter := engine.matter_serve a.uptime r
        exact .finished (engine.serve a.uptime r).1 a.script a.begun
          [(engine.serve a.uptime r).2] finished (matters_of matter) (a.release_with waiter _ _ _ _)
      next late =>
        have goesOn : a.finishes (.proceed r ending waiter) = false := by
          simp [finishes, endsAtOnce, dies, answer, late]
        exact .asleep _ a.script a.begun _ (.serve r waiter) goesOn
          (Nat.lt_add_of_pos_right (Nat.pos_of_ne_zero late)) rfl rfl rfl

private theorem worked_begin (a : Agenda) (r : Request) (waiter : Option Nat) :
    Worked a (.begin r waiter) (a.begin r waiter) := by
  unfold begin
  cases next : a.script.next r.kind with
  | mk entry script =>
      dsimp only
      split
      next soon =>
        have same : a.finishes (.begin r waiter) = a.finishes (.proceed r entry.ending waiter) := by
          simp [finishes, next, soon]
        cases worked_proceed { a with script, begun := a.begun ++ [r.kind] } r entry.ending
          waiter with
        | finished engine script' begun ended finished matters whole =>
            refine .finished engine script' begun ended (same.trans finished) matters
              (whole.trans ?_)
            rw [show ({ a with script, begun := a.begun ++ [r.kind] } : Agenda).release
              (Job.proceed r entry.ending waiter).waiter? = _ from
                a.release_with waiter a.engine script (a.begun ++ [r.kind]) a.arrived]
            rfl
        | asleep engine script' begun moment later goesOn ahead asked waits whole =>
            exact .asleep engine script' begun moment later (same.trans goesOn) ahead asked waits
              whole
      next late =>
        have goesOn : a.finishes (.begin r waiter) = false := by simp [finishes, next, late]
        exact .asleep a.engine script _ _ (.proceed r entry.ending waiter) goesOn
          (Nat.lt_add_of_pos_right (Nat.pos_of_ne_zero late)) rfl rfl rfl

theorem worked {r : Request} (asked : job.request? = some r) : Worked a job (a.runJob job) := by
  cases job with
  | begin r waiter => exact worked_begin a r waiter
  | proceed r ending waiter => exact worked_proceed a r ending waiter
  | serve r waiter => exact worked_serve a r waiter
  | expiry | expired | pollBegin | pollTick => cases asked

/-! ## The course of work -/

/-- What running a piece of work does to the agenda. -/
inductive Progress (a : Agenda) : Job → Agenda → Prop where
  | request {job : Job} {r : Request} {b : Agenda} :
      job.request? = some r → Worked a job b → Progress a job b
  | expires (span id : Nat) :
      span ≠ 0 → Progress a (.expiry span id) (a.sleep (a.now + span) (.expired id))
  | expiresNow (id : Nat) : Progress a (.expiry 0 id) (a.post (.alertExpired id))
  | expired (id : Nat) : Progress a (.expired id) (a.post (.alertExpired id))
  | still (timer : Nat) : a.interval = 0 → Progress a (.pollBegin timer) a
  | begins (timer : Nat) :
      a.interval ≠ 0 →
      Progress a (.pollBegin timer)
        (a.sleep (a.now + a.interval) (.pollTick timer (a.now + a.interval)))
  | waits (timer due : Nat) :
      a.now < due → Progress a (.pollTick timer due) (a.sleep due (.pollTick timer due))
  | overlaps (timer due next count : Nat) :
      due ≤ a.now → a.overlap = .allow → count = (a.now - due) / a.interval + 1 →
      next = due + count * a.interval →
      Progress a (.pollTick timer due) ((a.spawnFetches count).sleep next (.pollTick timer next))
  | fetches (timer due next : Nat) :
      due ≤ a.now → a.overlap = .serialize → next = nextSerialized a.now due a.interval →
      Progress a (.pollTick timer due)
        { a.spawn (.begin .fetchStats (some timer)) with waiting := some (timer, next) }

theorem progress (a : Agenda) (job : Job) : Progress a job (a.runJob job) := by
  cases job with
  | begin r waiter => exact .request rfl (worked rfl)
  | proceed r ending waiter => exact .request rfl (worked rfl)
  | serve r waiter => exact .request rfl (worked rfl)
  | expiry span id =>
      dsimp only [runJob]
      split
      next zero =>
        subst zero
        exact .expiresNow id
      next positive => exact .expires span id positive
  | expired id => exact .expired id
  | pollBegin timer =>
      dsimp only [runJob]
      split
      next zero => exact .still timer zero
      next positive => exact .begins timer positive
  | pollTick timer due =>
      dsimp only [runJob, tick]
      split
      next early => exact .waits timer due early
      next late =>
        have late := Nat.le_of_not_lt late
        split
        next allow => exact .overlaps timer due _ _ late allow rfl rfl
        next serialize => exact .fetches timer due _ late serialize rfl

/-- Running a piece of work leaves the clock, the settings and the numbers of poll timers alone. -/
theorem runJob_frame (a : Agenda) (job : Job) :
    ∃ ready sleeping arrived begun engine script waiting,
      a.runJob job =
        { a with ready, sleeping, arrived, begun, engine, script, waiting } := by
  have released (waiter : Option Nat) :
      ∃ ready waiting, a.release waiter = { a with ready, waiting } := by
    unfold release
    split
    · split <;> exact ⟨_, _, rfl⟩
    · exact ⟨_, _, rfl⟩
  have progress := a.progress job
  generalize a.runJob job = b at progress ⊢
  cases progress with
  | request asked worked =>
      cases worked with
      | finished engine script begun ended _ _ whole =>
          obtain ⟨ready, waiting, same⟩ := released job.waiter?
          rw [same] at whole
          exact ⟨_, _, _, _, _, _, _, whole⟩
      | asleep engine script begun moment later _ _ _ _ whole =>
          exact ⟨_, _, _, _, _, _, _, whole⟩
  | expires | expiresNow | expired | still | begins | waits | overlaps | fetches =>
      exact ⟨_, _, _, _, _, _, _, rfl⟩

/-! ## What is ahead -/

/-- What waits is in order and ahead of the clock. A poll timer without an interval never ticks. -/
structure Ahead (a : Agenda) : Prop where
  sorted : a.sleeping.Pairwise fun e f => e.1 ≤ f.1
  later : ∀ e ∈ a.sleeping, a.now < e.1
  still : a.interval = 0 → a.waiting = none ∧ ∀ job ∈ a.jobs, job.isTick = false

theorem mem_insertSleeper {moment : Nat} {e : Nat × Job} {l : List (Nat × Job)} :
    e ∈ insertSleeper moment job l ↔ e = (moment, job) ∨ e ∈ l := by
  rw [(insertSleeper_perm moment job l).mem_iff, List.mem_cons]

theorem sorted_insertSleeper {moment : Nat} {l : List (Nat × Job)}
    (sorted : l.Pairwise fun e f => e.1 ≤ f.1) :
    (insertSleeper moment job l).Pairwise fun e f => e.1 ≤ f.1 := by
  induction l with
  | nil => exact List.pairwise_singleton _ _
  | cons e rest ih =>
      obtain ⟨m, other⟩ := e
      obtain ⟨first, sorted⟩ := List.pairwise_cons.mp sorted
      unfold insertSleeper
      split
      next before =>
        refine List.pairwise_cons.mpr ⟨fun f member => ?_, ih sorted⟩
        rcases mem_insertSleeper.mp member with rfl | old
        · exact before
        · exact first f old
      next after =>
        refine List.pairwise_cons.mpr ⟨fun f member => ?_, List.pairwise_cons.mpr ⟨first, sorted⟩⟩
        rcases List.mem_cons.mp member with rfl | old
        · exact (Nat.lt_of_not_le after).le
        · exact (Nat.lt_of_not_le after).le.trans (first f old)

theorem insertSleeper_of_lt {moment : Nat} {l : List (Nat × Job)}
    (later : ∀ e ∈ l, moment < e.1) : insertSleeper moment job l = (moment, job) :: l := by
  cases l with
  | nil => rfl
  | cons e rest => exact if_neg (Nat.not_le_of_lt (later e List.mem_cons_self))

theorem filter_insertSleeper_of_neg {p : Nat × Job → Bool} {moment : Nat} {l : List (Nat × Job)}
    (out : p (moment, job) = false) : (insertSleeper moment job l).filter p = l.filter p := by
  induction l with
  | nil => simp [insertSleeper, out]
  | cons e rest ih =>
      obtain ⟨m, other⟩ := e
      unfold insertSleeper
      split
      · rw [List.filter_cons, List.filter_cons, ih]
      · rw [List.filter_cons_of_neg (by simp [out])]

theorem filter_insertSleeper_of_pos {p : Nat × Job → Bool} {moment : Nat} {l : List (Nat × Job)}
    (sorted : l.Pairwise fun e f => e.1 ≤ f.1) (kept : p (moment, job) = true) :
    (insertSleeper moment job l).filter p = insertSleeper moment job (l.filter p) := by
  induction l with
  | nil => simp [insertSleeper, kept]
  | cons e rest ih =>
      obtain ⟨m, other⟩ := e
      obtain ⟨first, sorted⟩ := List.pairwise_cons.mp sorted
      by_cases before : m ≤ moment
      · cases counted : p (m, other) <;> simp [insertSleeper, before, counted, ih sorted]
      · have later : ∀ f ∈ ((m, other) :: rest).filter p, moment < f.1 := by
          intro f member
          have before := Nat.lt_of_not_le before
          rcases List.mem_cons.mp (List.mem_of_mem_filter member) with rfl | old
          · exact before
          · exact before.trans_le (first f old)
        rw [insertSleeper_of_lt later, insertSleeper, if_neg before, List.filter_cons_of_pos kept]

theorem lt_of_mem_dropWhile {moment : Nat} {e : Nat × Job} {l : List (Nat × Job)}
    (sorted : l.Pairwise fun e f => e.1 ≤ f.1)
    (member : e ∈ l.dropWhile fun f => f.1 ≤ moment) : moment < e.1 := by
  induction l with
  | nil => cases member
  | cons f rest ih =>
      obtain ⟨first, sorted⟩ := List.pairwise_cons.mp sorted
      by_cases woken : f.1 ≤ moment
      · rw [List.dropWhile_cons_of_pos (by simpa using woken)] at member
        exact ih sorted member
      · rw [List.dropWhile_cons_of_neg (by simpa using woken)] at member
        rcases List.mem_cons.mp member with rfl | old
        · exact Nat.lt_of_not_le woken
        · exact (Nat.lt_of_not_le woken).trans_le (first e old)

namespace Ahead

theorem within (ahead : a.Ahead) (now : b.now = a.now) (interval : b.interval = a.interval)
    (sleeping : b.sleeping.Sublist a.sleeping) (waiting : b.waiting = a.waiting ∨ b.waiting = none)
    (jobs : ∀ job ∈ b.jobs, job ∈ a.jobs ∨ job.isTick = false) : b.Ahead := by
  refine ⟨ahead.sorted.sublist sleeping, ?_, ?_⟩
  · intro e member
    rw [now]
    exact ahead.later e (sleeping.subset member)
  · intro zero
    obtain ⟨idle, still⟩ := ahead.still (interval ▸ zero)
    refine ⟨waiting.elim (·.trans idle) id, fun job member => ?_⟩
    exact (jobs job member).elim (still job) id

theorem spawn (ahead : a.Ahead) (ticks : job.isTick = true → a.interval ≠ 0) :
    (a.spawn job).Ahead := by
  refine ⟨ahead.sorted, ahead.later, fun zero => ⟨(ahead.still zero).1, fun other member => ?_⟩⟩
  rcases mem_jobs_spawn.mp member with old | rfl
  · exact (ahead.still zero).2 other old
  · exact Bool.eq_false_iff.mpr fun tick => ticks tick zero

theorem sleep {moment : Nat} (ahead : a.Ahead) (later : a.now < moment)
    (ticks : job.isTick = true → a.interval ≠ 0) : (a.sleep moment job).Ahead := by
  refine ⟨sorted_insertSleeper ahead.sorted, ?_, ?_⟩
  · intro e member
    rcases mem_insertSleeper.mp member with rfl | old
    · exact later
    · exact ahead.later e old
  · refine fun zero => ⟨(ahead.still zero).1, fun other member => ?_⟩
    rcases mem_jobs_sleep.mp member with old | rfl
    · exact (ahead.still zero).2 other old
    · exact Bool.eq_false_iff.mpr fun tick => ticks tick zero

theorem release (ahead : a.Ahead) (waiter : Option Nat) : (a.release waiter).Ahead := by
  unfold Agenda.release
  split
  next timer _ due waits =>
    split
    · have ticking : a.interval ≠ 0 := fun zero => by
        rw [(ahead.still zero).1] at waits
        cases waits
      have spawned : (a.spawn (.pollTick timer due)).Ahead := ahead.spawn fun _ => ticking
      exact spawned.within rfl rfl (List.Sublist.refl _) (.inr rfl) fun _ member => .inl member
    · exact ahead
  next => exact ahead

theorem runJob (ahead : a.Ahead) (ticks : job.isTick = true → a.interval ≠ 0) :
    (a.runJob job).Ahead := by
  have progress := a.progress job
  generalize a.runJob job = b at progress ⊢
  cases progress with
  | request asked worked =>
      cases worked with
      | finished engine script begun ended _ _ whole =>
          rw [whole]
          exact (ahead.release job.waiter?).within rfl rfl (List.Sublist.refl _) (.inl rfl)
            fun _ member => .inl member
      | asleep engine script begun moment later _ soon asked' _ whole =>
          have slept : (a.sleep moment later).Ahead := by
            refine ahead.sleep soon fun tick => ?_
            cases later with
            | pollTick => cases asked'.trans asked
            | begin | proceed | serve | expiry | expired | pollBegin => cases tick
          rw [whole]
          exact slept.within rfl rfl (List.Sublist.refl _) (.inl rfl) fun _ member => .inl member
  | expires span id positive =>
      exact ahead.sleep (Nat.lt_add_of_pos_right (Nat.pos_of_ne_zero positive)) nofun
  | expiresNow | expired =>
      exact ahead.within rfl rfl (List.Sublist.refl _) (.inl rfl) fun _ member => .inl member
  | still timer zero => exact ahead
  | begins timer ticking =>
      exact ahead.sleep (Nat.lt_add_of_pos_right (Nat.pos_of_ne_zero ticking)) fun _ => ticking
  | waits timer due early => exact ahead.sleep early fun _ => ticks rfl
  | overlaps timer due next count late _ count_eq next_eq =>
      have ticking := ticks rfl
      have fetching : (a.spawnFetches count).Ahead :=
        ⟨ahead.sorted, ahead.later, fun zero => absurd zero ticking⟩
      refine fetching.sleep ?_ fun _ => ticking
      have left := Nat.div_add_mod (a.now - due) a.interval
      have small := Nat.mod_lt (a.now - due) (Nat.pos_of_ne_zero ticking)
      rw [next_eq, count_eq, Nat.add_mul, Nat.one_mul, Nat.mul_comm]
      change a.now < _
      omega
  | fetches timer due next =>
      exact ⟨ahead.sorted, ahead.later, fun zero => absurd zero (ticks rfl)⟩

theorem stopPolling (ahead : a.Ahead) : a.stopPolling.Ahead :=
  ahead.within rfl rfl List.filter_sublist (.inr rfl)
    fun _ member => .inl (mem_jobs_stopPolling.mp member).1

theorem effects (ahead : a.Ahead) (effects : List Effect) :
    (effects.foldl Agenda.undertake a).Ahead := by
  induction effects generalizing a with
  | nil => exact ahead
  | cons e rest ih =>
      refine ih ?_
      cases e with
      | «show» _ => exact ahead
      | send r => exact ahead.spawn nofun
      | expireAfter ttl id => exact ahead.spawn nofun
      | startPolling =>
          have spawned : (a.stopPolling.spawn (.pollBegin a.started)).Ahead :=
            ahead.stopPolling.spawn nofun
          exact spawned.within rfl rfl (List.Sublist.refl _) (.inl rfl) fun _ member => .inl member
      | stopPolling => exact ahead.stopPolling

theorem wakeAt (ahead : a.Ahead) (moment : Nat) : (a.wakeAt moment).Ahead := by
  refine ⟨ahead.sorted.sublist (List.dropWhile_sublist _), ?_, fun zero => ?_⟩
  · exact fun e member => lt_of_mem_dropWhile ahead.sorted member
  · obtain ⟨idle, still⟩ := ahead.still zero
    exact ⟨idle, fun job member => still job (mem_jobs_wakeAt.mp member)⟩

end Ahead

/-! ### Moments at which nothing is due -/

variable {moment : Nat}

theorem wakeAt_of_lt (later : ∀ e ∈ a.sleeping, moment < e.1) :
    a.wakeAt moment = { a with now := moment } := by
  have none : (a.sleeping.takeWhile fun e => e.1 ≤ moment) = [] := by
    cases sleeping : a.sleeping with
    | nil => rfl
    | cons e rest =>
        have first := later e (sleeping ▸ List.mem_cons_self)
        exact List.takeWhile_cons_of_neg (by simpa using first)
  have all := List.takeWhile_append_dropWhile (p := fun e : Nat × Job => decide (e.1 ≤ moment))
    (l := a.sleeping)
  rw [none, List.nil_append] at all
  rw [wakeAt, none, all, List.map_nil, List.append_nil]

theorem Ahead.nextMoment (ahead : a.Ahead) (next : a.nextMoment? = some moment) :
    a.now < moment ∧ ∀ e ∈ a.sleeping, moment ≤ e.1 := by
  obtain ⟨e, first, rfl⟩ := Option.map_eq_some_iff.mp next
  obtain ⟨rest, sleeping⟩ := List.head?_eq_some_iff.mp first
  have sorted := ahead.sorted
  have later := ahead.later
  rw [sleeping] at sorted later ⊢
  refine ⟨later e List.mem_cons_self, fun f member => ?_⟩
  rcases List.mem_cons.mp member with rfl | old
  · exact Nat.le_refl _
  · exact (List.pairwise_cons.mp sorted).1 f old

theorem sleeping_of_nextMoment (none : a.nextMoment? = none) : a.sleeping = [] :=
  List.head?_eq_none_iff.mp (Option.map_eq_none_iff.mp none)

end Agenda

/-! ## The clock -/

/-- The moment at which the clock is after a step. -/
def Move.clock (now : Nat) : Move → Nat
  | .wake moment => moment
  | _ => now

theorem Step.now {s s' : Station} {m : Move} (step : Step .any s m s') :
    s'.agenda.now = m.clock s.agenda.now := by
  cases step with
  | operate o =>
      rw [Station.agenda_take]
      exact Agenda.now_effects _ _
  | handle head => exact Station.now_handle _ _
  | work member => exact Agenda.now_runJob _ _
  | wake later => rfl
  | outside change =>
      obtain ⟨engine, latency, script, uptime, rfl⟩ := change
      rfl

theorem Step.now_le {s s' : Station} {m : Move} (step : Step .any s m s') :
    s.agenda.now ≤ s'.agenda.now := by
  have now := step.now
  cases step with
  | wake later => exact later
  | operate | handle | work | outside => exact now.ge

/-! ## Steps -/

section

variable {s s' : Station} {m : Move}

theorem Step.ahead (step : Step .any s m s') (ahead : s.agenda.Ahead) : s'.agenda.Ahead := by
  cases step with
  | operate o =>
      rw [Station.agenda_take]
      exact ahead.effects _
  | @handle c rest head =>
      rw [Station.handle, Station.agenda_take]
      have taken : { s.agenda with arrived := rest }.Ahead :=
        ahead.within rfl rfl (List.Sublist.refl _) (.inl rfl) fun _ member => .inl member
      exact taken.effects _
  | @work before after job ready =>
      have taken : { s.agenda with ready := before ++ after }.Ahead :=
        ahead.within rfl rfl (List.Sublist.refl _) (.inl rfl)
          fun _ member => .inl ((Agenda.mem_jobs_taken ready).mpr (.inl member))
      refine taken.runJob fun tick zero => ?_
      have still := (ahead.still zero).2 job ((Agenda.mem_jobs_taken ready).mpr (.inr rfl))
      cases still.symm.trans tick
  | wake later => exact ahead.wakeAt _
  | outside change =>
      obtain ⟨engine, latency, script, uptime, rfl⟩ := change
      exact ahead.within rfl rfl (List.Sublist.refl _) (.inl rfl) fun _ member => .inl member

theorem Station.ahead_opened (form : Form) (options : Options) (engine : Engine) (latency : Nat)
    (clock : String) : (Station.opened form options engine latency clock).agenda.Ahead := by
  rw [Station.agenda_opened]
  exact ⟨.nil, nofun, fun _ => ⟨rfl, nofun⟩⟩

theorem Run.ahead {first : Station} {log : History} (start : first.agenda.Ahead)
    (run : Run .any first log s) : s.agenda.Ahead := by
  induction run with
  | begin => exact start
  | step run step ih => exact step.ahead ih

theorem Station.Reaches.ahead {t : Station} (reaches : Reaches .any s t) (ahead : s.agenda.Ahead) :
    t.agenda.Ahead := by
  obtain ⟨log, run⟩ := reaches
  exact run.ahead ahead

end

end EngineConsole
