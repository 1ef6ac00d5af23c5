import EngineConsole.Proofs.Run.Outcome
import EngineConsole.Proofs.Run.PollTimer

/-!
# Serialized fetches

A poll timer that lets missed ticks go has one thing to do at a time: begin, wait for its tick, or
wait for its fetch. So a tick never finds a fetch of its own timer under way. It does not look at
other fetches, though, and neither does a startup or what follows a clearing: these are the steps by
which fetches come to overlap, and there are no others.
-/

set_option autoImplicit false

namespace EngineConsole

/-! ## What belongs to a poll timer -/

namespace Agenda

variable {a b : Agenda} {job : Job} {timer : Nat}

/-- How much work belongs to a poll timer: its beginning, its ticks and the requests it waits
for. -/
def own (a : Agenda) (timer : Nat) : Nat :=
  a.work.countP fun job => job.timer? = some timer

/-- Each poll timer has one thing to do at a time. -/
def Sequential (a : Agenda) : Prop :=
  ∀ timer, a.own timer ≤ 1

theorem own_add (work : b.work = a.work + {job}) (timer : Nat) :
    b.own timer = a.own timer + if job.timer? = some timer then 1 else 0 := by
  rw [own, work, add_comm, Multiset.singleton_add, Multiset.countP_cons]
  rfl

theorem own_of_work (work : b.work = a.work) (timer : Nat) : b.own timer = a.own timer :=
  congrArg (Multiset.countP _) work

theorem own_spawnFetches (a : Agenda) (count timer : Nat) :
    (a.spawnFetches count).own timer = a.own timer := by
  have work : (a.spawnFetches count).work = a.work + _ := work_of_ready _ rfl rfl
  have none : Multiset.countP (fun job : Job => job.timer? = some timer)
      (List.replicate count (.begin .fetchStats none) : List Job) = 0 := by
    refine Multiset.countP_eq_zero.mpr fun job member => ?_
    rw [List.eq_of_mem_replicate member]
    exact nofun
  rw [own, work, Multiset.countP_add, none]
  rfl

theorem awaited_le_own (a : Agenda) (timer : Nat) : a.awaited timer ≤ a.own timer := by
  rw [awaited, own, Multiset.countP_eq_card_filter, Multiset.countP_eq_card_filter]
  refine Multiset.card_le_card (Multiset.monotone_filter_right _ fun job waits => ?_)
  cases job with
  | begin | proceed | serve => exact waits
  | expiry | expired | pollBegin | pollTick => cases waits

theorem own_release_le (a : Agenda) (waiter : Option Nat) (timer : Nat) :
    (a.release waiter).own timer ≤ a.own timer + if waiter = some timer then 1 else 0 := by
  unfold release
  split
  next other _ due _ =>
    split
    next same =>
      have spawned := own_add (a.work_spawn (.pollTick other due)) timer
      have tick : (Job.pollTick other due).timer? = some other := rfl
      rw [tick] at spawned
      exact spawned.le
    next => exact Nat.le_add_right _ _
  next => exact Nat.le_add_right _ _

/-- Whatever a piece of work comes to belongs to the poll timer that it belonged to. -/
theorem own_runJob_le (a : Agenda) (job : Job) (timer : Nat) :
    (a.runJob job).own timer ≤ a.own timer + if job.timer? = some timer then 1 else 0 := by
  have progress := a.progress job
  generalize a.runJob job = b at progress ⊢
  cases progress with
  | request asked worked =>
      rw [(Job.timer_of_request asked).1]
      cases worked with
      | finished engine script begun ended _ _ whole =>
          rw [whole]
          exact a.own_release_le job.waiter? timer
      | asleep engine script begun moment later _ _ asked' waits whole =>
          have slept := own_add (a.work_sleep moment later) timer
          rw [(Job.timer_of_request (asked'.trans asked)).1, waits] at slept
          rw [whole]
          exact slept.le
  | expires span id => exact (own_add (a.work_sleep (a.now + span) (.expired id)) timer).le
  | expiresNow | expired => exact Nat.le_add_right _ _
  | still => exact Nat.le_add_right _ _
  | begins own => exact (own_add (a.work_sleep _ (.pollTick own _)) timer).le
  | waits own due => exact (own_add (a.work_sleep due (.pollTick own due)) timer).le
  | overlaps own due next count =>
      have slept := own_add ((a.spawnFetches count).work_sleep next (.pollTick own next)) timer
      rw [own_spawnFetches] at slept
      exact slept.le
  | fetches own due next =>
      exact (own_add (a.work_spawn (.begin .fetchStats (some own))) timer).le

theorem own_stopPolling_le (a : Agenda) (timer : Nat) : a.stopPolling.own timer ≤ a.own timer := by
  rw [own, work_stopPolling]
  exact Multiset.countP_le_of_le _ (Multiset.filter_le _ _)

theorem Numbered.own_eq_zero (numbered : a.Numbered) : a.own a.started = 0 :=
  Multiset.countP_eq_zero.mpr fun job member belongs =>
    Nat.lt_irrefl _ (numbered.jobs job member _ belongs)

theorem Sequential.undertake (sequential : a.Sequential) (numbered : a.Numbered) (e : Effect) :
    (a.undertake e).Sequential := by
  intro timer
  cases e with
  | «show» _ => exact sequential timer
  | send r => exact (own_add (a.work_spawn (.begin r none)) timer).trans_le (sequential timer)
  | expireAfter ttl id =>
      exact (own_add (a.work_spawn (.expiry ttl id)) timer).trans_le (sequential timer)
  | stopPolling => exact (a.own_stopPolling_le timer).trans (sequential timer)
  | startPolling =>
      have begun : (a.undertake .startPolling).own timer = a.stopPolling.own timer +
          if some a.started = some timer then 1 else 0 :=
        own_add (a.stopPolling.work_spawn (.pollBegin a.started)) timer
      rw [begun]
      split
      next same =>
        obtain rfl := Option.some.inj same
        rw [show a.stopPolling.own a.started = 0 from numbered.stopPolling.own_eq_zero]
      next => exact (a.own_stopPolling_le timer).trans (sequential timer)

theorem Sequential.effects (sequential : a.Sequential) (numbered : a.Numbered)
    (effects : List Effect) : (effects.foldl Agenda.undertake a).Sequential := by
  induction effects generalizing a with
  | nil => exact sequential
  | cons e rest ih => exact ih (sequential.undertake numbered e) (numbered.undertake e)

theorem Sequential.runJob {before after : List Job} (sequential : a.Sequential)
    (member : a.ready = before ++ job :: after) :
    (({ a with ready := before ++ after } : Agenda).runJob job).Sequential := fun timer =>
  (own_runJob_le _ job timer).trans ((own_add (work_taken member) timer).symm.trans_le
    (sequential timer))

/-- A poll timer whose tick is ready waits for no request. -/
theorem Sequential.not_waits {due : Nat} {before after : List Job} (sequential : a.Sequential)
    (member : a.ready = before ++ .pollTick timer due :: after) (other : job ∈ a.jobs) :
    job.waiter? ≠ some timer := by
  intro waits
  have belongs : job.timer? = some timer := by
    cases job with
    | begin | proceed | serve => exact waits
    | expiry | expired | pollBegin | pollTick => cases waits
  have taken : job ∈ ({ a with ready := before ++ after } : Agenda).work := by
    refine ((mem_jobs_taken member).mp other).resolve_right ?_
    rintro rfl
    cases waits
  have left : 0 < ({ a with ready := before ++ after } : Agenda).own timer :=
    Multiset.countP_pos.mpr ⟨job, taken, belongs⟩
  have tick := own_add (work_taken member) timer
  rw [if_pos (show (Job.pollTick timer due).timer? = some timer from rfl)] at tick
  have := sequential timer
  omega

end Agenda

/-! ## Runs -/

section

variable {s s' : Station} {m : Move}

theorem Step.sequential (step : Step .any s m s') (numbered : s.agenda.Numbered)
    (sequential : s.agenda.Sequential) : s'.agenda.Sequential := by
  cases step with
  | operate o =>
      rw [Station.agenda_take]
      exact sequential.effects numbered _
  | @handle c rest head =>
      rw [Station.handle, Station.agenda_take]
      have taken : { s.agenda with arrived := rest }.Numbered :=
        numbered.grow (Nat.le_refl _) (fun _ _ => .inl) fun _ => .inl
      exact Agenda.Sequential.effects (a := { s.agenda with arrived := rest }) sequential taken _
  | work member => exact sequential.runJob member
  | wake later =>
      intro timer
      exact (Agenda.own_of_work (s.agenda.work_wakeAt _) timer).trans_le (sequential timer)
  | outside change =>
      obtain ⟨engine, latency, script, uptime, rfl⟩ := change
      exact sequential

/-- A step that issues a stats fetch while one is outstanding. -/
def Deed.Overlaps (d : Deed) : Prop :=
  .fetchStats ∈ d.issued ∧ .fetchStats ∈ d.before.agenda.underway

/-- A step that fetches without regard to a fetch under way: a startup or a clearing that went well,
and a tick that is due while a fetch is under way for which its timer does not wait. -/
def Deed.Intrudes (d : Deed) : Prop :=
  match d.move with
  | .operate .startup => .fetchStats ∈ d.before.agenda.underway
  | .handle (.statsCleared (.ok _)) => .fetchStats ∈ d.before.agenda.underway
  | .work (.pollTick timer due) =>
    due ≤ d.before.agenda.now ∧ ∃ job ∈ d.before.agenda.jobs,
      job.request? = some .fetchStats ∧ job.waiter? ≠ some timer
  | _ => False

/-- Every fetch that is issued while one is outstanding is an intrusion: a poll timer waits for its
own fetches. -/
theorem Step.overlaps_iff (step : Step .any s m s') (sequential : s.agenda.Sequential)
    (serialize : s.agenda.overlap = .serialize) :
    (Deed.mk s m).Overlaps ↔ (Deed.mk s m).Intrudes := by
  cases step with
  | operate o =>
      rw [Deed.Overlaps, Deed.issued_operate]
      cases o with
      | startup => simp [Operation.requests, Deed.Intrudes]
      | toggle =>
          have other : Desk.requestFor s.desk.state.toggled ≠ .fetchStats := by
            cases s.desk.state <;> exact nofun
          simp only [Operation.requests, Deed.Intrudes, iff_false]
          split <;> simp [other.symm]
      | clear agreed => cases agreed <;> simp [Operation.requests, Deed.Intrudes]
      | load | save | askStatus | exportConfig | importConfig | startPolling | stopPolling | edit
      | put => simp [Operation.requests, Deed.Intrudes]
  | @handle c rest head =>
      rw [Deed.Overlaps, Deed.issued_handle]
      cases c with
      | statsCleared result =>
          cases result <;> simp [Completion.requests, Deed.Intrudes]
      | configLoaded | configSaved | statsFetched | toggleFinished | engineStatus
      | alertExpired => simp [Completion.requests, Deed.Intrudes]
  | @work before after job member =>
      cases job with
      | pollTick timer due =>
          have issues : .fetchStats ∈ (Deed.mk s (.work (.pollTick timer due))).issued ↔
              due ≤ s.agenda.now := by
            simp only [Deed.issued, Agenda.fetches, serialize, List.mem_replicate]
            by_cases early : s.agenda.now < due <;> simp [early]
            omega
          have foreign : .fetchStats ∈ s.agenda.underway ↔ ∃ job ∈ s.agenda.jobs,
              job.request? = some .fetchStats ∧ job.waiter? ≠ some timer := by
            rw [Agenda.mem_underway]
            refine exists_congr fun job => and_congr_right fun known => ?_
            exact (and_iff_left (sequential.not_waits member known)).symm
          exact and_congr issues foreign
      | begin | proceed | serve | expiry | expired | pollBegin =>
          simp [Deed.Overlaps, Deed.issued, Agenda.fetches, Deed.Intrudes]
  | wake | outside =>
      simp [Deed.Overlaps, Deed.issued, Deed.outcome, Effect.requests, Deed.Intrudes]

/-- No step issues two stats fetches. -/
theorem Step.issues_one (step : Step .any s m s') (serialize : s.agenda.overlap = .serialize) :
    (Deed.mk s m).issued.count .fetchStats ≤ 1 := by
  cases step with
  | operate o =>
      rw [Deed.issued_operate]
      have small : (o.requests s.desk).length ≤ 1 ∨
          o.requests s.desk = [.loadConfig, .fetchStats] := by
        cases o with
        | startup => exact .inr rfl
        | toggle | clear =>
            dsimp only [Operation.requests]
            split <;> simp
        | load | save | askStatus | exportConfig | importConfig | startPolling | stopPolling | edit
        | put => exact .inl (by simp [Operation.requests])
      rcases small with one | both
      · exact List.count_le_length.trans one
      · rw [both]
        decide
  | @handle c rest head =>
      rw [Deed.issued_handle]
      refine List.count_le_length.trans ?_
      unfold Completion.requests
      split <;> simp
  | @work before after job member =>
      refine List.count_le_length.trans ?_
      simp only [Deed.issued, List.length_replicate]
      cases job with
      | pollTick timer due =>
          simp only [Agenda.fetches, serialize]
          split <;> simp
      | begin | proceed | serve | expiry | expired | pollBegin => simp [Agenda.fetches]
  | wake | outside => simp [Deed.issued, Deed.outcome, Effect.requests]

end

/-! ## Patience -/

/-- Polling is the business of the poll timer that was started last: work of another kind, or the
work of that timer or a stats fetch that it waits for. -/
def Job.IsLatest (job : Job) (started : Nat) : Prop :=
  job.isPoll = true ∨ job.request? = some .fetchStats →
    ∃ timer, job.timer? = some timer ∧ timer + 1 = started

namespace Agenda

variable {a b : Agenda} {job : Job}

/-- No poll timer but the last has anything left to do, and each stats fetch is one that it waits
for. -/
structure Latest (a : Agenda) : Prop where
  jobs : ∀ job ∈ a.jobs, job.IsLatest a.started
  waiting : ∀ timer due, a.waiting = some (timer, due) → timer + 1 = a.started

namespace Latest

theorem grow (latest : a.Latest) (started : b.started = a.started)
    (waiting : ∀ timer due, b.waiting = some (timer, due) →
      a.waiting = some (timer, due) ∨ timer + 1 = a.started)
    (jobs : ∀ job ∈ b.jobs, job ∈ a.jobs ∨ job.IsLatest a.started) : b.Latest := by
  refine ⟨fun job member => ?_, fun timer due waits => ?_⟩
  · rw [started]
    exact (jobs job member).elim (latest.jobs job) id
  · rw [started]
    exact (waiting timer due waits).elim (latest.waiting timer due) id

theorem spawn (latest : a.Latest) (known : job.IsLatest a.started) : (a.spawn job).Latest := by
  refine latest.grow rfl (fun _ _ => .inl) fun other member => ?_
  rcases mem_jobs_spawn.mp member with old | rfl
  · exact .inl old
  · exact .inr known

theorem sleep (latest : a.Latest) (moment : Nat) (known : job.IsLatest a.started) :
    (a.sleep moment job).Latest := by
  refine latest.grow rfl (fun _ _ => .inl) fun other member => ?_
  rcases mem_jobs_sleep.mp member with old | rfl
  · exact .inl old
  · exact .inr known

theorem release (latest : a.Latest) (waiter : Option Nat) : (a.release waiter).Latest := by
  unfold Agenda.release
  split
  next timer waits due same =>
    split
    next first =>
      have last := latest.waiting _ _ same
      have spawned : (a.spawn (.pollTick timer due)).Latest :=
        latest.spawn fun _ => ⟨timer, rfl, first ▸ last⟩
      exact spawned.grow rfl nofun fun _ => .inl
    next => exact latest
  next => exact latest

theorem runJob (latest : a.Latest) (serialize : a.overlap = .serialize)
    (known : job.IsLatest a.started) : (a.runJob job).Latest := by
  have progress := a.progress job
  generalize a.runJob job = b at progress ⊢
  cases progress with
  | request asked worked =>
      cases worked with
      | finished engine script begun ended _ _ whole =>
          rw [whole]
          exact (latest.release job.waiter?).grow rfl (fun _ _ => .inl) fun _ => .inl
      | asleep engine script begun moment later _ _ asked' waits whole =>
          have same : later.timer? = job.timer? := by
            rw [(Job.timer_of_request (asked'.trans asked)).1, (Job.timer_of_request asked).1,
              waits]
          have slept : (a.sleep moment later).Latest := by
            refine latest.sleep moment fun polling => ?_
            rw [(Job.timer_of_request (asked'.trans asked)).2, asked'] at polling
            rw [same]
            exact known (.inr (polling.resolve_left Bool.false_ne_true))
          rw [whole]
          exact slept.grow rfl (fun _ _ => .inl) fun _ => .inl
  | expires => exact latest.sleep _ (by simp [Job.IsLatest, Job.isPoll, Job.request?])
  | expiresNow | expired => exact latest.grow rfl (fun _ _ => .inl) fun _ => .inl
  | still => exact latest
  | begins | waits => exact latest.sleep _ fun _ => known (.inl rfl)
  | overlaps _ _ _ _ _ allow => cases serialize.symm.trans allow
  | fetches timer =>
      have own := known (.inl rfl)
      have spawned : (a.spawn (.begin .fetchStats (some timer))).Latest := latest.spawn fun _ => own
      refine spawned.grow rfl ?_ fun _ => .inl
      rintro other due' ⟨⟩
      obtain ⟨_, ⟨⟩, last⟩ := own
      exact .inr last

theorem stopPolling (latest : a.Latest) : a.stopPolling.Latest :=
  latest.grow rfl nofun fun _ member => .inl (mem_jobs_stopPolling.mp member).1

/-- A poll timer that is started while no stats fetch is under way has nothing to do with those
before it. -/
theorem startPolling (idle : .fetchStats ∉ a.underway) : a.startPolling.Latest := by
  refine ⟨fun job member polling => ?_, nofun⟩
  rcases mem_jobs_spawn.mp (member : job ∈ (a.stopPolling.spawn (.pollBegin a.started)).jobs)
    with old | rfl
  · obtain ⟨known, plain⟩ := mem_jobs_stopPolling.mp old
    rcases polling with poll | fetch
    · simp [poll] at plain
    · exact absurd (mem_underway.mpr ⟨job, known, fetch⟩) idle
  · exact ⟨a.started, rfl, rfl⟩

theorem effects (latest : a.Latest) {effects : List Effect}
    (quiet : .fetchStats ∉ Effect.requests effects)
    (others : .startPolling ∉ effects.filter Effect.isTimer) :
    (effects.foldl Agenda.undertake a).Latest := by
  induction effects generalizing a with
  | nil => exact latest
  | cons e rest ih =>
      have later : .startPolling ∉ rest.filter Effect.isTimer := fun member =>
        others (((List.sublist_cons_self e rest).filter _).subset member)
      cases e with
      | «show» _ => exact ih latest quiet later
      | send r =>
          have quiet : .fetchStats ∉ r :: Effect.requests rest := quiet
          obtain ⟨other, quiet⟩ := List.ne_and_not_mem_of_not_mem_cons quiet
          have spawned : (a.spawn (.begin r none)).Latest := by
            refine latest.spawn fun polling => ?_
            have fetch : some r = some .fetchStats := polling.resolve_left Bool.false_ne_true
            exact absurd (Option.some.inj fetch).symm other
          exact ih spawned quiet later
      | expireAfter ttl id =>
          have spawned : (a.spawn (.expiry ttl id)).Latest :=
            latest.spawn (by simp [Job.IsLatest, Job.isPoll, Job.request?])
          exact ih spawned quiet later
      | startPolling => exact absurd List.mem_cons_self others
      | stopPolling => exact ih latest.stopPolling quiet later

end Latest

end Agenda

/-- Nothing is fetched but by poll timers, and polling is started only while no stats fetch is under
way. -/
def Deed.Patient (d : Deed) : Prop :=
  match d.move with
  | .operate .startup => False
  | .operate .startPolling => .fetchStats ∉ d.before.agenda.underway
  | .handle (.statsCleared (.ok _)) => False
  | _ => True

section

variable {s s' : Station} {m : Move}

theorem Step.latest (step : Step .any s m s') (serialize : s.agenda.overlap = .serialize)
    (patient : (Deed.mk s m).Patient) (latest : s.agenda.Latest) : s'.agenda.Latest := by
  cases step with
  | operate o =>
      have requests := s.desk.requests_operate s.moment o
      have timers := s.desk.timers_operate s.moment o
      rw [Station.agenda_take]
      cases o with
      | startup => exact patient.elim
      | startPolling => exact Agenda.Latest.startPolling patient
      | toggle =>
          refine latest.effects ?_ (timers ▸ List.not_mem_nil)
          rw [requests]
          dsimp only [Operation.requests]
          cases s.desk.state <;> split <;> simp [Desk.requestFor, RunState.toggled]
      | clear agreed =>
          refine latest.effects ?_ (timers ▸ List.not_mem_nil)
          rw [requests]
          cases agreed <;> simp [Operation.requests]
      | load | askStatus | exportConfig | importConfig | edit | put | save =>
          refine latest.effects ?_ (timers ▸ List.not_mem_nil)
          rw [requests]
          simp [Operation.requests]
      | stopPolling => exact latest.stopPolling
  | @handle c rest head =>
      have taken : { s.agenda with arrived := rest }.Latest :=
        latest.grow rfl (fun _ _ => .inl) fun _ => .inl
      rw [Station.handle, Station.agenda_take]
      refine taken.effects ?_ (Desk.timers_handle _ _ c ▸ List.not_mem_nil)
      rw [Desk.requests_handle]
      cases c with
      | statsCleared result =>
          cases result with
          | ok u => exact patient.elim
          | error f => exact List.not_mem_nil
      | configLoaded | configSaved | statsFetched | toggleFinished | engineStatus
      | alertExpired => exact List.not_mem_nil
  | @work before after job member =>
      have taken : { s.agenda with ready := before ++ after }.Latest :=
        latest.grow rfl (fun _ _ => .inl)
          fun _ known => .inl ((Agenda.mem_jobs_taken member).mpr (.inl known))
      exact taken.runJob serialize
        (latest.jobs job ((Agenda.mem_jobs_taken member).mpr (.inr rfl)))
  | wake later =>
      exact latest.grow rfl (fun _ _ => .inl) fun _ known => .inl (Agenda.mem_jobs_wakeAt.mp known)
  | outside change =>
      obtain ⟨engine, latency, script, uptime, rfl⟩ := change
      exact latest.grow rfl (fun _ _ => .inl) fun _ => .inl

/-- A tick of the last poll timer finds no fetch but its own. -/
theorem Step.not_intrudes (step : Step .any s m s') (patient : (Deed.mk s m).Patient)
    (latest : s.agenda.Latest) : ¬(Deed.mk s m).Intrudes := by
  cases step with
  | operate o =>
      cases o with
      | startup => exact patient.elim
      | load | save | toggle | clear | askStatus | exportConfig | importConfig | startPolling
      | stopPolling | edit | put => exact id
  | @handle c rest head =>
      cases c with
      | statsCleared result =>
          cases result with
          | ok u => exact patient.elim
          | error f => exact id
      | configLoaded | configSaved | statsFetched | toggleFinished | engineStatus
      | alertExpired => exact id
  | @work before after job member =>
      cases job with
      | pollTick timer due =>
          rintro ⟨-, job, known, fetch, foreign⟩
          have ready : .pollTick timer due ∈ s.agenda.jobs :=
            (Agenda.mem_jobs_taken member).mpr (.inr rfl)
          obtain ⟨_, ⟨⟩, last⟩ := latest.jobs _ ready (.inl rfl)
          obtain ⟨other, belongs, last'⟩ := latest.jobs job known (.inr fetch)
          refine foreign ?_
          rw [← (Job.timer_of_request fetch).1, belongs]
          exact congrArg some (by omega)
      | begin | proceed | serve | expiry | expired | pollBegin => exact id
  | wake | outside => exact id

end

/-! ## Runs -/

section

variable {form : Form} {options : Options} {engine : Engine} {latency : Nat} {clock : String}
  {log : History} {s : Station}

theorem Run.sequential (run : Run .any (.opened form options engine latency clock) log s) :
    s.agenda.Sequential := by
  induction run with
  | begin => exact fun timer => Nat.zero_le _
  | step run step ih => exact step.sequential run.numbered ih

theorem Run.serialize (run : Run .any (.opened form options engine latency clock) log s)
    (serialize : options.overlap = .serialize) : s.agenda.overlap = .serialize := by
  have kept := run.settings.2
  rw [Station.agenda_opened] at kept
  exact kept.trans serialize

theorem Run.latest (run : Run .any (.opened form options engine latency clock) log s)
    (serialize : options.overlap = .serialize) (patient : ∀ d ∈ log, d.Patient) :
    s.agenda.Latest ∧ ∀ d ∈ log, ¬d.Intrudes := by
  induction run with
  | begin =>
      refine ⟨?_, List.forall_mem_nil _⟩
      rw [Station.agenda_opened]
      exact ⟨nofun, nofun⟩
  | @step log s s' m run step ih =>
      obtain ⟨latest, calm⟩ := ih fun d member => patient d (List.mem_append_left _ member)
      have last : (Deed.mk s m).Patient :=
        patient _ (List.mem_append_right _ List.mem_cons_self)
      refine ⟨step.latest (run.serialize serialize) last latest, fun d member => ?_⟩
      rcases List.mem_append.mp member with old | new
      · exact calm d old
      · rw [List.mem_singleton.mp new]
        exact step.not_intrudes last latest

theorem Run.overlaps_iff (run : Run .any (.opened form options engine latency clock) log s)
    (serialize : options.overlap = .serialize) : ∀ d ∈ log, d.Overlaps ↔ d.Intrudes := by
  induction run with
  | begin => exact List.forall_mem_nil _
  | step run step ih =>
      intro d member
      rcases List.mem_append.mp member with old | new
      · exact ih d old
      · rw [List.mem_singleton.mp new]
        exact step.overlaps_iff run.sequential (run.serialize serialize)

/-- As long as no step fetches while a fetch is outstanding, there is one at most. -/
theorem Run.one_fetch (run : Run .any (.opened form options engine latency clock) log s)
    (serialize : options.overlap = .serialize) (apart : ∀ d ∈ log, ¬d.Overlaps) :
    s.agenda.underway.count .fetchStats ≤ 1 := by
  induction run with
  | begin => exact Nat.zero_le _
  | @step log s s' m run step ih =>
      have one := ih fun d member => apart d (List.mem_append_left _ member)
      have last : ¬(Deed.mk s m).Overlaps :=
        apart _ (List.mem_append_right _ List.mem_cons_self)
      have grown := Multiset.count_le_of_le .fetchStats step.underway_le
      rw [Multiset.count_add, Multiset.coe_count] at grown
      have few := step.issues_one (run.serialize serialize)
      by_cases issues : .fetchStats ∈ (Deed.mk s m).issued
      · have idle : s.agenda.underway.count .fetchStats = 0 :=
          Multiset.count_eq_zero.mpr fun under => last ⟨issues, under⟩
        omega
      · rw [List.count_eq_zero.mpr issues] at grown
        omega

/-- Serialized polling never has two fetches of one poll timer under way. A stats fetch is issued
while another is outstanding only by a startup, by a clearing that went well, or by a tick that
finds a fetch its timer does not wait for; unless that happens there is at most one at every moment.
It does not happen if the console fetches by polling alone, started only while no stats fetch is
outstanding. -/
theorem serialized_fetches_overlap_only_foreign_ones
    (run : Run .any (.opened form options engine latency clock) log s)
    (serialize : options.overlap = .serialize) :
    (∀ timer, s.agenda.awaited timer ≤ 1) ∧
    (∀ d ∈ log, d.Overlaps ↔ d.Intrudes) ∧
    ((∀ d ∈ log, ¬d.Intrudes) → s.agenda.underway.count .fetchStats ≤ 1) ∧
    ((∀ d ∈ log, d.Patient) →
      (∀ d ∈ log, ¬d.Overlaps) ∧ s.agenda.underway.count .fetchStats ≤ 1) := by
  have overlaps := run.overlaps_iff serialize
  have one (calm : ∀ d ∈ log, ¬d.Intrudes) : s.agenda.underway.count .fetchStats ≤ 1 :=
    run.one_fetch serialize fun d member => (overlaps d member).not.mpr (calm d member)
  refine ⟨fun timer => ?_, overlaps, one, fun patient => ?_⟩
  · exact (s.agenda.awaited_le_own timer).trans (run.sequential timer)
  · have calm := (run.latest serialize patient).2
    exact ⟨fun d member => (overlaps d member).not.mpr (calm d member), one calm⟩

end

/-- A console that only polls, on an engine that takes longer than three ticks, waits for the fetch
that is outstanding. -/
theorem slow_polling_has_one_fetch :
    let first : Station :=
      .opened .empty { interval := 10, overlap := .serialize } { config := .empty } 35 "12:00:00"
    ∃ log s, Run .any first log s ∧ (∀ d ∈ log, d.Patient) ∧ s.agenda.now = 30 ∧
      s.agenda.underway = {.fetchStats} ∧ s.agenda.underway.count .fetchStats ≤ 1 := by
  intro first
  obtain ⟨log, s, run, patient, now, underway⟩ : ∃ log s, Run .any first log s ∧
      (∀ d ∈ log, d.Patient) ∧ s.agenda.now = 30 ∧ s.agenda.underway = {.fetchStats} := by
    have opened : Run .any first [] first := .begin
    have asked := opened.step (.operate .startPolling)
    have begun := asked.step (@Step.work _ _ [] [] (.pollBegin 0) rfl)
    have woken := begun.step (@Step.wake _ _ 10 (Nat.zero_le _))
    have ticked := woken.step (@Step.work _ _ [] [] (.pollTick 0 10) rfl)
    have sent := ticked.step (@Step.work _ _ [] [] (.begin .fetchStats (some 0)) rfl)
    have run := sent.step (@Step.wake _ _ 30 (by decide : 10 ≤ 30))
    refine ⟨_, _, run, ?_, rfl, rfl⟩
    simp only [List.forall_mem_append, List.forall_mem_singleton]
    exact ⟨⟨⟨⟨⟨⟨List.forall_mem_nil _, Multiset.notMem_zero _⟩, trivial⟩, trivial⟩, trivial⟩,
      trivial⟩, trivial⟩
  obtain ⟨-, -, -, waits⟩ := serialized_fetches_overlap_only_foreign_ones run rfl
  exact ⟨log, s, run, patient, now, underway, (waits patient).2⟩

/-- Serialized polling does not keep fetches apart: the first tick does not wait for the fetch that
the console began with. -/
theorem first_tick_overlaps_startup :
    ¬∀ form options engine latency clock log s,
      Run .simulated (.opened form options engine latency clock) log s →
      options.overlap = .serialize → s.agenda.underway.count .fetchStats ≤ 1 := by
  intro apart
  have opened : Run .simulated (.opened .empty { overlap := .serialize } { config := .empty } 3000
      "12:00:00") [] _ := .begin
  have asked := opened.step (.operate .startup)
  have sent := asked.step (@Step.work _ _ [.begin .loadConfig none] [.pollBegin 0]
    (.begin .fetchStats none) rfl)
  have begun := sent.step (@Step.work _ _ [.begin .loadConfig none] [] (.pollBegin 0) rfl)
  have woken := begun.step (@Step.wake _ _ 1000 (Nat.zero_le _))
  have run := woken.step (@Step.work _ _ [.begin .loadConfig none] [] (.pollTick 0 1000) rfl)
  have one : ([.loadConfig, .fetchStats, .fetchStats] : List Request).count .fetchStats ≤ 1 :=
    apart _ _ _ _ _ _ _ run rfl
  exact absurd one (by decide)

end EngineConsole
