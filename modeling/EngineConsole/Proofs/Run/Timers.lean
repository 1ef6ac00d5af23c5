import EngineConsole.Proofs.Run.VirtualTime

/-!
# Timers

Poll timers are told apart by numbers, which are given out once. All of them have the interval and
the policy that the console was set up with.
-/

set_option autoImplicit false

namespace EngineConsole

/-! ## Numbers -/

/-- The poll timer that a piece of work belongs to. -/
def Job.timer? : Job → Option Nat
  | .pollBegin timer => some timer
  | .pollTick timer _ => some timer
  | job => job.waiter?

theorem Job.timer_of_request {job : Job} {r : Request} (asked : job.request? = some r) :
    job.timer? = job.waiter? ∧ job.isPoll = false := by
  cases job with
  | begin | proceed | serve => exact ⟨rfl, rfl⟩
  | expiry | expired | pollBegin | pollTick => cases asked

namespace Agenda

variable {a b : Agenda} {job : Job}

/-- Poll timers are numbered as they are started, and no work belongs to one still to come. -/
structure Numbered (a : Agenda) : Prop where
  jobs : ∀ job ∈ a.jobs, ∀ timer, job.timer? = some timer → timer < a.started
  waiting : ∀ timer due, a.waiting = some (timer, due) → timer < a.started

namespace Numbered

theorem grow (numbered : a.Numbered) (started : a.started ≤ b.started)
    (waiting : ∀ timer due, b.waiting = some (timer, due) →
      a.waiting = some (timer, due) ∨ timer < b.started)
    (jobs : ∀ job ∈ b.jobs, job ∈ a.jobs ∨ ∀ timer, job.timer? = some timer → timer < b.started) :
    b.Numbered := by
  refine ⟨fun job member timer belongs => ?_, fun timer due waits => ?_⟩
  · rcases jobs job member with old | new
    · exact (numbered.jobs job old timer belongs).trans_le started
    · exact new timer belongs
  · rcases waiting timer due waits with old | new
    · exact (numbered.waiting timer due old).trans_le started
    · exact new

theorem spawn (numbered : a.Numbered)
    (known : ∀ timer, job.timer? = some timer → timer < a.started) : (a.spawn job).Numbered := by
  refine numbered.grow (Nat.le_refl _) (fun _ _ => .inl) fun other member => ?_
  rcases mem_jobs_spawn.mp member with old | rfl
  · exact .inl old
  · exact .inr known

theorem sleep (numbered : a.Numbered) (moment : Nat)
    (known : ∀ timer, job.timer? = some timer → timer < a.started) :
    (a.sleep moment job).Numbered := by
  refine numbered.grow (Nat.le_refl _) (fun _ _ => .inl) fun other member => ?_
  rcases mem_jobs_sleep.mp member with old | rfl
  · exact .inl old
  · exact .inr known

theorem release (numbered : a.Numbered) (waiter : Option Nat) : (a.release waiter).Numbered := by
  unfold Agenda.release
  split
  next timer waits due same =>
    split
    next first =>
      have known := numbered.waiting _ _ same
      have spawned : (a.spawn (.pollTick timer due)).Numbered := by
        refine numbered.spawn ?_
        rintro other ⟨⟩
        exact first ▸ known
      exact spawned.grow (Nat.le_refl _) nofun fun _ => .inl
    next => exact numbered
  next => exact numbered

theorem spawnFetches (numbered : a.Numbered) (count : Nat) : (a.spawnFetches count).Numbered := by
  refine numbered.grow (Nat.le_refl _) (fun _ _ => .inl) fun other member => ?_
  rcases mem_jobs_spawnFetches member with old | rfl
  · exact .inl old
  · exact .inr nofun

theorem runJob (numbered : a.Numbered)
    (known : ∀ timer, job.timer? = some timer → timer < a.started) : (a.runJob job).Numbered := by
  have progress := a.progress job
  generalize a.runJob job = b at progress ⊢
  cases progress with
  | request asked worked =>
      cases worked with
      | finished engine script begun ended _ _ whole =>
          rw [whole]
          exact (numbered.release job.waiter?).grow (Nat.le_refl _) (fun _ _ => .inl) fun _ => .inl
      | asleep engine script begun moment later _ _ asked' waits whole =>
          have same : later.timer? = job.timer? := by
            rw [(Job.timer_of_request (asked'.trans asked)).1, (Job.timer_of_request asked).1,
              waits]
          rw [whole]
          exact (numbered.sleep moment (same ▸ known)).grow (Nat.le_refl _) (fun _ _ => .inl)
            fun _ => .inl
  | expires => exact numbered.sleep _ nofun
  | expiresNow | expired =>
      exact numbered.grow (Nat.le_refl _) (fun _ _ => .inl) fun _ => .inl
  | still => exact numbered
  | begins => exact numbered.sleep _ known
  | waits => exact numbered.sleep _ known
  | overlaps timer due next count => exact (numbered.spawnFetches count).sleep next known
  | fetches timer =>
      have spawned : (a.spawn (.begin .fetchStats (some timer))).Numbered := numbered.spawn known
      refine spawned.grow (Nat.le_refl _) ?_ fun _ => .inl
      rintro other due' ⟨⟩
      exact .inr (known timer rfl)

theorem stopPolling (numbered : a.Numbered) : a.stopPolling.Numbered :=
  numbered.grow (Nat.le_refl _) nofun fun _ member => .inl (mem_jobs_stopPolling.mp member).1

theorem undertake (numbered : a.Numbered) (e : Effect) : (a.undertake e).Numbered := by
  cases e with
  | «show» _ => exact numbered
  | send r => exact numbered.spawn nofun
  | expireAfter ttl id => exact numbered.spawn nofun
  | startPolling =>
      refine numbered.stopPolling.grow (Nat.le_succ _) (fun _ _ => .inl) fun job member => ?_
      rcases mem_jobs_spawn.mp (member : job ∈ (a.stopPolling.spawn (.pollBegin a.started)).jobs)
        with old | rfl
      · exact .inl old
      · refine .inr ?_
        rintro timer ⟨⟩
        exact Nat.lt_succ_self _
  | stopPolling => exact numbered.stopPolling

theorem effects (numbered : a.Numbered) (effects : List Effect) :
    (effects.foldl Agenda.undertake a).Numbered := by
  induction effects generalizing a with
  | nil => exact numbered
  | cons e rest ih => exact ih (numbered.undertake e)

theorem wakeAt (numbered : a.Numbered) (moment : Nat) : (a.wakeAt moment).Numbered :=
  numbered.grow (Nat.le_refl _) (fun _ _ => .inl) fun _ member => .inl (mem_jobs_wakeAt.mp member)

end Numbered

end Agenda

section

variable {s s' : Station} {m : Move}

theorem Step.numbered (step : Step .any s m s') (numbered : s.agenda.Numbered) :
    s'.agenda.Numbered := by
  cases step with
  | operate o =>
      rw [Station.agenda_take]
      exact numbered.effects _
  | @handle c rest head =>
      rw [Station.handle, Station.agenda_take]
      have taken : { s.agenda with arrived := rest }.Numbered :=
        numbered.grow (Nat.le_refl _) (fun _ _ => .inl) fun _ => .inl
      exact taken.effects _
  | @work before after job ready =>
      have taken : { s.agenda with ready := before ++ after }.Numbered :=
        numbered.grow (Nat.le_refl _) (fun _ _ => .inl)
          fun _ member => .inl ((Agenda.mem_jobs_taken ready).mpr (.inl member))
      exact taken.runJob (numbered.jobs job ((Agenda.mem_jobs_taken ready).mpr (.inr rfl)))
  | wake later => exact numbered.wakeAt _
  | outside change =>
      obtain ⟨engine, latency, script, uptime, rfl⟩ := change
      exact numbered.grow (Nat.le_refl _) (fun _ _ => .inl) fun _ => .inl

theorem Run.numbered {form : Form} {options : Options} {engine : Engine} {latency : Nat}
    {clock : String} {log : History}
    (run : Run .any (.opened form options engine latency clock) log s) : s.agenda.Numbered := by
  induction run with
  | begin => exact ⟨nofun, nofun⟩
  | step _ step ih => exact step.numbered ih

end

/-! ## Settings -/

namespace Agenda

variable {a : Agenda} {job : Job}

theorem settings_runJob (a : Agenda) (job : Job) :
    (a.runJob job).interval = a.interval ∧ (a.runJob job).overlap = a.overlap := by
  obtain ⟨_, _, _, _, _, _, _, whole⟩ := a.runJob_frame job
  rw [whole]
  exact ⟨rfl, rfl⟩

theorem settings_effects (a : Agenda) (effects : List Effect) :
    (effects.foldl undertake a).interval = a.interval ∧
      (effects.foldl undertake a).overlap = a.overlap := by
  constructor
  · exact effects_keep interval (fun _ e => by cases e <;> rfl) a effects
  · exact effects_keep overlap (fun _ e => by cases e <;> rfl) a effects

end Agenda

theorem Step.settings {s s' : Station} {m : Move} (step : Step .any s m s') :
    s'.agenda.interval = s.agenda.interval ∧ s'.agenda.overlap = s.agenda.overlap := by
  cases step with
  | operate o =>
      rw [Station.agenda_take]
      exact Agenda.settings_effects _ _
  | handle head =>
      rw [Station.handle, Station.agenda_take]
      exact Agenda.settings_effects _ _
  | work member => exact Agenda.settings_runJob _ _
  | wake later => exact ⟨rfl, rfl⟩
  | outside change =>
      obtain ⟨engine, latency, script, uptime, rfl⟩ := change
      exact ⟨rfl, rfl⟩

theorem Run.settings {first s : Station} {log : History} (run : Run .any first log s) :
    s.agenda.interval = first.agenda.interval ∧ s.agenda.overlap = first.agenda.overlap := by
  induction run with
  | begin => exact ⟨rfl, rfl⟩
  | step _ step ih => exact ⟨step.settings.1.trans ih.1, step.settings.2.trans ih.2⟩

end EngineConsole
