import EngineConsole.Proofs.Run.VirtualTime

/-!
# Requests that have begun

A request that was issued begins as soon as its work is run, which is when the engine's side hears
of it, however the request goes on from there. Where no work is ready, all that were issued have
begun.
-/

set_option autoImplicit false

namespace EngineConsole

/-- The kind of request that begins when a piece of work is run. -/
def Job.begins? : Job → Option Request.Kind
  | .begin r _ => some r.kind
  | _ => none

namespace Agenda

/-- The kinds of the requests that were asked for: each has begun or is ready to. No request goes
to sleep before it has begun. -/
structure Asked (kinds : Multiset Request.Kind) (a : Agenda) : Prop where
  all : (a.begun : Multiset Request.Kind) +
    (a.ready.filterMap Job.begins? : List Request.Kind) = kinds
  asleep : ∀ e ∈ a.sleeping, e.2.begins? = none

namespace Asked

variable {a b : Agenda} {job : Job} {kinds : Multiset Request.Kind}

/-- Other fields do not matter. -/
theorem fields (asked : a.Asked kinds) (begun : b.begun = a.begun) (ready : b.ready = a.ready)
    (sleeping : b.sleeping = a.sleeping) : b.Asked kinds where
  all := by simpa [begun, ready] using asked.all
  asleep := by simpa [sleeping] using asked.asleep

theorem more (asked : a.Asked kinds) (jobs : List Job) :
    ({ a with ready := a.ready ++ jobs } : Agenda).Asked
      (kinds + (jobs.filterMap Job.begins? : List Request.Kind)) where
  all := by simp [← asked.all, ← Multiset.coe_add, add_assoc]
  asleep := asked.asleep

theorem spawn (asked : a.Asked kinds) (job : Job) :
    (a.spawn job).Asked (kinds + (job.begins?.toList : List Request.Kind)) := by
  have spawned : (a.spawn job).Asked _ := asked.more [job]
  cases begins : job.begins? <;> simpa [begins] using spawned

theorem sleep (asked : a.Asked kinds) (moment : Nat) (silent : job.begins? = none) :
    (a.sleep moment job).Asked kinds where
  all := asked.all
  asleep := by
    intro e member
    obtain rfl | old := mem_insertSleeper.mp member
    · exact silent
    · exact asked.asleep e old

theorem release (asked : a.Asked kinds) (waiter : Option Nat) :
    (a.release waiter).Asked kinds := by
  unfold Agenda.release
  split
  next timer _ due _ =>
    split
    · have spawned := asked.spawn (.pollTick timer due)
      exact ⟨by simpa [Job.begins?] using spawned.all, spawned.asleep⟩
    · exact asked
  next => exact asked

theorem serve (asked : a.Asked kinds) (r : Request) (waiter : Option Nat) :
    (a.serve r waiter).Asked kinds := by
  apply release
  exact asked.fields rfl rfl rfl

theorem proceed (asked : a.Asked kinds) (r : Request) (ending : Scripted) (waiter : Option Nat) :
    (a.proceed r ending waiter).Asked kinds := by
  have posted (c : Completion) : (a.post c).Asked kinds := asked.fields rfl rfl rfl
  have arrived : ({ a with engine := a.engine.arrive r.endpoint } : Agenda).Asked kinds :=
    asked.fields rfl rfl rfl
  unfold Agenda.proceed
  split
  · exact asked.release waiter
  · split
    next c _ => exact (posted c).release waiter
    next =>
      dsimp only
      split
      · exact arrived.serve r waiter
      · exact arrived.sleep _ rfl

theorem begin (asked : a.Asked kinds) (r : Request) (waiter : Option Nat) :
    (a.begin r waiter).Asked (kinds + {r.kind}) := by
  unfold Agenda.begin
  generalize a.script.next r.kind = next
  obtain ⟨entry, script⟩ := next
  have begun : ({ a with script, begun := a.begun ++ [r.kind] } : Agenda).Asked
      (kinds + {r.kind}) := by
    refine ⟨?_, asked.asleep⟩
    simp only [← asked.all, ← Multiset.coe_add, Multiset.coe_singleton]
    exact add_right_comm _ _ _
  dsimp only
  split
  · exact begun.proceed r entry.ending waiter
  · exact begun.sleep _ rfl

/-- Running a piece of work begins its request, if it has one to begin, and asks for the fetches
of a poll timer. -/
theorem runJob (asked : a.Asked kinds) (job : Job) :
    (a.runJob job).Asked (kinds + (job.begins?.toList : List Request.Kind) +
      (List.replicate (a.fetches job) Request.Kind.fetchStats : List Request.Kind)) := by
  have silent (done : (a.runJob job).Asked kinds) (begins : job.begins? = none)
      (fetches : a.fetches job = 0) :
      (a.runJob job).Asked (kinds + (job.begins?.toList : List Request.Kind) +
        (List.replicate (a.fetches job) Request.Kind.fetchStats : List Request.Kind)) := by
    simpa [begins, fetches] using done
  cases job with
  | begin r waiter =>
      have begun : (a.runJob (.begin r waiter)).Asked (kinds + {r.kind}) := asked.begin r waiter
      simpa [fetches, Job.begins?] using begun
  | proceed r ending waiter => exact silent (asked.proceed r ending waiter) rfl rfl
  | serve r waiter => exact silent (asked.serve r waiter) rfl rfl
  | expired id => exact silent (asked.fields rfl rfl rfl) rfl rfl
  | expiry span id =>
      refine silent ?_ rfl rfl
      dsimp only [Agenda.runJob]
      split
      · exact asked.fields rfl rfl rfl
      · exact asked.sleep _ rfl
  | pollBegin timer =>
      refine silent ?_ rfl rfl
      dsimp only [Agenda.runJob]
      split
      · exact asked
      · exact asked.sleep _ rfl
  | pollTick timer due =>
      have progress := a.progress (.pollTick timer due)
      generalize a.runJob (.pollTick timer due) = b at progress ⊢
      cases progress with
      | request about => cases about
      | waits _ _ early => simpa [fetches, early, Job.begins?] using asked.sleep due rfl
      | overlaps _ _ next count late policy count_eq =>
          have kinds_eq : (List.replicate count (Job.begin .fetchStats none)).filterMap
              Job.begins? = List.replicate count .fetchStats :=
            List.filterMap_replicate_of_some rfl
          have spawned : (a.spawnFetches count).Asked _ :=
            asked.more (List.replicate count (.begin .fetchStats none))
          rw [kinds_eq] at spawned
          have slept : ((a.spawnFetches count).sleep next (.pollTick timer next)).Asked _ :=
            spawned.sleep next rfl
          simpa [fetches, late.not_gt, policy, ← count_eq, Job.begins?] using slept
      | fetches _ _ next late policy =>
          have spawned := asked.spawn (.begin .fetchStats (some timer))
          have waits := spawned.fields (b := { a.spawn (.begin .fetchStats (some timer)) with
            waiting := some (timer, next) }) rfl rfl rfl
          simpa [fetches, late.not_gt, policy, Job.begins?, Request.kind] using waits

theorem taken {before after : List Job} (asked : a.Asked kinds)
    (member : a.ready = before ++ job :: after) :
    ∃ left, kinds = left + (job.begins?.toList : List Request.Kind) ∧
      ({ a with ready := before ++ after } : Agenda).Asked left := by
  refine ⟨_, ?_, rfl, asked.asleep⟩
  rw [← asked.all, member]
  cases begins : job.begins? with
  | none => simp [begins]
  | some kind =>
      simp [begins, ← Multiset.coe_add, ← Multiset.cons_coe, ← Multiset.singleton_add]
      abel

theorem stopPolling (asked : a.Asked kinds) : a.stopPolling.Asked kinds where
  all := by
    have plain (job : Job) : (if !job.isPoll then job.begins? else none) = job.begins? := by
      cases job <;> rfl
    simp only [Agenda.stopPolling, List.filterMap_filter, plain]
    exact asked.all
  asleep := fun e member => asked.asleep e (List.mem_of_mem_filter member)

theorem undertake (asked : a.Asked kinds) (e : Effect) :
    (a.undertake e).Asked (kinds + ((e.request?.map Request.kind).toList : List Request.Kind)) := by
  have silent (done : (a.undertake e).Asked kinds) (none : e.request? = none) :
      (a.undertake e).Asked
        (kinds + ((e.request?.map Request.kind).toList : List Request.Kind)) := by
    simpa [none] using done
  cases e with
  | «show» _ => exact silent asked rfl
  | send r => exact asked.spawn (.begin r none)
  | expireAfter ttl id => exact asked.spawn (.expiry ttl id)
  | startPolling =>
      have spawned := asked.stopPolling.spawn (.pollBegin a.started)
      exact spawned.fields rfl rfl rfl
  | stopPolling => exact silent asked.stopPolling rfl

theorem effects (asked : a.Asked kinds) (effects : List Effect) :
    (effects.foldl Agenda.undertake a).Asked
      (kinds + ((Effect.requests effects).map Request.kind : List Request.Kind)) := by
  induction effects generalizing a kinds with
  | nil => simpa using asked
  | cons e rest ih =>
      have last := ih (asked.undertake e)
      cases sent : e.request? <;>
        simpa [Effect.requests, sent, add_assoc, ← Multiset.cons_coe, ← Multiset.singleton_add]
          using last

theorem wakeAt (asked : a.Asked kinds) (moment : Nat) : (a.wakeAt moment).Asked kinds where
  all := by
    have woken : ((a.sleeping.takeWhile fun e => e.1 ≤ moment).map (·.2)).filterMap
        Job.begins? = [] := by
      simp only [List.filterMap_eq_nil_iff, List.mem_map]
      rintro job ⟨e, member, rfl⟩
      exact asked.asleep e ((List.takeWhile_prefix _).subset member)
    simpa [Agenda.wakeAt, woken] using asked.all
  asleep := fun e member => asked.asleep e ((List.dropWhile_suffix _).subset member)

end Asked

end Agenda

theorem Agenda.fetches_ready (a : Agenda) (ready : List Job) (job : Job) :
    ({ a with ready } : Agenda).fetches job = a.fetches job := by
  cases job <;> rfl

section

variable {s s' : Station} {m : Move} {kinds : Multiset Request.Kind}

theorem Step.asked (step : Step .any s m s') (asked : s.agenda.Asked kinds) :
    s'.agenda.Asked (kinds + ((Deed.mk s m).issued.map Request.kind : List Request.Kind)) := by
  have silent (done : s'.agenda.Asked kinds) (none : (Deed.mk s m).issued = []) :
      s'.agenda.Asked
        (kinds + ((Deed.mk s m).issued.map Request.kind : List Request.Kind)) := by
    simpa [none] using done
  cases step with
  | operate o =>
      rw [Station.agenda_take]
      exact asked.effects _
  | @handle c rest head =>
      rw [Station.handle, Station.agenda_take]
      have taken : { s.agenda with arrived := rest }.Asked kinds := asked.fields rfl rfl rfl
      exact taken.effects _
  | @work before after job ready =>
      obtain ⟨left, rfl, taken⟩ := asked.taken ready
      have ran := taken.runJob job
      rw [Agenda.fetches_ready] at ran
      simpa [Deed.issued, Request.kind] using ran
  | wake later => exact silent (asked.wakeAt _) rfl
  | outside change =>
      obtain ⟨engine, latency, script, uptime, rfl⟩ := change
      exact silent (asked.fields rfl rfl rfl) rfl

theorem Run.asked {form : Form} {options : Options} {engine : Engine} {latency : Nat}
    {clock : String} {log : History}
    (run : Run .any (.opened form options engine latency clock) log s) :
    s.agenda.Asked (log.issued.map Request.kind : List Request.Kind) := by
  induction run with
  | begin => exact ⟨rfl, nofun⟩
  | step run step ih => simpa [History.issued_append, ← Multiset.coe_add] using step.asked ih

/-- Where no work is ready, the engine's side has heard of all requests that were issued. -/
theorem Run.begun_settled {form : Form} {options : Options} {engine : Engine} {latency : Nat}
    {clock : String} {log : History}
    (run : Run .any (.opened form options engine latency clock) log s)
    (settled : s.agenda.ready = []) (kind : Request.Kind) :
    s.agenda.begun.count kind = log.issued.countP fun r => r.kind = kind := by
  have all := congrArg (Multiset.count kind) run.asked.all
  simp only [settled, List.filterMap_nil, Multiset.coe_nil, add_zero, Multiset.coe_count] at all
  rw [all, List.count_eq_countP, List.countP_map]
  rfl

end

end EngineConsole
