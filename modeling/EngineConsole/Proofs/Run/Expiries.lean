import EngineConsole.Proofs.Run.VirtualTime
import Mathlib.Data.List.TakeWhile

/-!
# Expiries

The expiry of an alert begins as a piece of work, goes to sleep and is queued as a completion when
the time of alerts is over. No step loses one or adds one but the effect that has it begin.
-/

set_option autoImplicit false

namespace EngineConsole

def Job.expires? : Job → Option Nat
  | .expiry _ id => some id
  | .expired id => some id
  | _ => none

def Completion.expires? : Completion → Option Nat
  | .alertExpired id => some id
  | _ => none

def Effect.expires? : Effect → Option Nat
  | .expireAfter _ id => some id
  | _ => none

namespace Agenda

variable {a b : Agenda} {job : Job}

/-- The alerts that something is going to take away: their timers, and what these have queued. -/
def expiries (a : Agenda) : Multiset Nat :=
  a.work.filterMap Job.expires? + (a.arrived.filterMap Completion.expires? : List Nat)

/-- The expiries are those of these alerts, and each is in time: a timer begins when its alert is
raised, and runs for as long as alerts are visible. -/
structure Expires (raisedAt : Nat → Nat → Prop) (ttl : Nat) (ids : Multiset Nat) (a : Agenda) :
    Prop where
  expiries : a.expiries = ids
  begins : ∀ span id, .expiry span id ∈ a.ready → span = ttl ∧ raisedAt id a.now
  waits : ∀ e ∈ a.sleeping, ∀ id, e.2.expires? = some id →
    e.2 = .expired id ∧ ∃ t, raisedAt id t ∧ e.1 = t + ttl
  finished : ∀ id, .expired id ∈ a.ready ∨ .alertExpired id ∈ a.arrived →
    ∃ t, raisedAt id t ∧ t + ttl ≤ a.now

theorem expires_none_of_matter {c : Completion} (matters : c.matter? ≠ none) :
    c.expires? = none := by
  cases c with
  | alertExpired id => exact absurd rfl matters
  | configLoaded | configSaved | statsFetched | statsCleared | toggleFinished | engineStatus => rfl

theorem expires_none_of_request {r : Request} (asked : job.request? = some r) :
    job.expires? = none := by
  cases job with
  | begin | proceed | serve => rfl
  | expiry | expired | pollBegin | pollTick => cases asked

namespace Expires

variable {raisedAt raisedAt' : Nat → Nat → Prop} {ttl : Nat} {ids : Multiset Nat}

/-- Work and completions that are no expiries may be added. -/
theorem grow (expires : a.Expires raisedAt ttl ids) (extra : Multiset Job)
    (ended : List Completion) (now : b.now = a.now) (work : b.work = a.work + extra)
    (ready : ∀ job ∈ b.ready, job ∈ a.ready ∨ job ∈ extra)
    (sleeping : ∀ e ∈ b.sleeping, e ∈ a.sleeping ∨ e.2 ∈ extra)
    (arrived : b.arrived = a.arrived ++ ended) (aside : ∀ job ∈ extra, job.expires? = none)
    (beside : ∀ c ∈ ended, c.expires? = none) : b.Expires raisedAt ttl ids := by
  refine ⟨?_, ?_, ?_, ?_⟩
  · have added : extra.filterMap Job.expires? = 0 := by
      refine Multiset.eq_zero_of_forall_notMem fun id member => ?_
      obtain ⟨job, found, expired⟩ := (Multiset.mem_filterMap _ _).mp member
      cases (aside job found).symm.trans expired
    have queued : ended.filterMap Completion.expires? = [] := List.filterMap_eq_nil_iff.mpr beside
    rw [← expires.expiries, Agenda.expiries, Agenda.expiries, work, arrived,
      Multiset.filterMap_add, added, add_zero, List.filterMap_append, queued, List.append_nil]
  · intro span id member
    rcases ready _ member with old | new
    · exact now ▸ expires.begins span id old
    · cases aside _ new
  · intro e member id expired
    rcases sleeping e member with old | new
    · exact expires.waits e old id expired
    · cases (aside _ new).symm.trans expired
  · intro id member
    rw [now]
    refine expires.finished id (member.imp (fun member => ?_) fun member => ?_)
    · exact (ready _ member).resolve_right fun new => by cases aside _ new
    · rw [arrived] at member
      exact (List.mem_append.mp member).resolve_right fun new => by cases beside _ new

theorem mono (expires : a.Expires raisedAt ttl ids)
    (more : ∀ id t, raisedAt id t → raisedAt' id t) : a.Expires raisedAt' ttl ids := by
  refine ⟨expires.expiries, ?_, ?_, ?_⟩
  · exact fun span id member => (expires.begins span id member).imp_right (more _ _)
  · intro e member id expired
    obtain ⟨same, t, raised, due⟩ := expires.waits e member id expired
    exact ⟨same, t, more _ _ raised, due⟩
  · intro id member
    obtain ⟨t, raised, due⟩ := expires.finished id member
    exact ⟨t, more _ _ raised, due⟩

/-- The expiry of an alert is queued once its time is over. -/
theorem post {id t : Nat} (expires : a.Expires raisedAt ttl ids) (raised : raisedAt id t)
    (due : t + ttl ≤ a.now) : (a.post (.alertExpired id)).Expires raisedAt ttl (ids + {id}) := by
  refine ⟨?_, expires.begins, expires.waits, ?_⟩
  · have queued : ((a.post (.alertExpired id)).arrived.filterMap Completion.expires? : List Nat) =
        a.arrived.filterMap Completion.expires? ++ [id] := by
      simp [Agenda.post, Completion.expires?]
    rw [← expires.expiries, Agenda.expiries, Agenda.expiries, add_assoc]
    refine congrArg _ ?_
    exact (congrArg _ queued).trans (Multiset.coe_add _ _).symm
  · intro other member
    rcases member with ready | arrived
    · exact expires.finished other (.inl ready)
    · rcases List.mem_append.mp arrived with old | new
      · exact expires.finished other (.inr old)
      · obtain rfl := Completion.alertExpired.inj (List.mem_singleton.mp new)
        exact ⟨t, raised, due⟩

theorem sleep {id t : Nat} (expires : a.Expires raisedAt ttl ids) (raised : raisedAt id t) :
    (a.sleep (t + ttl) (.expired id)).Expires raisedAt ttl (ids + {id}) := by
  refine ⟨?_, expires.begins, ?_, expires.finished⟩
  · rw [← expires.expiries, Agenda.expiries, Agenda.expiries, work_sleep, Multiset.filterMap_add,
      filterMap_singleton]
    exact add_right_comm _ _ _
  · intro e member other expired
    rcases mem_insertSleeper.mp member with rfl | old
    · obtain rfl := Option.some.inj expired
      exact ⟨rfl, t, raised, rfl⟩
    · exact expires.waits e old other expired

theorem spawn (expires : a.Expires raisedAt ttl ids) (aside : job.expires? = none) :
    (a.spawn job).Expires raisedAt ttl ids := by
  refine expires.grow {job} [] rfl (a.work_spawn job) ?_ (fun _ member => .inl member)
    (List.append_nil _).symm (by simpa using aside) nofun
  exact fun other member => (List.mem_append.mp member).imp_right (by simp)

theorem sleepAside (expires : a.Expires raisedAt ttl ids) (moment : Nat)
    (aside : job.expires? = none) : (a.sleep moment job).Expires raisedAt ttl ids := by
  refine expires.grow {job} [] rfl (a.work_sleep moment job) (fun _ member => .inl member) ?_
    (List.append_nil _).symm (by simpa using aside) nofun
  intro e member
  rcases mem_insertSleeper.mp member with rfl | old
  · exact .inr (Multiset.mem_singleton_self _)
  · exact .inl old

theorem release (expires : a.Expires raisedAt ttl ids) (waiter : Option Nat) :
    (a.release waiter).Expires raisedAt ttl ids := by
  unfold Agenda.release
  split
  next timer _ due _ =>
    split
    · have spawned : (a.spawn (.pollTick timer due)).Expires raisedAt ttl ids := expires.spawn rfl
      exact ⟨spawned.expiries, spawned.begins, spawned.waits, spawned.finished⟩
    · exact expires
  next => exact expires

theorem spawnFetches (expires : a.Expires raisedAt ttl ids) (count : Nat) :
    (a.spawnFetches count).Expires raisedAt ttl ids := by
  refine expires.grow (List.replicate count (Job.begin .fetchStats none) : List Job) [] rfl
    (work_of_ready _ rfl rfl) (fun _ member => ?_) (fun _ member => .inl member)
    (List.append_nil _).symm (fun other member => ?_) nofun
  · exact (List.mem_append.mp member).imp_right id
  · rw [List.eq_of_mem_replicate member]
    rfl

/-- Running work moves an expiry on, in time, and leaves the others alone. -/
theorem runJob (expires : a.Expires raisedAt ttl ids)
    (begins : ∀ span id, job = .expiry span id → span = ttl ∧ raisedAt id a.now)
    (finished : ∀ id, job = .expired id → ∃ t, raisedAt id t ∧ t + ttl ≤ a.now) :
    (a.runJob job).Expires raisedAt ttl (ids + (job.expires?.toList : List Nat)) := by
  have same {b : Agenda} (aside : job.expires? = none) (still : b.Expires raisedAt ttl ids) :
      b.Expires raisedAt ttl (ids + (job.expires?.toList : List Nat)) := by
    rwa [aside, Option.toList_none, Multiset.coe_nil, add_zero]
  have progress := a.progress job
  generalize a.runJob job = b at progress ⊢
  cases progress with
  | request asked worked =>
      refine same (expires_none_of_request asked) ?_
      cases worked with
      | finished engine script begun ended _ matters whole =>
          have released := expires.release job.waiter?
          rw [whole]
          refine released.grow 0 ended rfl (add_zero _).symm (fun _ member => .inl member)
            (fun _ member => .inl member) ?_ nofun fun c member => ?_
          · exact congrArg (· ++ ended) (a.arrived_release _).symm
          · exact expires_none_of_matter (matters c member)
      | asleep engine script begun moment later _ _ asked' _ whole =>
          have slept := expires.sleepAside moment (expires_none_of_request (asked'.trans asked))
          rw [whole]
          exact ⟨slept.expiries, slept.begins, slept.waits, slept.finished⟩
  | expires span id =>
      obtain ⟨rfl, raised⟩ := begins span id rfl
      exact expires.sleep raised
  | expiresNow id =>
      obtain ⟨rfl, raised⟩ := begins 0 id rfl
      exact expires.post raised (Nat.le_refl _)
  | expired id =>
      obtain ⟨t, raised, due⟩ := finished id rfl
      exact expires.post raised due
  | still => exact same rfl expires
  | begins => exact same rfl (expires.sleepAside _ rfl)
  | waits => exact same rfl (expires.sleepAside _ rfl)
  | overlaps timer due next count =>
      exact same rfl ((expires.spawnFetches count).sleepAside next rfl)
  | fetches timer =>
      have spawned : (a.spawn (.begin .fetchStats (some timer))).Expires raisedAt ttl ids :=
        expires.spawn rfl
      exact same rfl ⟨spawned.expiries, spawned.begins, spawned.waits, spawned.finished⟩

/-- What is left of the expiries when a piece of work is taken up. -/
theorem taken {before after : List Job} (expires : a.Expires raisedAt ttl ids)
    (member : a.ready = before ++ job :: after) :
    ∃ rest, ids = rest + (job.expires?.toList : List Nat) ∧
      ({ a with ready := before ++ after } : Agenda).Expires raisedAt ttl rest := by
  have still {other : Job} (left : other ∈ before ++ after) : other ∈ a.ready := by
    rw [member]
    exact (List.mem_append.mp left).elim (List.mem_append_left _)
      fun later => List.mem_append_right _ (List.mem_cons_of_mem _ later)
  refine ⟨_, ?_, rfl, ?_, expires.waits, ?_⟩
  · rw [← expires.expiries, Agenda.expiries, work_taken member, Multiset.filterMap_add,
      filterMap_singleton]
    exact add_right_comm _ _ _
  · exact fun span id left => expires.begins span id (still left)
  · exact fun id left => expires.finished id (left.imp_left still)

/-- An alert's time is over when its timer is woken. -/
theorem wakeAt {moment : Nat} (expires : a.Expires raisedAt ttl ids) (later : a.now ≤ moment)
    (idle : a.ready = []) (first : ∀ e ∈ a.sleeping, moment ≤ e.1) :
    (a.wakeAt moment).Expires raisedAt ttl ids := by
  have woken {job : Job} (member : job ∈ (a.wakeAt moment).ready) :
      ∃ e ∈ a.sleeping, e.1 = moment ∧ e.2 = job := by
    have member : job ∈ a.ready ++ _ := member
    rw [idle, List.nil_append] at member
    obtain ⟨e, taken, same⟩ := List.mem_map.mp member
    have sleeping := List.takeWhile_subset _ taken
    have due : e.1 ≤ moment := by simpa using List.mem_takeWhile_imp taken
    exact ⟨e, sleeping, Nat.le_antisymm due (first e sleeping), same⟩
  refine ⟨?_, ?_, ?_, ?_⟩
  · rw [← expires.expiries, Agenda.expiries, Agenda.expiries, work_wakeAt]
    rfl
  · intro span id member
    obtain ⟨e, sleeping, -, same⟩ := woken member
    have expired := (expires.waits e sleeping id (by rw [same]; rfl)).1
    cases same.symm.trans expired
  · exact fun e member => expires.waits e (List.dropWhile_subset _ member)
  · intro id member
    rcases member with ready | arrived
    · obtain ⟨e, sleeping, now, same⟩ := woken ready
      obtain ⟨-, t, raised, due⟩ := expires.waits e sleeping id (by rw [same]; rfl)
      exact ⟨t, raised, (due.symm.trans now).le⟩
    · obtain ⟨t, raised, due⟩ := expires.finished id (.inr arrived)
      exact ⟨t, raised, due.trans later⟩

theorem stopPolling (expires : a.Expires raisedAt ttl ids) :
    a.stopPolling.Expires raisedAt ttl ids := by
  refine ⟨?_, ?_, ?_, ?_⟩
  · have dropped : ∀ job : Job, (if !job.isPoll then job.expires? else none) = job.expires? := by
      intro job
      cases job <;> rfl
    rw [← expires.expiries, Agenda.expiries, Agenda.expiries, work_stopPolling,
      Multiset.filterMap_filter]
    simp only [dropped]
    rfl
  · exact fun span id member => expires.begins span id (List.mem_of_mem_filter member)
  · exact fun e member => expires.waits e (List.mem_of_mem_filter member)
  · exact fun id member => expires.finished id (member.imp_left List.mem_of_mem_filter)

theorem undertake (expires : a.Expires raisedAt ttl ids) (e : Effect)
    (begins : ∀ span id, e = .expireAfter span id → span = ttl ∧ raisedAt id a.now) :
    (a.undertake e).Expires raisedAt ttl (ids + (e.expires?.toList : List Nat)) := by
  have aside (none : e.expires? = none) (same : (a.undertake e).Expires raisedAt ttl ids) :
      (a.undertake e).Expires raisedAt ttl (ids + (e.expires?.toList : List Nat)) := by
    rw [none]
    exact (add_zero ids).symm ▸ same
  cases e with
  | «show» _ => exact aside rfl expires
  | send r => exact aside rfl (expires.spawn rfl)
  | expireAfter span id =>
      obtain ⟨rfl, raised⟩ := begins span id rfl
      refine ⟨?_, ?_, expires.waits, ?_⟩
      · rw [← expires.expiries, Agenda.expiries, Agenda.expiries, Agenda.undertake, work_spawn,
          Multiset.filterMap_add, filterMap_singleton]
        exact add_right_comm _ _ _
      · intro other id' member
        rcases List.mem_append.mp member with old | new
        · exact expires.begins other id' old
        · cases List.mem_singleton.mp new
          exact ⟨rfl, raised⟩
      · refine fun id' member => expires.finished id' (member.imp_left fun member => ?_)
        exact (List.mem_append.mp member).resolve_right (by simp)
  | startPolling =>
      have spawned : (a.stopPolling.spawn (.pollBegin a.started)).Expires raisedAt ttl ids :=
        expires.stopPolling.spawn rfl
      exact aside rfl ⟨spawned.expiries, spawned.begins, spawned.waits, spawned.finished⟩
  | stopPolling => exact aside rfl expires.stopPolling

/-- Timers that are begun add to the expiries. -/
theorem effects (expires : a.Expires raisedAt ttl ids) (effects : List Effect)
    (begins : ∀ span id, .expireAfter span id ∈ effects → span = ttl ∧ raisedAt id a.now) :
    (effects.foldl Agenda.undertake a).Expires raisedAt ttl
      (ids + (effects.filterMap Effect.expires? : List Nat)) := by
  induction effects generalizing a ids with
  | nil => exact (add_zero ids).symm ▸ expires
  | cons e rest ih =>
      have first := expires.undertake e
        fun span id same => begins span id (same ▸ List.mem_cons_self)
      have now : (a.undertake e).now = a.now := a.now_effects [e]
      have all : ids + ((e :: rest).filterMap Effect.expires? : List Nat) =
          ids + (e.expires?.toList : List Nat) + (rest.filterMap Effect.expires? : List Nat) := by
        rw [add_assoc, Multiset.coe_add]
        cases expired : e.expires? <;> simp [expired]
      rw [all, List.foldl_cons]
      refine ih first fun span id member => ?_
      rw [now]
      exact begins span id (List.mem_cons_of_mem _ member)

/-- What is left of the expiries when a completion is taken from the queue. -/
theorem dequeue {c : Completion} {rest : List Completion} (expires : a.Expires raisedAt ttl ids)
    (head : a.arrived = c :: rest) :
    ∃ left, ids = left + (c.expires?.toList : List Nat) ∧
      ({ a with arrived := rest } : Agenda).Expires raisedAt ttl left := by
  have queue : a.arrived.filterMap Completion.expires? =
      c.expires?.toList ++ rest.filterMap Completion.expires? := by
    rw [head]
    cases expired : c.expires? <;> simp [expired]
  refine ⟨_, ?_, rfl, expires.begins, expires.waits, ?_⟩
  · rw [← expires.expiries, Agenda.expiries, queue, ← Multiset.coe_add,
      add_comm (c.expires?.toList : Multiset Nat), ← add_assoc]
    rfl
  · refine fun id member => expires.finished id (member.imp_right fun member => ?_)
    rw [head]
    exact List.mem_cons_of_mem _ member

end Expires

end Agenda

end EngineConsole
