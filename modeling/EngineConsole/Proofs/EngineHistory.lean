import EngineConsole.Proofs.AlertPolicy
import EngineConsole.Proofs.ReadingOrder
import Mathlib.Data.List.DropRight

/-!
# The history of a simulated engine

Requests arrive at an engine and are served, its counters are overwritten, and it is cut off and
reached again, in any order. Of all that only what succeeds leaves a mark, and the marks alone tell
whether the engine runs and where each of its counters stands.
-/

set_option autoImplicit false

namespace EngineConsole

theorem Counts.toNat_le_largest (value : UInt64) : value.toNat ≤ largest :=
  Nat.le_of_lt_succ value.toNat_lt

namespace Engine

/-! ## Acts -/

/-- What can happen to an engine. A request arrives at one moment and is served at another. -/
inductive Act where
  | arrive (r : Request)
  | serve (uptime : String) (r : Request)
  | setCounter (key : String) (value : UInt64)
  | setOffline (offline : Bool)

namespace Act

def arrived? : Act → Option Request
  | .arrive r => some r
  | .serve _ _ => none
  | .setCounter _ _ => none
  | .setOffline _ => none

def served? : Act → Option Request
  | .arrive _ => none
  | .serve _ r => some r
  | .setCounter _ _ => none
  | .setOffline _ => none

/-- It comes from whoever asks, not from outside. -/
def isAsked : Act → Bool
  | .arrive _ => true
  | .serve _ _ => true
  | .setCounter _ _ => false
  | .setOffline _ => false

end Act

def perform (e : Engine) : Act → Engine
  | .arrive r => e.arrive r.endpoint
  | .serve uptime r => (e.serve uptime r).1
  | .setCounter key value => e.setCounter key value
  | .setOffline offline => { e with offline }

def after (e : Engine) (acts : List Act) : Engine :=
  acts.foldl perform e

theorem after_append (e : Engine) (acts more : List Act) :
    e.after (acts ++ more) = (e.after acts).after more :=
  List.foldl_append

theorem after_concat (e : Engine) (acts : List Act) (act : Act) :
    e.after (acts ++ [act]) = (e.after acts).perform act :=
  List.foldl_concat _ _ _ _

/-! ## Marks -/

/-- What an act that succeeds does to whether the engine runs and to its counters. -/
inductive Mark where
  | started
  | stopped
  | cleared
  /-- Counters were read while the engine was running. -/
  | advanced
  | set (key : String) (value : UInt64)
  deriving DecidableEq

namespace Mark

def runs? : Mark → Option Bool
  | .started => some true
  | .stopped => some false
  | .cleared => none
  | .advanced => none
  | .set _ _ => none

/-- The value that a counter is given, whatever it stood at. -/
def gives? (key : String) : Mark → Option UInt64
  | .started => if Gauge.clients.key = key then some startedClients else none
  | .stopped => none
  | .cleared => some 0
  | .advanced => none
  | .set name value => if name = key then some value else none

end Mark

/-- The mark of a request that is served now. One that fails leaves none. -/
def markServed? (e : Engine) (uptime : String) (r : Request) : Option Mark :=
  if (e.serve uptime r).2.fails then none
  else
    match r with
    | .fetchStats => if e.running then some .advanced else none
    | .clearStats => some .cleared
    | .start => some .started
    | .stop => some .stopped
    | .loadConfig => none
    | .saveConfig _ => none
    | .askStatus => none

def mark? (e : Engine) : Act → Option Mark
  | .arrive _ => none
  | .serve uptime r => e.markServed? uptime r
  | .setCounter key value => some (.set key value)
  | .setOffline _ => none

def marks (e : Engine) : List Act → List Mark
  | [] => []
  | act :: acts => (e.mark? act).toList ++ (e.perform act).marks acts

theorem marks_concat (e : Engine) (acts : List Act) (act : Act) :
    e.marks (acts ++ [act]) = e.marks acts ++ ((e.after acts).mark? act).toList := by
  induction acts generalizing e with
  | nil => exact List.append_nil _
  | cons first rest ih =>
      rw [List.cons_append, marks, marks, ih, List.append_assoc]
      rfl

/-- What a counter was last given. -/
def given (key : String) (marks : List Mark) : UInt64 :=
  (marks.filterMap (Mark.gives? key)).getLast?.getD 0

/-- How often counters were read, while the engine was running, since a counter was last given its
value. -/
def readsSince (key : String) (marks : List Mark) : Nat :=
  (marks.rtakeWhile fun m => (m.gives? key).isNone).count .advanced

/-- By how much a counter advances at a time. -/
def increment (key : String) : Nat :=
  (increments.map fun step => if step.1.key = key then step.2.toNat else 0).sum

section

variable {e : Engine} {uptime key : String} {r : Request} {act : Act} {m : Mark} {marks : List Mark}

theorem given_concat (key : String) (marks : List Mark) (m : Mark) :
    given key (marks ++ [m]) = (m.gives? key).getD (given key marks) := by
  unfold given
  rw [List.filterMap_append, List.getLast?_append]
  cases gives : m.gives? key <;> simp [gives]

theorem readsSince_given (gives : (m.gives? key).isSome) : readsSince key (marks ++ [m]) = 0 := by
  unfold readsSince
  rw [List.rtakeWhile_concat_neg _ _ _ (by simpa [Option.isSome_iff_ne_none] using gives)]
  rfl

theorem readsSince_kept (kept : m.gives? key = none) :
    readsSince key (marks ++ [m]) = readsSince key marks + if m = .advanced then 1 else 0 := by
  unfold readsSince
  rw [List.rtakeWhile_concat_pos _ _ _ (by simp [kept]), List.count_append, List.count_singleton]
  simp only [beq_iff_eq]

/-! ## What an act does -/

/-- What a mark makes of an engine. -/
def marked (e : Engine) : Mark → Engine
  | .started => { e.setCounter Gauge.clients.key startedClients with running := true }
  | .stopped => { e with running := false }
  | .cleared => { e with counts := .empty }
  | .advanced => { e with counts := advanced e.counts }
  | .set key value => e.setCounter key value

theorem fails_serve : (e.serve uptime r).2.fails = true ↔
    e.offline = true ∨ (r = .start ∧ (e.running = true ∨ e.config.isEmpty = true)) ∨
      (r = .stop ∧ e.running = false) := by
  unfold serve
  cases e.offline with
  | true => cases r <;> simp [Request.failed, Completion.fails, Except.isOk, Except.toBool]
  | false =>
      cases r with
      | start =>
          unfold start
          cases e.running <;> cases e.config.isEmpty <;>
            simp [Completion.fails, Except.isOk, Except.toBool]
      | stop =>
          unfold stop
          cases e.running <;> simp [Completion.fails, Except.isOk, Except.toBool]
      | loadConfig | saveConfig | fetchStats | clearStats | askStatus =>
          simp [Completion.fails, Except.isOk, Except.toBool]

/-- A request that fails leaves the engine as it is. -/
theorem serve_of_fails (fails : (e.serve uptime r).2.fails = true) : (e.serve uptime r).1 = e := by
  unfold serve
  rcases fails_serve.mp fails with offline | ⟨rfl, refused⟩ | ⟨rfl, idle⟩
  · rw [if_pos offline]
  · split
    · rfl
    · cases running : e.running with
      | true => simp [start, running]
      | false => simp [start, running, refused.resolve_left (by simp [running])]
  · split
    · rfl
    · simp [stop, idle]

theorem serve_fetch (reached : e.offline = false) :
    (e.serve uptime .fetchStats).2 =
      .statsFetched (.ok (e.serve uptime .fetchStats).1.counts) := by
  simp [serve, reached]

/-- But for the configuration that it keeps, what becomes of an engine is what the mark says. -/
theorem serve_eq_marked (e : Engine) (uptime : String) (r : Request) :
    (e.serve uptime r).1 = { (e.markServed? uptime r).elim e e.marked with
      config := (e.serve uptime r).1.config } := by
  unfold markServed?
  by_cases fails : (e.serve uptime r).2.fails = true
  · rw [if_pos fails, serve_of_fails fails]
    rfl
  · rw [if_neg fails]
    rw [fails_serve] at fails
    push Not at fails
    obtain ⟨reached, started, stopped⟩ := fails
    unfold serve
    rw [if_neg reached]
    cases r with
    | start =>
        obtain ⟨idle, some⟩ := started rfl
        simp [start, idle, some, marked, setCounter]
    | stop => simp [stop, stopped rfl, marked]
    | fetchStats => cases running : e.running <;> simp [marked, running]
    | loadConfig | saveConfig | clearStats | askStatus => rfl

theorem seen_serve (e : Engine) (uptime : String) (r : Request) :
    (e.serve uptime r).1.seen = e.seen := by
  rw [serve_eq_marked]
  cases e.markServed? uptime r with
  | none => rfl
  | some m => cases m <;> rfl

theorem seen_perform (e : Engine) (act : Act) :
    (e.perform act).seen = e.seen ++ (act.arrived?.map Request.endpoint).toList := by
  cases act with
  | arrive r => rfl
  | serve uptime r => exact (seen_serve e uptime r).trans (List.append_nil _).symm
  | setCounter key value => exact (List.append_nil _).symm
  | setOffline offline => exact (List.append_nil _).symm

theorem running_perform (e : Engine) (act : Act) :
    (e.perform act).running = ((e.mark? act).bind Mark.runs?).getD e.running := by
  cases act with
  | arrive | setCounter | setOffline => rfl
  | serve uptime r =>
      apply (congrArg Engine.running (serve_eq_marked e uptime r)).trans
      dsimp only [mark?]
      cases e.markServed? uptime r with
      | none => rfl
      | some m => cases m <;> rfl

theorem counts_perform (e : Engine) (act : Act) :
    (e.perform act).counts = ((e.mark? act).map fun m => (e.marked m).counts).getD e.counts := by
  cases act with
  | arrive | setCounter | setOffline => rfl
  | serve uptime r =>
      apply (congrArg Engine.counts (serve_eq_marked e uptime r)).trans
      dsimp only [mark?]
      cases e.markServed? uptime r <;> rfl

/-! ## Counters -/

/-- A reading advances each counter by its increment, and no further than a count goes. Sums that
stop there add up as sums do, so a counter may be advanced by any number of steps. -/
theorem count_advanced (counts : Counts) (key : String) :
    ((advanced counts).count key).toNat =
      min Counts.largest ((counts.count key).toNat + increment key) := by
  unfold advanced increment
  generalize increments = steps
  induction steps generalizing counts with
  | nil => exact (Nat.min_eq_right (Counts.toNat_le_largest _)).symm
  | cons step rest ih =>
      rw [List.foldl_cons, ih, List.map_cons, List.sum_cons, Counts.count_advance]
      by_cases same : key = step.1.key
      · rw [if_pos same, if_pos same.symm, Counts.toNat_addUpTo, ← same]
        omega
      · rw [if_neg same, if_neg (Ne.symm same), Nat.zero_add]

theorem count_setCounter (e : Engine) (name key : String) (value : UInt64) :
    (e.setCounter name value).counts.count key =
      (if name = key then some value else none).getD (e.counts.count key) := by
  unfold setCounter Counts.count
  rw [Catalog.get?_insert]
  by_cases same : name = key
  · rw [if_pos same, if_pos same.symm, Option.getD_some, Option.getD_some]
  · rw [if_neg same, if_neg (Ne.symm same), Option.getD_none]

theorem count_marked_of_gives {value : UInt64} (gives : m.gives? key = some value) :
    (e.marked m).counts.count key = value := by
  cases m with
  | stopped | advanced => cases gives
  | cleared =>
      cases gives
      rfl
  | started =>
      apply (count_setCounter e Gauge.clients.key key startedClients).trans
      exact congrArg (Option.getD · _) gives
  | set name given =>
      apply (count_setCounter e name key given).trans
      exact congrArg (Option.getD · _) gives

theorem count_marked_of_keeps (keeps : m.gives? key = none) :
    ((e.marked m).counts.count key).toNat = min Counts.largest
      ((e.counts.count key).toNat + increment key * if m = .advanced then 1 else 0) := by
  by_cases reads : m = .advanced
  · subst reads
    rw [if_pos rfl, Nat.mul_one]
    exact count_advanced e.counts key
  · rw [if_neg reads, Nat.mul_zero, Nat.add_zero, Nat.min_eq_right (Counts.toNat_le_largest _)]
    congr 1
    cases m with
    | stopped => rfl
    | cleared => cases keeps
    | advanced => exact absurd rfl reads
    | started =>
        apply (count_setCounter e Gauge.clients.key key startedClients).trans
        exact congrArg (Option.getD · _) keeps
    | set name given =>
        apply (count_setCounter e name key given).trans
        exact congrArg (Option.getD · _) keeps

/-- A counter is at the value it was last given and the readings since then, unless that is more
than it can hold. -/
theorem count_after (first : Engine) (fresh : first.counts = .empty) (acts : List Act)
    (key : String) : ((first.after acts).counts.count key).toNat =
      min Counts.largest ((given key (first.marks acts)).toNat +
        increment key * readsSince key (first.marks acts)) := by
  induction acts using List.reverseRecOn with
  | nil =>
      change (first.counts.count key).toNat = _
      rw [fresh]
      rfl
  | append_singleton acts act ih =>
      rw [after_concat, marks_concat, counts_perform]
      cases mark : (first.after acts).mark? act with
      | none =>
          rw [Option.toList_none, List.append_nil]
          exact ih
      | some m =>
          rw [Option.toList_some, given_concat, Option.map_some, Option.getD_some]
          cases gives : m.gives? key with
          | some value =>
              rw [count_marked_of_gives gives, readsSince_given (by simp [gives]),
                Option.getD_some, Nat.mul_zero, Nat.add_zero,
                Nat.min_eq_right (Counts.toNat_le_largest _)]
          | none =>
              rw [count_marked_of_keeps gives, readsSince_kept gives, ih, Option.getD_none,
                Nat.mul_add]
              omega

/-! ## Histories -/

theorem seen_after (first : Engine) (acts : List Act) :
    (first.after acts).seen =
      first.seen ++ (acts.filterMap Act.arrived?).map Request.endpoint := by
  induction acts using List.reverseRecOn with
  | nil => exact (List.append_nil _).symm
  | append_singleton acts act ih =>
      rw [after_concat, seen_perform, ih, List.filterMap_append, List.map_append,
        List.append_assoc]
      cases act <;> rfl

theorem running_after (first : Engine) (acts : List Act) : (first.after acts).running =
    (((first.marks acts).filterMap Mark.runs?).getLast?).getD first.running := by
  induction acts using List.reverseRecOn with
  | nil => rfl
  | append_singleton acts act ih =>
      rw [after_concat, running_perform, marks_concat, ih, List.filterMap_append,
        List.getLast?_append]
      cases mark : (first.after acts).mark? act with
      | none => simp
      | some m => cases runs : m.runs? <;> simp [runs]

theorem increment_of_mem {step : Gauge × UInt64} (member : step ∈ increments) :
    increment step.1.key = step.2.toNat := by
  revert step
  decide

end

end Engine

/-! ## Work -/

/-- The request that has arrived at the engine and is to be served when the work is run. -/
def Job.awaits? : Job → Option Request
  | .serve r _ => some r
  | _ => none

namespace Agenda

variable {a : Agenda} {job : Job}

/-- The request, if it gets to the engine once it is through with the delay of its script entry. -/
def reached? (r : Request) (ending : Scripted) : Option Request :=
  if ending = .crash ∨ (ending.completion? r).isSome then none else some r

/-- The request that arrives at the engine when a piece of work is run. -/
def reaches? (a : Agenda) : Job → Option Request
  | .begin r _ =>
    let entry := (a.script.next r.kind).1
    if entry.delay = 0 then reached? r entry.ending else none
  | .proceed r ending _ => reached? r ending
  | .serve _ _ => none
  | .expiry _ _ => none
  | .expired _ => none
  | .pollBegin _ => none
  | .pollTick _ _ => none

/-- What happens to the engine when a piece of work is run. -/
def acts (a : Agenda) (job : Job) : List Engine.Act :=
  (a.reaches? job).toList.map .arrive ++ (a.serves? job).toList.map (.serve a.uptime)

theorem asked_acts (a : Agenda) (job : Job) :
    (a.acts job).filter Engine.Act.isAsked = a.acts job := by
  apply List.filter_eq_self.mpr
  intro act member
  rcases List.mem_append.mp member with arrives | serves
  · obtain ⟨r, -, rfl⟩ := List.mem_map.mp arrives
    rfl
  · obtain ⟨r, -, rfl⟩ := List.mem_map.mp serves
    rfl

theorem served_acts (a : Agenda) (job : Job) :
    (a.acts job).filterMap Engine.Act.served? = (a.serves? job).toList := by
  unfold acts
  cases a.reaches? job <;> cases a.serves? job <;> rfl

theorem arrived_acts (a : Agenda) (job : Job) :
    (a.acts job).filterMap Engine.Act.arrived? = (a.reaches? job).toList := by
  unfold acts
  cases a.reaches? job <;> cases a.serves? job <;> rfl

theorem engine_proceed (a : Agenda) (r : Request) (ending : Scripted) (waiter : Option Nat) :
    (a.proceed r ending waiter).engine = a.engine.after
      ((reached? r ending).toList.map .arrive ++
        (a.heard? r ending).toList.map (.serve a.uptime)) := by
  unfold proceed reached? heard?
  by_cases dies : ending = .crash
  · simp [dies, Engine.after]
  · cases answer : ending.completion? r with
    | some c => simp [dies, post, Engine.after]
    | none =>
        by_cases soon : a.latency = 0
        · simp [dies, soon, serve, post, Engine.after, Engine.perform]
        · simp [dies, soon, sleep, Engine.after, Engine.perform]

theorem engine_begin (a : Agenda) (r : Request) (waiter : Option Nat) :
    (a.begin r waiter).engine = a.engine.after (a.acts (.begin r waiter)) := by
  unfold begin acts reaches? serves?
  cases next : a.script.next r.kind with
  | mk entry script =>
      by_cases soon : entry.delay = 0
      · simp only [next, soon, if_true, engine_proceed]
        rfl
      · simp [next, soon, sleep, Engine.after]

theorem engine_runJob (a : Agenda) (job : Job) :
    (a.runJob job).engine = a.engine.after (a.acts job) := by
  cases job with
  | begin r waiter => exact engine_begin a r waiter
  | proceed r ending waiter => exact engine_proceed a r ending waiter
  | serve r waiter =>
      simp [runJob, serve, post, acts, reaches?, serves?, Engine.after, Engine.perform]
  | expiry ttl id =>
      dsimp only [runJob]
      split <;> rfl
  | expired id => rfl
  | pollBegin timer =>
      dsimp only [runJob]
      split <;> rfl
  | pollTick timer due =>
      dsimp only [runJob, tick]
      split
      · rfl
      · split <;> rfl

/-! ## Requests on their way through the engine -/

/-- The requests that have arrived at the engine and wait to be served. -/
def awaiting (a : Agenda) : Multiset Request :=
  a.work.filterMap Job.awaits?

theorem awaiting_of_ready {a b : Agenda} (extra : List Job) (ready : b.ready = a.ready ++ extra)
    (sleeping : b.sleeping = a.sleeping) (begins : extra.filterMap Job.awaits? = []) :
    b.awaiting = a.awaiting := by
  unfold awaiting
  rw [work_of_ready extra ready sleeping, Multiset.filterMap_add, Multiset.filterMap_coe, begins]
  exact add_zero _

theorem awaiting_sleep (a : Agenda) (moment : Nat) (job : Job) :
    (a.sleep moment job).awaiting = a.awaiting + (job.awaits?.toList : Multiset Request) := by
  unfold awaiting
  rw [work_sleep, Multiset.filterMap_add, filterMap_singleton]

theorem awaiting_release (a : Agenda) (waiter : Option Nat) :
    (a.release waiter).awaiting = a.awaiting := by
  unfold release
  split
  next timer _ due _ =>
    split
    · exact awaiting_of_ready [.pollTick timer due] rfl rfl rfl
    · rfl
  next => rfl

theorem awaiting_serve (a : Agenda) (r : Request) (waiter : Option Nat) :
    (a.serve r waiter).awaiting = a.awaiting := by
  unfold serve
  exact awaiting_release _ _

theorem awaiting_proceed (a : Agenda) (r : Request) (ending : Scripted) (waiter : Option Nat) :
    (a.proceed r ending waiter).awaiting + ((a.heard? r ending).toList : Multiset Request) =
      a.awaiting + ((reached? r ending).toList : Multiset Request) := by
  unfold proceed reached? heard?
  by_cases dies : ending = .crash
  · simp [dies, awaiting_release]
  · cases answer : ending.completion? r with
    | some c =>
        have posted : (a.post c).awaiting = a.awaiting := rfl
        simp [dies, awaiting_release, posted]
    | none =>
        have arrived : { a with engine := a.engine.arrive r.endpoint }.awaiting = a.awaiting := rfl
        by_cases soon : a.latency = 0
        · simp only [dies, soon, if_true, if_false, Option.isSome_none, Bool.false_eq_true, ne_eq,
            not_true, or_false, awaiting_serve]
          rfl
        · simp only [dies, soon, if_true, if_false, Option.isSome_none, Bool.false_eq_true, ne_eq,
            not_false_eq_true, or_true, or_false, awaiting_sleep, arrived]
          exact add_zero _

theorem awaiting_begin (a : Agenda) (r : Request) (waiter : Option Nat) :
    (a.begin r waiter).awaiting + ((a.serves? (.begin r waiter)).toList : Multiset Request) =
      a.awaiting + ((a.reaches? (.begin r waiter)).toList : Multiset Request) := by
  unfold begin reaches? serves?
  cases next : a.script.next r.kind with
  | mk entry script =>
      by_cases soon : entry.delay = 0
      · simp only [next, soon, if_true]
        exact awaiting_proceed { a with script, begun := a.begun ++ [r.kind] } r entry.ending waiter
      · simp only [next, soon, if_false, awaiting_sleep]
        exact congrArg (· + _) (add_zero _)

theorem awaiting_tick (a : Agenda) (timer due : Nat) :
    (a.tick timer due).awaiting = a.awaiting := by
  unfold tick
  split
  · rw [awaiting_sleep]
    exact add_zero _
  · split
    · dsimp only
      rw [awaiting_sleep]
      apply (add_zero _).trans
      refine awaiting_of_ready (List.replicate _ _) (by rfl) (by rfl) ?_
      exact List.filterMap_replicate_of_none rfl
    · exact awaiting_of_ready [.begin .fetchStats (some timer)] rfl rfl rfl

/-- A request that arrives is served at once or waits, and one that waited is served. -/
theorem awaiting_runJob (a : Agenda) (job : Job) :
    (a.runJob job).awaiting + ((a.serves? job).toList : Multiset Request) =
      a.awaiting + ((a.reaches? job).toList : Multiset Request) +
        (job.awaits?.toList : Multiset Request) := by
  have aside (same : (a.runJob job).awaiting = a.awaiting) (serves : a.serves? job = none)
      (reaches : a.reaches? job = none) (awaits : job.awaits? = none) :
      (a.runJob job).awaiting + ((a.serves? job).toList : Multiset Request) =
        a.awaiting + ((a.reaches? job).toList : Multiset Request) +
          (job.awaits?.toList : Multiset Request) := by
    simp [same, serves, reaches, awaits]
  cases job with
  | begin r waiter => exact (awaiting_begin a r waiter).trans (add_zero _).symm
  | proceed r ending waiter => exact (awaiting_proceed a r ending waiter).trans (add_zero _).symm
  | serve r waiter =>
      dsimp only [runJob]
      rw [awaiting_serve]
      simp [serves?, reaches?, Job.awaits?]
  | expiry ttl id =>
      refine aside ?_ rfl rfl rfl
      dsimp only [runJob]
      split
      · rfl
      · exact (awaiting_sleep _ _ _).trans (add_zero _)
  | expired id => exact aside rfl rfl rfl rfl
  | pollBegin timer =>
      refine aside ?_ rfl rfl rfl
      dsimp only [runJob]
      split
      · rfl
      · exact (awaiting_sleep _ _ _).trans (add_zero _)
  | pollTick timer due => exact aside (awaiting_tick a timer due) rfl rfl rfl

/-- Whatever is dropped belongs to a poll timer, and no answer is awaited there. -/
theorem awaiting_stopPolling (a : Agenda) : a.stopPolling.awaiting = a.awaiting := by
  have dropped : ∀ job : Job, (if !job.isPoll then job.awaits? else none) = job.awaits? := by
    intro job
    cases job <;> rfl
  unfold awaiting
  rw [work_stopPolling, Multiset.filterMap_filter]
  simp only [dropped]

theorem awaiting_undertake (a : Agenda) (e : Effect) : (a.undertake e).awaiting = a.awaiting := by
  cases e with
  | «show» _ => rfl
  | send r => exact awaiting_of_ready [.begin r none] rfl rfl rfl
  | expireAfter ttl id => exact awaiting_of_ready [.expiry ttl id] rfl rfl rfl
  | startPolling =>
      refine Eq.trans ?_ a.awaiting_stopPolling
      exact awaiting_of_ready [.pollBegin a.started] rfl rfl rfl
  | stopPolling => exact a.awaiting_stopPolling

theorem awaiting_taken {before after : List Job} (member : a.ready = before ++ job :: after) :
    a.awaiting = { a with ready := before ++ after }.awaiting +
      (job.awaits?.toList : Multiset Request) := by
  unfold awaiting
  rw [work_taken member, Multiset.filterMap_add, filterMap_singleton]

end Agenda

/-- What a deed asks of the engine. -/
def Deed.acts (d : Deed) : List Engine.Act :=
  match d.move with
  | .work job => d.before.agenda.acts job
  | _ => []

section

variable {first s s' : Station} {m : Move} {log : History}

/-- What a step does to the engine. Of the requests that arrive with it and those that waited before
it, some are served with it, and the others wait. -/
theorem Step.engine_after (step : Step .simulated s m s') : ∃ acts,
    s'.agenda.engine = s.agenda.engine.after acts ∧
      acts.filter Engine.Act.isAsked = (Deed.mk s m).acts ∧
      s'.agenda.awaiting + (acts.filterMap Engine.Act.served? : List Request) =
        s.agenda.awaiting + (acts.filterMap Engine.Act.arrived? : List Request) := by
  cases step with
  | operate o =>
      refine ⟨[], ?_, rfl, ?_⟩
      · rw [Station.agenda_take, Agenda.engine_effects]
        rfl
      · rw [Station.agenda_take]
        exact congrArg (· + _) (Agenda.effects_keep _ Agenda.awaiting_undertake _ _)
  | @handle c rest head =>
      refine ⟨[], ?_, rfl, ?_⟩
      · rw [Station.handle, Station.agenda_take, Agenda.engine_effects]
        rfl
      · rw [Station.handle, Station.agenda_take]
        exact congrArg (· + _) (Agenda.effects_keep _ Agenda.awaiting_undertake _ _)
  | @work before after job ready =>
      refine ⟨_, Agenda.engine_runJob _ job, ?_, ?_⟩
      · rw [Agenda.asked_acts]
        cases job <;> rfl
      · have passed := Agenda.awaiting_runJob { s.agenda with ready := before ++ after } job
        rw [Agenda.served_acts, Agenda.arrived_acts, passed, Agenda.awaiting_taken ready]
        exact add_right_comm _ _ _
  | wake later =>
      refine ⟨[], rfl, rfl, congrArg (· + _) ?_⟩
      exact congrArg (Multiset.filterMap Job.awaits?) (s.agenda.work_wakeAt _)
  | outside change =>
      cases change with
      | offline => exact ⟨[.setOffline _], rfl, rfl, rfl⟩
      | counter => exact ⟨[.setCounter _ _], rfl, rfl, rfl⟩
      | uptime => exact ⟨[], rfl, rfl, rfl⟩

theorem Run.engine_after (run : Run .simulated first log s) : ∃ acts,
    s.agenda.engine = first.agenda.engine.after acts ∧
      acts.filter Engine.Act.isAsked = log.flatMap Deed.acts ∧
      s.agenda.awaiting + (acts.filterMap Engine.Act.served? : List Request) =
        first.agenda.awaiting + (acts.filterMap Engine.Act.arrived? : List Request) := by
  induction run with
  | begin => exact ⟨[], rfl, rfl, rfl⟩
  | @step log s s' m run step ih =>
      obtain ⟨acts, engine, asked, passed⟩ := ih
      obtain ⟨more, engine', asked', passed'⟩ := step.engine_after
      refine ⟨acts ++ more, ?_, ?_, ?_⟩
      · rw [engine', engine, Engine.after_append]
      · rw [List.filter_append, asked, asked', List.flatMap_append, List.flatMap_singleton]
      · rw [List.filterMap_append, List.filterMap_append, ← Multiset.coe_add, ← Multiset.coe_add,
          add_left_comm, passed', ← add_assoc, ← add_assoc, ← passed]
        exact congrArg (· + _) (add_comm _ _)

end

namespace Engine

/-- A request that fails leaves the engine as it is, and is seen as any other is. The marks of all
that succeeded tell the rest: the engine runs if it was started later than it was stopped, each of
the counters that advance is at the value it was last given and the readings since then as far as it
can hold them, and the number of clients is what it was last given. A reading shows the counters as
it leaves them. So it is with the engine of a station, whatever is done there, and each request that
arrives at it is served once or waits to be. -/
theorem marks_tell_the_engine (config : Config) :
    (∀ (e : Engine) (acts : List Act) (marks : List Mark),
      e = after { config } acts → marks = Engine.marks { config } acts →
      (∀ uptime r,
        ((e.serve uptime r).2.fails = true ↔
          e.offline = true ∨ (r = .start ∧ (e.running = true ∨ e.config.isEmpty = true)) ∨
            (r = .stop ∧ e.running = false)) ∧
        ((e.serve uptime r).2.fails = true → (e.serve uptime r).1 = e)) ∧
      e.seen = (acts.filterMap Act.arrived?).map Request.endpoint ∧
      (e.running = true ↔ (marks.filterMap Mark.runs?).getLast? = some true) ∧
      (∀ step ∈ increments, (e.counts.gauge step.1).toNat =
        min (2 ^ 64 - 1)
          ((given step.1.key marks).toNat + step.2.toNat * readsSince step.1.key marks)) ∧
      e.counts.gauge .clients = given Gauge.clients.key marks ∧
      (e.offline = false → ∀ uptime, (e.serve uptime .fetchStats).2 =
        .statsFetched (.ok (e.serve uptime .fetchStats).1.counts))) ∧
    ∀ (form : Form) (options : Options) (latency : Nat) (clock : String) (log : History)
      (s : Station), Run .simulated (.opened form options { config } latency clock) log s →
      ∃ acts, s.agenda.engine = after { config } acts ∧
        acts.filter Act.isAsked = log.flatMap Deed.acts ∧
        s.agenda.awaiting + (acts.filterMap Act.served? : List Request) =
          (acts.filterMap Act.arrived? : List Request) := by
  refine ⟨?_, ?_⟩
  · rintro e acts marks rfl rfl
    refine ⟨fun uptime r => ⟨fails_serve, serve_of_fails⟩, seen_after _ acts, ?_, ?_, ?_,
      fun reached uptime => serve_fetch reached⟩
    · rw [running_after]
      cases ((marks { config } acts).filterMap Mark.runs?).getLast? <;> simp
    · intro step member
      have stands := count_after { config } rfl acts step.1.key
      rwa [increment_of_mem member] at stands
    · have stands := count_after { config } rfl acts Gauge.clients.key
      have still : increment Gauge.clients.key = 0 := by decide
      rw [still, Nat.zero_mul, Nat.add_zero, Nat.min_eq_right (Counts.toNat_le_largest _)] at stands
      exact UInt64.toNat_inj.mp stands
  · intro form options latency clock log s run
    obtain ⟨acts, engine, asked, passed⟩ := run.engine_after
    exact ⟨acts, engine, asked, passed.trans (zero_add _)⟩

/-- An engine that is started reads on from what a counter is set to, as far as a word goes. What is
asked while it is cut off, or to start it once more, changes nothing. -/
theorem sent_packets_end_at_largest :
    let config : Config := .ofList [("Iface", .text "eth0")]
    let acts : List Act := [.arrive .fetchStats, .serve "" .fetchStats,
      .setCounter "TotalPacketsSent" 18446744073709551366, .arrive .start, .serve "" .start,
      .serve "" .fetchStats, .setOffline true, .serve "" .fetchStats, .setOffline false,
      .serve "" .start, .serve "" .fetchStats, .serve "" .fetchStats]
    let e := after { config } acts
    e.seen = [.stats, .start] ∧ e.running = true ∧ (e.counts.gauge .sent).toNat = 2 ^ 64 - 1 ∧
      (e.counts.gauge .received).toNat = 285 ∧ e.counts.gauge .clients = 1000 ∧
      (e.serve "" .start).1 = e ∧
      (e.serve "" .fetchStats).2 = .statsFetched (.ok (e.serve "" .fetchStats).1.counts) ∧
      ∃ acts', (Station.opened .empty {} { config } 0 "").agenda.engine = after { config } acts' ∧
        acts'.filter Act.isAsked = [] := by
  intro config acts e
  have marks : Engine.marks { config } acts = [.set "TotalPacketsSent" 18446744073709551366,
      .started, .advanced, .advanced, .advanced] := by decide
  obtain ⟨histories, runs⟩ := marks_tell_the_engine config
  obtain ⟨fails, seen, running, counts, clients, shown⟩ := histories e acts _ rfl marks.symm
  have runs' : e.running = true := running.mpr (by decide)
  have refused : (e.serve "" .start).2.fails = true :=
    (fails "" .start).1.mpr (.inr (.inl ⟨rfl, .inl runs'⟩))
  refine ⟨seen, runs', ?_, ?_, clients, (fails "" .start).2 refused, ?_, ?_⟩
  · exact counts (.sent, 100) (by decide)
  · exact counts (.received, 95) (by decide)
  · exact shown (by decide) ""
  · obtain ⟨acts', engine, asked, -⟩ := runs .empty {} 0 "" [] _ .begin
    exact ⟨acts', engine, asked⟩

end Engine

end EngineConsole
