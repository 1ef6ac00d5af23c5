import EngineConsole.Proofs.Readings
import EngineConsole.Proofs.Run.Course
import Mathlib.Data.List.Chain

/-!
# The order of readings

A simulated engine serves a request and queues its completion in one step, so the desk hears of the
engine's counters in the order in which they changed. From one reading to the next counters only
grow, unless they were cleared or overwritten in between; and once the desk has heard of a clearing,
no reading from before it is left to be heard of.
-/

set_option autoImplicit false

namespace EngineConsole

/-! ## News of the counters -/

/-- What there is to hear of an engine's counters: what a fetch read, or that they were cleared. -/
inductive News where
  | read (counts : Counts)
  | cleared

def Completion.news? : Completion → Option News
  | .statsFetched (.ok counts) => some (.read counts)
  | .statsCleared (.ok _) => some .cleared
  | _ => none

namespace Counts

theorem count_advance (c : Counts) (key name : String) (step : UInt64) :
    (c.advance key step).count name =
      if name = key then addUpTo (c.count key) step else c.count name := by
  unfold advance count
  rw [Catalog.get?_insert]
  split <;> rfl

theorem le_addUpTo (a b : UInt64) : a ≤ addUpTo a b := by
  have bounded := a.toNat_lt
  rw [UInt64.le_iff_toNat_le, toNat_addUpTo]
  simp only [largest]
  omega

theorem count_le_advance (c : Counts) (key name : String) (step : UInt64) :
    c.count name ≤ (c.advance key step).count name := by
  rw [count_advance]
  split
  next same =>
    subst same
    exact le_addUpTo _ _
  next => exact UInt64.le_refl _

end Counts

namespace Engine

variable {e : Engine} {r : Request} {uptime : String} {key : String}

theorem count_le_advanced (counts : Counts) (key : String) :
    counts.count key ≤ (advanced counts).count key := by
  unfold advanced
  generalize increments = steps
  induction steps generalizing counts with
  | nil => exact UInt64.le_refl _
  | cons step rest ih =>
      apply UInt64.le_trans (counts.count_le_advance step.1.key key step.2)
      exact ih _

/-- What a fetch reads. Counters advance with it while the engine runs. -/
def reading (e : Engine) : Counts :=
  if e.running then advanced e.counts else e.counts

theorem count_le_reading (e : Engine) (key : String) :
    e.counts.count key ≤ e.reading.count key := by
  unfold reading
  split
  · exact count_le_advanced _ _
  · exact UInt64.le_refl _

/-- The counters once a request has been served. A start sets the number of clients. -/
def countsAfter (e : Engine) (r : Request) : Counts :=
  if e.offline then e.counts
  else
    match r with
    | .fetchStats => e.reading
    | .clearStats => .empty
    | .start =>
      if e.running || e.config.isEmpty then e.counts
      else e.counts.insert Gauge.clients.key startedClients
    | _ => e.counts

/-- What a request that is served now makes known of the counters. An engine that cannot be reached
makes nothing known. -/
def news? (e : Engine) (r : Request) : Option News :=
  if e.offline then none
  else
    match r with
    | .fetchStats => some (.read e.reading)
    | .clearStats => some .cleared
    | _ => none

theorem counts_serve (e : Engine) (uptime : String) (r : Request) :
    (e.serve uptime r).1.counts = e.countsAfter r := by
  unfold serve countsAfter
  split
  next => rfl
  next =>
    cases r with
    | start =>
        unfold start
        cases e.running <;> cases e.config.isEmpty <;> rfl
    | stop =>
        unfold stop
        cases e.running <;> rfl
    | loadConfig | saveConfig | fetchStats | clearStats | askStatus => rfl

theorem news_serve (e : Engine) (uptime : String) (r : Request) :
    (e.serve uptime r).2.news? = e.news? r := by
  unfold serve news?
  split
  · cases r <;> rfl
  · cases r <;> rfl

theorem countsAfter_read {counts : Counts} (news : e.news? r = some (.read counts)) :
    e.countsAfter r = counts ∧ counts = e.reading := by
  unfold news? at news
  unfold countsAfter
  split at news
  · cases news
  next reached =>
    rw [if_neg reached]
    cases r <;> cases news
    exact ⟨rfl, rfl⟩

theorem countsAfter_cleared (news : e.news? r = some .cleared) : e.countsAfter r = .empty := by
  unfold news? at news
  unfold countsAfter
  split at news
  · cases news
  next reached =>
    rw [if_neg reached]
    cases r <;> cases news
    rfl

/-- No counter but the number of clients gets less, unless all are cleared. -/
theorem count_le_countsAfter (other : key ≠ Gauge.clients.key) (kept : e.news? r ≠ some .cleared) :
    e.counts.count key ≤ (e.countsAfter r).count key := by
  unfold news? at kept
  unfold countsAfter
  split
  next => exact UInt64.le_refl _
  next reached =>
    rw [if_neg reached] at kept
    cases r with
    | fetchStats => exact e.count_le_reading key
    | clearStats => exact absurd rfl kept
    | start =>
        dsimp only
        split
        · exact UInt64.le_refl _
        · rw [Counts.count, Counts.count, Catalog.get?_insert, if_neg other]
          exact UInt64.le_refl _
    | loadConfig | saveConfig | stop | askStatus => exact UInt64.le_refl _

end Engine

/-! ## Service -/

namespace Agenda

variable {a : Agenda} {job : Job}

/-- The request, if the engine serves it as soon as it is through with the delay of its script
entry.
-/
def heard? (a : Agenda) (r : Request) (ending : Scripted) : Option Request :=
  if ending = .crash ∨ (ending.completion? r).isSome ∨ a.latency ≠ 0 then none else some r

/-- The request that the engine serves when a piece of work is run. -/
def serves? (a : Agenda) : Job → Option Request
  | .begin r _ =>
    let entry := (a.script.next r.kind).1
    if entry.delay = 0 then a.heard? r entry.ending else none
  | .proceed r ending _ => a.heard? r ending
  | .serve r _ => some r
  | .expiry _ _ => none
  | .expired _ => none
  | .pollBegin _ => none
  | .pollTick _ _ => none

/-- What the engine makes known of its counters when a piece of work is run. -/
def makes? (a : Agenda) (job : Job) : Option News :=
  (a.serves? job).bind a.engine.news?

/-- The counters once a piece of work has been run. -/
def countsAfter (a : Agenda) (job : Job) : Counts :=
  ((a.serves? job).map a.engine.countsAfter).getD a.engine.counts

theorem counts_proceed (a : Agenda) (r : Request) (ending : Scripted) (waiter : Option Nat) :
    (a.proceed r ending waiter).engine.counts =
      ((a.heard? r ending).map a.engine.countsAfter).getD a.engine.counts := by
  unfold proceed heard?
  by_cases dies : ending = .crash
  · simp [dies]
  · cases answer : ending.completion? r with
    | some c => simp [dies, post]
    | none =>
        by_cases soon : a.latency = 0
        · have unseen : (a.engine.arrive r.endpoint).countsAfter r = a.engine.countsAfter r := rfl
          simp [dies, soon, serve, post, Engine.counts_serve, unseen]
        · simp [dies, soon, sleep, Engine.arrive]

theorem counts_begin (a : Agenda) (r : Request) (waiter : Option Nat) :
    (a.begin r waiter).engine.counts = a.countsAfter (.begin r waiter) := by
  unfold begin countsAfter serves?
  cases next : a.script.next r.kind with
  | mk entry script =>
      by_cases soon : entry.delay = 0
      · simp only [next, soon, if_true, counts_proceed]
        rfl
      · simp [next, soon, sleep]

/-- Running a piece of work changes the counters as far as the engine serves a request. -/
theorem counts_runJob (a : Agenda) (job : Job) :
    (a.runJob job).engine.counts = a.countsAfter job := by
  cases job with
  | begin r waiter => exact counts_begin a r waiter
  | proceed r ending waiter => exact counts_proceed a r ending waiter
  | serve r waiter => simp [runJob, serve, post, countsAfter, serves?, Engine.counts_serve]
  | expiry ttl id => by_cases zero : ttl = 0 <;> simp [runJob, countsAfter, serves?, zero, post, sleep]
  | expired id => rfl
  | pollBegin timer =>
      by_cases zero : a.interval = 0 <;> simp [runJob, countsAfter, serves?, zero, sleep]
  | pollTick timer due =>
      by_cases early : a.now < due
      · simp [runJob, countsAfter, serves?, tick, early, sleep]
      · cases policy : a.overlap <;>
          simp [runJob, countsAfter, serves?, tick, early, policy, sleep, spawn]

/-- Without a script, what a piece of work reports of the counters is what the engine makes known of
them. -/
theorem Unscripted.news_reports (unscripted : a.Unscripted) (member : job ∈ a.jobs) :
    (a.reports? job).bind Completion.news? = a.makes? job := by
  have served (r : Request) :
      (a.verdict? r .engine).bind Completion.news? = (a.heard? r .engine).bind a.engine.news? := by
    by_cases soon : a.latency = 0
    · have unseen : (a.engine.arrive r.endpoint).news? r = a.engine.news? r := rfl
      simp [verdict?, heard?, Scripted.completion?, soon, Engine.news_serve, unseen]
    · simp [verdict?, heard?, Scripted.completion?, soon]
  cases job with
  | begin r waiter =>
      have next : (a.script.next r.kind).1 = ⟨0, .engine⟩ := by
        rw [unscripted.script]
        rfl
      simp only [reports?, makes?, serves?, next, if_true]
      exact served r
  | proceed r ending waiter =>
      obtain rfl := of_decide_eq_true (unscripted.plain _ member)
      exact served r
  | serve r waiter => exact Engine.news_serve _ _ _
  | expiry ttl id => by_cases zero : ttl = 0 <;> simp [reports?, makes?, serves?, zero, Completion.news?]
  | expired | pollBegin | pollTick => rfl

end Agenda

/-! ## What is made known, and what is heard -/

def News.counts? : News → Option Counts
  | .read counts => some counts
  | .cleared => none

/-- What the engine makes known of its counters with a step. -/
def Deed.makes? (d : Deed) : Option News :=
  match d.move with
  | .work job => d.before.agenda.makes? job
  | _ => none

/-- What the desk hears of the engine's counters with a step. -/
def Deed.hears? (d : Deed) : Option News :=
  d.handled?.bind Completion.news?

namespace History

def made (log : History) : List News :=
  log.filterMap Deed.makes?

def heard (log : History) : List News :=
  log.filterMap Deed.hears?

theorem heard_eq (log : History) : log.heard = log.handled.filterMap Completion.news? :=
  List.filterMap_filterMap.symm

theorem heard_counts (log : History) :
    log.heard.filterMap News.counts? = log.readings.map (·.2) := by
  rw [heard, readings, List.filterMap_filterMap, List.map_filterMap]
  refine List.filterMap_congr fun d _ => ?_
  obtain ⟨s, m⟩ := d
  cases m with
  | handle c =>
      cases c with
      | statsFetched result | statsCleared result => cases result <;> rfl
      | configLoaded | configSaved | toggleFinished | engineStatus | alertExpired => rfl
  | operate | work | wake | outside => rfl

end History

section

variable {s s' : Station} {m : Move} {job : Job}

theorem Step.news (step : Step .simulated s m s') (unscripted : s.agenda.Unscripted) :
    (Deed.mk s m).finished?.bind Completion.news? = (Deed.mk s m).makes? := by
  cases step with
  | @work before after job ready =>
      have member : job ∈ s.agenda.jobs := (Agenda.mem_jobs_taken ready).mpr (.inr rfl)
      exact unscripted.news_reports member
  | operate | handle | wake | outside => rfl

theorem Step.counts_work {world : World} (step : Step world s (.work job) s') :
    s'.agenda.engine.counts = s.agenda.countsAfter job := by
  cases step with
  | work ready =>
      refine (Agenda.counts_runJob _ job).trans ?_
      cases job <;> rfl

/-- What is made known of the counters is so once the step is over. -/
theorem Step.counts_made {n : News} (step : Step .simulated s m s')
    (makes : (Deed.mk s m).makes? = some n) :
    match n with
    | .read counts => s'.agenda.engine.counts = counts ∧ counts = s.agenda.engine.reading
    | .cleared => s'.agenda.engine.counts = .empty := by
  cases m with
  | work job =>
      obtain ⟨r, served, news⟩ := Option.bind_eq_some_iff.mp (makes : s.agenda.makes? job = some n)
      have after : s'.agenda.engine.counts = s.agenda.engine.countsAfter r := by
        rw [step.counts_work, Agenda.countsAfter, served]
        rfl
      rw [after]
      cases n with
      | read counts => exact Engine.countsAfter_read news
      | cleared => exact Engine.countsAfter_cleared news
  | operate | handle | wake | outside => cases makes

theorem Step.count_le {key : String} (step : Step .simulated s m s')
    (other : key ≠ Gauge.clients.key) (kept : (Deed.mk s m).makes? ≠ some .cleared)
    (inside : m = .outside → s'.agenda.engine.counts = s.agenda.engine.counts) :
    s.agenda.engine.counts.count key ≤ s'.agenda.engine.counts.count key := by
  have still (same : s'.agenda.engine.counts = s.agenda.engine.counts) :
      s.agenda.engine.counts.count key ≤ s'.agenda.engine.counts.count key := by
    rw [same]
    exact UInt64.le_refl _
  cases m with
  | operate o =>
      cases step
      apply still
      rw [Station.agenda_take, Agenda.engine_effects]
  | handle c =>
      cases step
      apply still
      rw [Station.handle, Station.agenda_take, Agenda.engine_effects]
  | work job =>
      rw [step.counts_work, Agenda.countsAfter]
      cases served : s.agenda.serves? job with
      | none => exact UInt64.le_refl _
      | some r =>
          apply Engine.count_le_countsAfter other
          intro news
          apply kept
          exact Option.bind_eq_some_iff.mpr ⟨r, served, news⟩
  | wake moment =>
      cases step
      exact still rfl
  | outside => exact still (inside rfl)

end

/-! ## Runs -/

/-- In a stretch of a history no clearing takes effect, and nobody overwrites counters. What happens
outside shows in the counters at the next step. -/
def History.Untouched (stretch : History) : Prop :=
  stretch.IsChain fun d e => d.makes? ≠ some .cleared ∧
    (d.move = .outside → e.before.agenda.engine.counts = d.before.agenda.engine.counts)

/-- A stretch of a history begins where one piece of news was made and ends where another was. So
much was known before, and so much was made known in between. -/
def History.Spans (log stretch : History) (known : List News) (n : News) (meanwhile : List News)
    (n' : News) : Prop :=
  ∃ (earlier since later : History) (d e : Deed),
    log = earlier ++ d :: (since ++ e :: later) ∧ stretch = d :: (since ++ [e]) ∧
    earlier.made = known ∧ d.makes? = some n ∧ since.made = meanwhile ∧ e.makes? = some n'

section

variable {form : Form} {options : Options} {engine : Engine} {latency : Nat} {clock : String}
  {first s t : Station} {log stretch : History} {known meanwhile : List News} {n n' : News}

theorem Run.made_eq_finished
    (run : Run .simulated (.opened form options engine latency clock) log s) :
    log.made = log.finished.filterMap Completion.news? := by
  induction run with
  | begin => rfl
  | @step log s s' m run step ih =>
      have news := step.news (run.unscripted (Station.unscripted_opened _ _ _ _ _))
      rw [History.finished_append, List.filterMap_append, ← ih, History.made, List.filterMap_append]
      congr 1
      cases finished : (Deed.mk s m).finished? with
      | none => simp [← news, finished]
      | some c => cases heard : c.news? <;> simp [← news, finished, heard]

/-- The desk hears of the counters in the order in which the engine makes them known. What it has
not heard of yet waits in the queue. -/
theorem Run.made_eq (run : Run .simulated (.opened form options engine latency clock) log s) :
    log.made = log.heard ++ s.agenda.arrived.filterMap Completion.news? := by
  have finished := (run.weaken fun _ _ => World.simulated_any).finished_eq rfl
  rw [run.made_eq_finished, finished, List.filterMap_append, History.heard_eq]

/-- What is made known one after the other is so in two steps, and those are the ends of a
stretch. -/
theorem History.spans_of_made {later : List News}
    (made : log.made = known ++ n :: (meanwhile ++ n' :: later)) :
    ∃ stretch, log.Spans stretch known n meanwhile n' := by
  obtain ⟨earlier, rest, rfl, before, made⟩ := List.filterMap_eq_append_iff.mp made
  obtain ⟨quiet, d, rest, rfl, silent, first, made⟩ := List.filterMap_eq_cons_iff.mp made
  obtain ⟨since, rest, rfl, between, made⟩ := List.filterMap_eq_append_iff.mp made
  obtain ⟨quiet', e, after, rfl, silent', second, -⟩ := List.filterMap_eq_cons_iff.mp made
  have none {l : History} (silent : ∀ d ∈ l, d.makes? = none) : l.filterMap Deed.makes? = [] :=
    List.filterMap_eq_nil_iff.mpr silent
  refine ⟨_, earlier ++ quiet, since ++ quiet', after, d, e, ?_, rfl, ?_, first, ?_, second⟩
  · simp only [List.append_assoc]
  · rw [History.made, List.filterMap_append, before, none silent, List.append_nil]
  · rw [History.made, List.filterMap_append, between, none silent', List.append_nil]

/-- What the desk hears of in two steps was made known in two, in the same order. -/
theorem Run.spans {before between after : History} {h h' : Deed}
    (run : Run .simulated (.opened form options engine latency clock) log s)
    (whole : log = before ++ h :: (between ++ h' :: after))
    (hears : h.hears? = some n) (hears' : h'.hears? = some n') :
    ∃ stretch, log.Spans stretch before.heard n between.heard n' := by
  have made : log.made = before.heard ++ n :: (between.heard ++ n' ::
      (after.heard ++ s.agenda.arrived.filterMap Completion.news?)) := by
    rw [run.made_eq, whole]
    simp [History.heard, hears, hears']
  exact History.spans_of_made made

/-- Counters only grow in an untouched stretch of a run. -/
theorem Run.count_le {key : String} (other : key ≠ Gauge.clients.key) {m : Move}
    (run : Run .simulated first log s) (untouched : History.Untouched (log ++ [⟨s, m⟩])) :
    first.agenda.engine.counts.count key ≤ s.agenda.engine.counts.count key := by
  induction run generalizing m with
  | begin => exact UInt64.le_refl _
  | @step log s s' m' run step ih =>
      rw [History.Untouched, List.append_assoc, List.singleton_append,
        List.isChain_append_cons_cons] at untouched
      obtain ⟨earlier, ⟨kept, inside⟩, -⟩ := untouched
      exact UInt64.le_trans (ih earlier) (step.count_le other kept inside)

theorem Run.before_of_head {world : World} {d : Deed} {after : History}
    (run : Run world first (d :: after) s) : d.before = first := by
  have whole : Run world first ([] ++ d :: after) s := run
  obtain ⟨t, none, -⟩ := whole.split
  generalize nothing : ([] : History) = log at none
  cases none with
  | begin => rfl
  | step => simp at nothing

/-- A reading is no less than one before it if the stretch from the one to the other is
untouched. -/
theorem History.Spans.count_le {x y : Counts} {key : String} (other : key ≠ Gauge.clients.key)
    (run : Run .simulated first log s)
    (spans : log.Spans stretch known (.read x) meanwhile (.read y))
    (untouched : stretch.Untouched) : x.count key ≤ y.count key := by
  obtain ⟨earlier, since, later, d, e, rfl, rfl, -, makes, -, makes'⟩ := spans
  obtain ⟨t, -, step, more⟩ := run.split
  obtain ⟨u, upTo, step', -⟩ := more.split
  obtain ⟨rfl, -⟩ := step.counts_made makes
  obtain ⟨-, rfl⟩ := step'.counts_made makes'
  have grown := upTo.count_le other (m := e.move) untouched.tail
  exact UInt64.le_trans grown (Engine.count_le_reading _ _)

/-- A clearing that was made known leaves all counters blank to what follows. -/
theorem History.Spans.blank (run : Run .simulated first log s)
    (spans : log.Spans stretch known .cleared meanwhile n') :
    ∀ next ∈ stretch.tail.head?, next.before.agenda.engine.counts = .empty := by
  obtain ⟨earlier, since, later, d, e, rfl, rfl, -, makes, -, -⟩ := spans
  obtain ⟨t, -, step, more⟩ := run.split
  have blank : t.agenda.engine.counts = .empty := step.counts_made makes
  intro next head
  rw [← blank]
  cases since with
  | nil =>
      obtain rfl := Option.some.inj head
      rw [more.before_of_head]
  | cons f since =>
      obtain rfl := Option.some.inj head
      rw [more.before_of_head]

theorem News.counts_some {x : Counts} (counts : n.counts? = some x) : n = .read x := by
  cases n with
  | read y => exact congrArg _ (Option.some.inj counts)
  | cleared => cases counts

/-- Readings one after the other are in what is heard one after the other, with clearings in
between. -/
theorem News.between {heard : List News} {earlier later : List Counts} {x y : Counts}
    (readings : heard.filterMap News.counts? = earlier ++ x :: y :: later) :
    ∃ known meanwhile rest, heard = known ++ .read x :: (meanwhile ++ .read y :: rest) := by
  obtain ⟨known, rest, rfl, -, readings⟩ := List.filterMap_eq_append_iff.mp readings
  obtain ⟨quiet, n, rest, rfl, -, first, readings⟩ := List.filterMap_eq_cons_iff.mp readings
  obtain ⟨meanwhile, n', rest, rfl, -, second, -⟩ := List.filterMap_eq_cons_iff.mp readings
  obtain rfl := News.counts_some first
  obtain rfl := News.counts_some second
  exact ⟨known ++ quiet, meanwhile, rest, by simp only [List.append_assoc]⟩

/-- Two samples that stand beside each other in the chart are of readings that the desk heard of,
one after the other. -/
theorem Run.spans_samples {p q : Sample}
    (run : Run .simulated (.opened form options engine latency clock) log s)
    (beside : [p, q] <:+: s.desk.chart.samples) :
    ∃ x y known meanwhile stretch, log.Spans stretch known (.read x) meanwhile (.read y) ∧
      p = .ofCounts p.label x ∧ q = .ofCounts q.label y := by
  have window := (run.weaken fun _ _ => World.simulated_any).charted.samples
  rw [window, chartWindow] at beside
  obtain ⟨before, after, whole⟩ := beside.trans (List.drop_suffix _ _).isInfix
  rw [List.append_assoc] at whole
  obtain ⟨old, two, split, rfl, samples⟩ := List.map_eq_append_iff.mp whole.symm
  obtain ⟨r, one, rfl, rfl, samples'⟩ := List.map_eq_cons_iff.mp samples
  obtain ⟨r', rest, rfl, rfl, -⟩ := List.map_eq_cons_iff.mp samples'
  have readings : log.heard.filterMap News.counts? =
      old.map (·.2) ++ r.2 :: r'.2 :: rest.map (·.2) := by
    rw [History.heard_counts, split]
    simp
  obtain ⟨known, meanwhile, more, heard⟩ := News.between readings
  have made : log.made = known ++ .read r.2 :: (meanwhile ++ .read r'.2 ::
      (more ++ s.agenda.arrived.filterMap Completion.news?)) := by
    rw [run.made_eq, heard]
    simp
  obtain ⟨stretch, spans⟩ := History.spans_of_made made
  exact ⟨_, _, _, _, stretch, spans, rfl, rfl⟩

/-- What the engine makes known of its counters the desk hears in the same order, and it is the
readings that it takes over. Of two pieces of news, whatever was heard in between, the first was
made before the second. A reading is therefore no less than an earlier one, in all counters that a
fetch advances, unless counters were cleared or overwritten between the two; and a reading that is
heard of after a clearing was made when the clearing had left all counters blank. Samples that stand
beside each other in the chart are such readings. -/
theorem shown_counters_never_run_backwards
    (run : Run .simulated (.opened form options engine latency clock) log s) :
    log.made = log.heard ++ s.agenda.arrived.filterMap Completion.news? ∧
    log.heard.filterMap News.counts? = log.readings.map (·.2) ∧
    (∀ (before : History) h (between : History) h' after n n',
      log = before ++ h :: (between ++ h' :: after) →
      h.hears? = some n → h'.hears? = some n' →
      ∃ stretch, log.Spans stretch before.heard n between.heard n' ∧
        (∀ x y, n = .read x → n' = .read y → stretch.Untouched →
          ∀ key, key ≠ Gauge.clients.key → x.count key ≤ y.count key) ∧
        (n = .cleared →
          ∀ next ∈ stretch.tail.head?, next.before.agenda.engine.counts = .empty)) ∧
    ∀ p q, [p, q] <:+: s.desk.chart.samples →
      ∃ x y known meanwhile stretch, log.Spans stretch known (.read x) meanwhile (.read y) ∧
        p = .ofCounts p.label x ∧ q = .ofCounts q.label y ∧
        (stretch.Untouched → p.sent ≤ q.sent ∧ p.received ≤ q.received) := by
  refine ⟨run.made_eq, log.heard_counts, ?news, ?samples⟩
  case news =>
    intro before h between h' after n n' whole hears hears'
    obtain ⟨stretch, spans⟩ := run.spans whole hears hears'
    refine ⟨stretch, spans, ?_, ?_⟩
    · rintro x y rfl rfl untouched key other
      exact spans.count_le other run untouched
    · rintro rfl
      exact spans.blank run
  case samples =>
    intro p q beside
    obtain ⟨x, y, known, meanwhile, stretch, spans, left, right⟩ := run.spans_samples beside
    refine ⟨x, y, known, meanwhile, stretch, spans, left, right, fun untouched => ?_⟩
    have grows (g : Gauge) (other : g.key ≠ Gauge.clients.key) : x.gauge g ≤ y.gauge g :=
      spans.count_le other run untouched
    rw [left, right]
    exact ⟨grows .sent (by decide), grows .received (by decide)⟩

end

/-- A fetch that is under way when counters are cleared is answered before the clearing is. What is
heard after it starts again from nothing. -/
theorem reading_after_clearing_starts_blank :
    let counts : Counts := .ofList [("TotalPacketsSent", 7)]
    let engine : Engine := { config := .empty, counts, running := true }
    let first : Station := .opened .empty {} engine 0 "12:00:00"
    ∃ (log : History) (s : Station) (x y : Counts), Run .simulated first log s ∧
      log.heard = [.read x, .cleared, .read y] ∧ x.gauge .sent = 107 ∧ y.gauge .sent = 100 ∧
      ∃ stretch, log.Spans stretch [.read x] .cleared [] (.read y) ∧
        ∀ next ∈ stretch.tail.head?, next.before.agenda.engine.counts = .empty := by
  intro counts engine first
  let old := Engine.advanced counts
  let new := Engine.advanced .empty
  have opened : Run .simulated first [] first := .begin
  have asked := opened.step (.operate .startup)
  have agreed := asked.step (.operate (.clear true))
  have read := agreed.step (@Step.work _ _ [.begin .loadConfig none]
    [.pollBegin 0, .begin .clearStats none] (.begin .fetchStats none) rfl)
  have cleared := read.step (@Step.work _ _ [.begin .loadConfig none, .pollBegin 0] []
    (.begin .clearStats none) rfl)
  have shown := cleared.step (@Step.handle _ _ (.statsFetched (.ok old)) [.statsCleared (.ok ())] rfl)
  have told := shown.step (@Step.handle _ _ (.statsCleared (.ok ())) [] rfl)
  have again := told.step (@Step.work _ _
    [.begin .loadConfig none, .pollBegin 0, .expiry 5000 0] [] (.begin .fetchStats none) rfl)
  have run := again.step (@Step.handle _ _ (.statsFetched (.ok new)) [] rfl)
  obtain ⟨-, -, order, -⟩ := shown_counters_never_run_backwards run
  obtain ⟨stretch, spans, -, blank⟩ :=
    order [_, _, _, _, _] _ [_] _ [] .cleared (.read new) rfl rfl rfl
  exact ⟨_, _, old, new, run, rfl, rfl, rfl, stretch, spans, blank rfl⟩

end EngineConsole
