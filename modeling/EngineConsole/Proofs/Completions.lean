import EngineConsole.Proofs.Run.Course
import EngineConsole.Proofs.Run.Outcome

/-!
# No completion is lost or repeated

Requests of each kind are counted where they are: under way, waiting in the queue as a completion,
handled, or dead. The counts add up to what was issued in every state that can be reached, and
whoever stops the poll timer or starts another moves no request from one count to another.
-/

set_option autoImplicit false

namespace EngineConsole

/-! ## Counting requests -/

/-- A kind of request. Starts and stops are one kind, as their completions look alike. -/
inductive Topic where
  | load
  | save
  | stats
  | clear
  | toggle
  | status
  deriving DecidableEq

def Matter.topic : Matter → Topic
  | .load => .load
  | .save _ => .save
  | .stats => .stats
  | .clear => .clear
  | .toggle => .toggle
  | .status => .status

def Request.topic (r : Request) : Topic :=
  r.matter.topic

def Completion.topic? (c : Completion) : Option Topic :=
  c.matter?.map Matter.topic

/-- How many requests of one kind were issued, and where they are now. -/
structure Tally where
  issued : Nat
  underway : Nat
  arrived : Nat
  handled : Nat
  crashed : Nat
  deriving DecidableEq

def History.tally (log : History) (s : Station) (topic : Topic) : Tally where
  issued := log.issued.countP fun r => r.topic = topic
  underway := s.agenda.underway.countP fun r => r.topic = topic
  arrived := s.agenda.arrived.countP fun c => c.topic? = some topic
  handled := log.handled.countP fun c => c.topic? = some topic
  crashed := log.crashed.countP fun r => r.topic = topic

theorem Request.countP_matters (l : List Request) (topic : Topic) :
    (Request.matters l).countP (fun m => m.topic = topic) =
      l.countP fun r => r.topic = topic := by
  rw [Request.matters, Multiset.coe_countP, List.countP_map]
  rfl

theorem Completion.countP_matters (l : List Completion) (topic : Topic) :
    (Completion.matters l).countP (fun m => m.topic = topic) =
      l.countP fun c => c.topic? = some topic := by
  rw [Completion.matters, Multiset.coe_countP, List.countP_filterMap]
  refine List.countP_congr fun c _ => ?_
  cases about : c.matter? <;> simp [Completion.topic?, about]

theorem Run.tally_eq {form : Form} {options : Options} {engine : Engine} {latency : Nat}
    {clock : String} {log : History} {s : Station}
    (run : Run .any (.opened form options engine latency clock) log s) (topic : Topic) :
    (log.tally s topic).issued =
      (log.tally s topic).underway + (log.tally s topic).arrived + (log.tally s topic).handled +
        (log.tally s topic).crashed := by
  have balance := congrArg (Multiset.countP fun m : Matter => m.topic = topic) run.balance
  have under : (s.agenda.underway.map Request.matter).countP (fun m => m.topic = topic) =
      s.agenda.underway.countP fun r => r.topic = topic := by
    rw [Multiset.countP_map, Multiset.countP_eq_card_filter]
    rfl
  simp only [Agenda.concerns, Multiset.countP_add, under, Request.countP_matters,
    Completion.countP_matters] at balance
  exact balance.symm

/-! ## What becomes of a request -/

/-- What running a piece of work is for the request it is about. -/
inductive Fate (s : Station) (job : Job) (r : Request) (s' : Station) : Prop where
  | goesOn :
      (Deed.mk s (.work job)).finished? = none → (Deed.mk s (.work job)).crashed? = none →
      s'.agenda.arrived = s.agenda.arrived → s'.agenda.underway = s.agenda.underway →
      Fate s job r s'
  | reports (c : Completion) :
      (Deed.mk s (.work job)).finished? = some c → c.matter? = some r.matter →
      (Deed.mk s (.work job)).crashed? = none → s'.agenda.arrived = s.agenda.arrived ++ [c] →
      s'.agenda.underway + {r} = s.agenda.underway → Fate s job r s'
  | dies :
      (Deed.mk s (.work job)).finished? = none → (Deed.mk s (.work job)).crashed? = some r →
      s'.agenda.arrived = s.agenda.arrived → s'.agenda.underway + {r} = s.agenda.underway →
      Fate s job r s'

theorem Step.fate {s s' : Station} {job : Job} {r : Request} (step : Step .any s (.work job) s')
    (asked : job.request? = some r) : Fate s job r s' := by
  have queue := step.queue
  cases step with
  | @work before after _ member =>
      let a : Agenda := { s.agenda with ready := before ++ after }
      have taken : s.agenda.underway = a.underway + {r} := by
        have taken := Agenda.underway_taken member
        rwa [asked] at taken
      have reports : a.reports? job = (Deed.mk s (.work job)).finished? :=
        s.agenda.reports_ready _ job
      have crashes : a.crashed? job = (Deed.mk s (.work job)).crashed? := by
        cases job <;> rfl
      obtain ⟨silent, alive, under⟩ | ⟨c, reported, about, alive, under⟩ | ⟨silent, dead, under⟩ :=
        (a.ran job).ends asked
      all_goals
        rw [reports] at *
        rw [crashes] at *
      · refine .goesOn silent alive ?_ (under.trans taken.symm)
        simpa [silent, Deed.handled?] using queue
      · refine .reports c reported about alive ?_ ?_
        · simpa [reported, Deed.handled?] using queue
        · rw [taken, ← under]
      · refine .dies silent dead ?_ ?_
        · simpa [silent, Deed.handled?] using queue
        · rw [taken, ← under]

/-! ## The poll timer and requests -/

/-- The work there is on requests: what is ready, and what waits with its moments. -/
def Agenda.errands (a : Agenda) : List Job × List (Nat × Job) :=
  (a.ready.filter fun job => job.request?.isSome,
    a.sleeping.filter fun e => e.2.request?.isSome)

namespace Agenda

/-- The work of a poll timer itself carries no request. -/
theorem errands_stopPolling (a : Agenda) : a.stopPolling.errands = a.errands := by
  have plain (job : Job) : (job.request?.isSome && !job.isPoll) = job.request?.isSome := by
    cases job <;> rfl
  simp [errands, stopPolling, List.filter_filter, plain]

theorem errands_undertake (a : Agenda) (e : Effect) :
    (a.undertake e).errands =
      (a.errands.1 ++ e.request?.toList.map (Job.begin · none), a.errands.2) := by
  cases e with
  | «show» _ => simp [undertake, Effect.request?]
  | send r => simp [undertake, errands, spawn, Effect.request?, Job.request?]
  | expireAfter ttl id => simp [undertake, errands, spawn, Effect.request?, Job.request?]
  | startPolling =>
      have started : a.startPolling.errands = a.stopPolling.errands := by
        simp [errands, startPolling, spawn, Job.request?]
      simp [undertake, started, errands_stopPolling, Effect.request?]
  | stopPolling => simp [undertake, errands_stopPolling, Effect.request?]

theorem errands_effects (a : Agenda) (effects : List Effect) :
    (effects.foldl undertake a).errands =
      (a.errands.1 ++ (Effect.requests effects).map (Job.begin · none), a.errands.2) := by
  induction effects generalizing a with
  | nil => simp
  | cons e rest ih =>
      simp only [List.foldl_cons, ih, errands_undertake, List.append_assoc]
      cases asked : e.request? <;> simp [Effect.requests, asked]

end Agenda

/-- A step touches no request that was issued: the work on each of them is there as before, in the
same order and with the same moments, and it comes to the same. What the step issues comes last. -/
structure Undisturbed (s : Station) (m : Move) (s' : Station) : Prop where
  arrived : s'.agenda.arrived = s.agenda.arrived
  underway : s'.agenda.underway =
    s.agenda.underway + ((Deed.mk s m).issued : List Request)
  errands : s'.agenda.errands =
    (s.agenda.errands.1 ++ (Deed.mk s m).issued.map (Job.begin · none), s.agenda.errands.2)
  reports : ∀ job, s'.agenda.reports? job = s.agenda.reports? job
  crashes : ∀ job, s'.agenda.crashed? job = s.agenda.crashed? job

section

variable {s s' : Station} {o : Operation}

theorem Step.undisturbed (step : Step .any s (.operate o) s') : Undisturbed s (.operate o) s' := by
  cases step with
  | operate =>
      constructor <;> rw [Station.agenda_take]
      · exact Agenda.arrived_effects _ _
      · exact Agenda.underway_effects _ _
      · exact Agenda.errands_effects _ _
      · exact Agenda.reports_effects _ _
      · exact Agenda.crashed_effects _ _

/-- Stopping the poll timer or starting another changes no count. -/
theorem Undisturbed.tally (undisturbed : Undisturbed s (.operate o) s') (log : History)
    (silent : (Deed.mk s (.operate o)).issued = []) (topic : Topic) :
    History.tally (log ++ [⟨s, .operate o⟩]) s' topic = log.tally s topic := by
  have handled : History.handled (log ++ [⟨s, .operate o⟩]) = log.handled := by
    simp [History.handled_append, Deed.handled?]
  have crashed : History.crashed (log ++ [⟨s, .operate o⟩]) = log.crashed := by
    simp [History.crashed_append, Deed.crashed?]
  have underway : s'.agenda.underway = s.agenda.underway := by
    simp [undisturbed.underway, silent]
  simp [History.tally, History.issued_append, silent, handled, crashed, underway,
    undisturbed.arrived]

end

/-- Of each kind, the requests that were issued are those under way, those whose completion waits in
the queue or was handled, and those that died. A request goes on until it reports once or dies, and
completions are handled once each, in the order in which they were reported. No operation touches a
request that was issued before it; to stop the poll timer or start another changes no count, and
whatever a fetch reports is applied whether polling is on or not. -/
theorem no_completion_is_lost_or_repeated {form : Form} {options : Options} {engine : Engine}
    {latency : Nat} {clock : String} {log : History} {s : Station}
    (run : Run .any (.opened form options engine latency clock) log s) :
    (∀ topic, (log.tally s topic).issued =
      (log.tally s topic).underway + (log.tally s topic).arrived + (log.tally s topic).handled +
        (log.tally s topic).crashed) ∧
    log.finished = log.handled ++ s.agenda.arrived ∧
    (∀ job r s', Step .any s (.work job) s' → job.request? = some r → Fate s job r s') ∧
    (∀ c s', Step .any s (.handle c) s' → ∃ rest, s.agenda.arrived = c :: rest ∧
      s'.agenda.arrived = rest) ∧
    (∀ o s', Step .any s (.operate o) s' → Undisturbed s (.operate o) s' ∧
      (o = .startPolling ∨ o = .stopPolling → s'.desk = s.desk ∧
        ∀ topic, History.tally (log ++ [⟨s, .operate o⟩]) s' topic = log.tally s topic)) ∧
    ∀ counts s', Step .any s (.handle (.statsFetched (.ok counts))) s' →
      s'.desk.counts = counts ∧
        s'.desk.chart = (s.desk.chart.push (.ofCounts s.clock counts)).1 := by
  refine ⟨run.tally_eq, run.finished_eq rfl, fun _ _ _ step => step.fate, ?_, ?_, ?_⟩
  · intro c s' step
    cases step with
    | @handle _ rest head =>
        refine ⟨rest, head, ?_⟩
        rw [Station.handle, Station.agenda_take]
        exact Agenda.arrived_effects _ _
  · intro o s' step
    have undisturbed := step.undisturbed
    refine ⟨undisturbed, fun polling => ?_⟩
    have desk := step.desk_eq
    obtain rfl | rfl := polling
    · exact ⟨desk, undisturbed.tally log rfl⟩
    · exact ⟨desk, undisturbed.tally log rfl⟩
  · intro counts s' step
    rw [step.desk_eq]
    exact ⟨rfl, rfl⟩

/-- A timer that is stopped while it waits for its own fetch: the fetch reports all the same. -/
theorem stopped_timer_lets_its_fetch_report :
    let options : Options := { interval := 10, overlap := .serialize }
    let counts : Counts := .ofList [("TotalPacketsSent", 7)]
    let first : Station := .opened .empty options { config := .empty, counts } 5 "12:00:00"
    ∃ log s s', Run .any first log s ∧ s.agenda.waiting = some (0, 20) ∧
      log.tally s .stats = ⟨1, 1, 0, 0, 0⟩ ∧ Step .any s (.operate .stopPolling) s' ∧
      s'.agenda.waiting = none ∧
      History.tally (log ++ [⟨s, .operate .stopPolling⟩]) s' .stats = ⟨1, 1, 0, 0, 0⟩ ∧
      ∃ log' s'', Run .any first (log ++ ⟨s, .operate .stopPolling⟩ :: log') s'' ∧
        s''.desk.counts = counts := by
  intro options counts first
  have opened : Run .any first [] first := .begin
  have started := opened.step (.operate .startPolling)
  have begins := started.step (@Step.work _ _ [] [] (.pollBegin 0) rfl)
  have due := begins.step (@Step.wake _ _ 10 (Nat.zero_le _))
  have fetches := due.step (@Step.work _ _ [] [] (.pollTick 0 10) rfl)
  have asked := fetches.step (@Step.work _ _ [] [] (.begin .fetchStats (some 0)) rfl)
  have stopped := asked.step (.operate .stopPolling)
  have woken := stopped.step (@Step.wake _ _ 15 (by decide))
  have served := woken.step (@Step.work _ _ [] [] (.serve .fetchStats (some 0)) rfl)
  have run := served.step (@Step.handle _ _ (.statsFetched (.ok counts)) [] rfl)
  obtain ⟨-, -, -, -, operated, -⟩ := no_completion_is_lost_or_repeated asked
  obtain ⟨-, -, -, -, -, applied⟩ := no_completion_is_lost_or_repeated served
  obtain ⟨-, same⟩ := (operated .stopPolling _ (.operate .stopPolling)).2 (.inr rfl)
  exact ⟨_, _, _, asked, rfl, rfl, .operate .stopPolling, rfl, (same .stats).trans rfl, _, _, run,
    (applied counts _ (@Step.handle _ _ _ [] rfl)).1⟩

end EngineConsole
