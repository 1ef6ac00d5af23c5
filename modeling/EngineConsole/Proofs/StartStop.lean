import EngineConsole.Proofs.Run.Outcome
import Mathlib.Algebra.Ring.Parity

/-!
# Starting and stopping in turn

Whatever the engine answers and whenever it does, one request to start or stop is outstanding at a
time, and the requests that the engine granted are a start, a stop, a start, and so on. The flag
that marks a request as pending, the requests under way and the completions in the queue account
for each other in every state that a run reaches.
-/

set_option autoImplicit false

namespace EngineConsole

/-! ## What a history says of starts and stops -/

def Request.isToggle (r : Request) : Bool :=
  r.matter = .toggle

def Deed.asked (d : Deed) : List Request :=
  d.issued.filter Request.isToggle

namespace History

/-- The requests to start or stop that were issued. -/
def asked (log : History) : List Request :=
  log.flatMap Deed.asked

/-- The ends of such requests that were handled. -/
def concluded (log : History) : List (Except Failure Unit) :=
  log.handled.filterMap Completion.ends?

def outstanding (log : History) : Nat :=
  log.asked.length - log.concluded.length

def successes (log : History) : Nat :=
  log.concluded.countP Except.isOk

end History

/-- The requests that ended well, each end belonging to the request at its place in the order. -/
def Request.granted (asked : List Request) (ends : List (Except Failure Unit)) : List Request :=
  (asked.zip ends).filterMap fun (r, result) => result.toOption.map fun _ => r

theorem Request.granted_asked {asked : List Request} {ends : List (Except Failure Unit)}
    (same : asked.length = ends.length) (r : Request) :
    Request.granted (asked ++ [r]) ends = Request.granted asked ends := by
  have zipped : (asked ++ [r]).zip (ends ++ []) = asked.zip ends ++ [r].zip [] :=
    List.zip_append same
  rw [List.append_nil, List.zip_nil_right, List.append_nil] at zipped
  rw [Request.granted, zipped]
  rfl

theorem Request.granted_ended {asked : List Request} {ends : List (Except Failure Unit)}
    (same : asked.length = ends.length) (r : Request) (result : Except Failure Unit) :
    Request.granted (asked ++ [r]) (ends ++ [result]) =
      Request.granted asked ends ++ (result.toOption.map fun _ => r).toList := by
  rw [Request.granted, List.zip_append same, List.filterMap_append]
  cases result <;> rfl

/-- A start, a stop, a start, and so on. -/
def alternation (n : Nat) : List Request :=
  (List.range n).map fun i => if i % 2 = 0 then .start else .stop

theorem alternation_succ (n : Nat) :
    alternation (n + 1) = alternation n ++ [if n % 2 = 0 then .start else .stop] := by
  simp [alternation, List.range_succ]

theorem RunState.toggled_parity (n : Nat) :
    (RunState.ofRunning (n % 2 = 1)).toggled = .ofRunning ((n + 1) % 2 = 1) := by
  rcases Nat.mod_two_eq_zero_or_one n with even | odd
  · simp [Nat.add_mod, even, RunState.ofRunning, RunState.toggled]
  · simp [Nat.add_mod, odd, RunState.ofRunning, RunState.toggled]

theorem RunState.requestFor_parity (n : Nat) :
    Desk.requestFor (RunState.ofRunning (n % 2 = 1)).toggled =
      if n % 2 = 0 then .start else .stop := by
  rcases Nat.mod_two_eq_zero_or_one n with even | odd
  · simp [even, RunState.ofRunning, RunState.toggled, Desk.requestFor]
  · simp [odd, RunState.ofRunning, RunState.toggled, Desk.requestFor]

theorem Deed.asked_eq (s : Station) (m : Move) :
    (Deed.mk s m).asked = match m with
      | .operate .toggle =>
        if s.desk.pending then [] else [Desk.requestFor s.desk.state.toggled]
      | _ => [] := by
  cases m with
  | operate o =>
      rw [asked, issued_operate]
      cases o with
      | toggle =>
          dsimp only [Operation.requests]
          split
          · rfl
          · cases s.desk.state <;> rfl
      | clear agreed => cases agreed <;> rfl
      | startup | load | save | askStatus | exportConfig | importConfig | startPolling
      | stopPolling | edit | put => rfl
  | handle c =>
      rw [asked, issued_handle]
      cases c with
      | statsCleared result => cases result <;> rfl
      | configLoaded | configSaved | statsFetched | toggleFinished | engineStatus | alertExpired =>
          rfl
  | work job =>
      refine List.filter_eq_nil_iff.mpr fun r member => ?_
      rw [issued_work member]
      decide
  | wake | outside => rfl

/-! ## Counting -/

theorem Request.count_toggle (l : List Request) :
    (Request.matters l).count .toggle = (l.filter Request.isToggle).length := by
  rw [Request.count_matters, List.countP_eq_length_filter]
  rfl

theorem Completion.count_toggle (l : List Completion) :
    (Completion.matters l).count .toggle = (l.filterMap Completion.ends?).length := by
  rw [Completion.count_matters, List.length_filterMap_eq_countP]
  refine List.countP_congr fun c _ => ?_
  cases c <;> simp [Completion.matter?, Completion.ends?]

theorem countP_ended (ends : List (Except Failure Unit)) (result : Except Failure Unit) :
    (ends ++ [result]).countP Except.isOk = ends.countP Except.isOk + result.isOk.toNat := by
  rw [List.countP_append]
  cases result <;> rfl

theorem History.asked_eq (log : History) : log.asked = log.issued.filter Request.isToggle := by
  induction log with
  | nil => rfl
  | cons d rest ih =>
      rw [History.issued, List.flatMap_cons, List.filter_append]
      exact congrArg (d.asked ++ ·) ih

theorem History.asked_append (log : History) (d : Deed) :
    History.asked (log ++ [d]) = log.asked ++ d.asked := by
  simp [History.asked]

theorem History.concluded_append (log : History) (d : Deed) :
    History.concluded (log ++ [d]) =
      log.concluded ++ (d.handled?.toList.filterMap Completion.ends?) := by
  rw [History.concluded, History.handled_append, List.filterMap_append]
  rfl

/-- On the agenda there are no more starts and stops than are outstanding. -/
theorem Run.toggles_le {form : Form} {options : Options} {engine : Engine} {latency : Nat}
    {clock : String} {log : History} {s : Station}
    (run : Run .any (.opened form options engine latency clock) log s) :
    s.agenda.concerns.count .toggle + log.concluded.length ≤ log.asked.length := by
  have counts := congrArg (Multiset.count .toggle) run.balance
  rw [Multiset.count_add, Multiset.count_add, Request.count_toggle log.issued, ← log.asked_eq,
    Completion.count_toggle] at counts
  exact (Nat.le_add_right _ _).trans_eq counts

/-! ## The protocol -/

/-- What ties the desk to the starts and stops of the history. -/
structure InTurn (log : History) (s : Station) : Prop where
  count : log.asked.length = log.concluded.length + (if s.desk.pending then 1 else 0)
  last : s.desk.pending = true →
    log.asked.getLast? = some (Desk.requestFor s.desk.state.toggled)
  state : s.desk.state = .ofRunning (log.successes % 2 = 1)
  granted : Request.granted log.asked log.concluded = alternation log.successes

namespace InTurn

variable {log : History} {s s' : Station} {m : Move}

theorem opened (form : Form) (options : Options) (engine : Engine) (latency : Nat)
    (clock : String) : InTurn [] (.opened form options engine latency clock) := by
  have desk := Station.desk_opened form options engine latency clock
  constructor
  · rw [desk]
    rfl
  · intro busy
    rw [desk] at busy
    cases busy
  · rw [desk]
    rfl
  · rfl

theorem quiet (turn : InTurn log s) (asked : (Deed.mk s m).asked = [])
    (ended : (Deed.mk s m).handled?.toList.filterMap Completion.ends? = [])
    (pending : s'.desk.pending = s.desk.pending) (state : s'.desk.state = s.desk.state) :
    InTurn (log ++ [⟨s, m⟩]) s' := by
  have sameAsked : History.asked (log ++ [⟨s, m⟩]) = log.asked := by
    rw [History.asked_append, asked, List.append_nil]
  have sameEnds : History.concluded (log ++ [⟨s, m⟩]) = log.concluded := by
    rw [History.concluded_append, ended, List.append_nil]
  constructor
  · rw [sameAsked, sameEnds, pending]
    exact turn.count
  · rw [sameAsked, pending, state]
    exact turn.last
  · rw [History.successes, sameEnds, state]
    exact turn.state
  · rw [History.successes, sameAsked, sameEnds]
    exact turn.granted

theorem pressed (turn : InTurn log s) (step : Step .any s (.operate .toggle) s') :
    InTurn (log ++ [⟨s, .operate .toggle⟩]) s' := by
  have state : s'.desk.state = s.desk.state := by
    rw [step.desk_eq]
    exact s.desk.state_operate s.moment .toggle
  have pending : s'.desk.pending = true := by
    rw [step.desk_eq]
    exact s.desk.pending_operate s.moment .toggle
  by_cases busy : s.desk.pending = true
  · have asked : (Deed.mk s (.operate .toggle)).asked = [] := by
      rw [Deed.asked_eq]
      exact if_pos busy
    exact turn.quiet asked rfl (pending.trans busy.symm) state
  · have asked : History.asked (log ++ [⟨s, .operate .toggle⟩]) =
        log.asked ++ [Desk.requestFor s.desk.state.toggled] := by
      rw [History.asked_append, Deed.asked_eq]
      exact congrArg (log.asked ++ ·) (if_neg busy)
    have ends : History.concluded (log ++ [⟨s, .operate .toggle⟩]) = log.concluded := by
      rw [History.concluded_append]
      exact List.append_nil _
    have same : log.asked.length = log.concluded.length := by
      have count := turn.count
      rwa [if_neg busy, Nat.add_zero] at count
    constructor
    · rw [asked, ends, pending, List.length_append, same]
      rfl
    · intro _
      rw [asked, state]
      exact List.getLast?_concat
    · rw [History.successes, ends, state]
      exact turn.state
    · rw [History.successes, asked, ends, Request.granted_asked same]
      exact turn.granted

/-- A completion in the queue answers a request that is outstanding, which is the last one asked.
-/
theorem pending_of_queued (turn : InTurn log s)
    (balance : s.agenda.concerns.count .toggle + log.concluded.length ≤ log.asked.length)
    {c : Completion} {result : Except Failure Unit} (ends : c.ends? = some result)
    (queued : c ∈ s.agenda.arrived) : s.desk.pending = true := by
  have about : c.matter? = some .toggle := by
    cases c <;> first | rfl | cases ends
  have waits : 0 < s.agenda.concerns.count .toggle := by
    refine Multiset.count_pos.mpr (Multiset.mem_add.mpr (.inr ?_))
    exact Multiset.mem_coe.mpr (List.mem_filterMap.mpr ⟨c, queued, about⟩)
  have count := turn.count
  by_contra idle
  rw [if_neg idle] at count
  omega

theorem concluded {c : Completion} {result : Except Failure Unit} (turn : InTurn log s)
    (balance : s.agenda.concerns.count .toggle + log.concluded.length ≤ log.asked.length)
    (ends : c.ends? = some result) (step : Step .any s (.handle c) s') :
    InTurn (log ++ [⟨s, .handle c⟩]) s' := by
  have queued : c ∈ s.agenda.arrived := by
    cases step with
    | handle head => exact head ▸ List.mem_cons_self
  have busy := turn.pending_of_queued balance ends queued
  obtain ⟨earlier, asked⟩ := List.getLast?_eq_some_iff.mp (turn.last busy)
  have same : earlier.length = log.concluded.length := by
    have count := turn.count
    rw [asked, if_pos busy, List.length_append] at count
    exact Nat.succ.inj count
  have stillAsked : History.asked (log ++ [⟨s, .handle c⟩]) = log.asked := by
    rw [History.asked_append, Deed.asked_eq]
    exact List.append_nil _
  have moreEnds : History.concluded (log ++ [⟨s, .handle c⟩]) = log.concluded ++ [result] := by
    rw [History.concluded_append]
    simp [Deed.handled?, ends]
  have pending : s'.desk.pending = false := by
    rw [step.desk_eq]
    refine (s.desk.pending_handle s.moment c).trans ?_
    rw [ends]
    rfl
  have state : s'.desk.state = if result.isOk then s.desk.state.toggled else s.desk.state := by
    rw [step.desk_eq]
    refine (s.desk.state_handle s.moment c).trans ?_
    rw [ends]
    cases result <;> rfl
  constructor
  · rw [stillAsked, moreEnds, pending, asked, List.length_append, List.length_append, same]
    rfl
  · intro busy
    rw [pending] at busy
    cases busy
  · rw [History.successes, moreEnds, countP_ended, state, turn.state]
    cases result with
    | error f => rfl
    | ok u => exact RunState.toggled_parity log.successes
  · rw [History.successes, stillAsked, moreEnds, countP_ended, asked, Request.granted_ended same,
      ← Request.granted_asked same (Desk.requestFor s.desk.state.toggled), ← asked, turn.granted]
    cases result with
    | error f => exact List.append_nil _
    | ok u =>
        refine Eq.trans ?_ (alternation_succ log.successes).symm
        rw [turn.state, RunState.requestFor_parity]
        rfl

theorem step (turn : InTurn log s)
    (balance : s.agenda.concerns.count .toggle + log.concluded.length ≤ log.asked.length)
    (step : Step .any s m s') : InTurn (log ++ [⟨s, m⟩]) s' := by
  have desk := step.desk_eq
  cases m with
  | operate o =>
      have state : s'.desk.state = s.desk.state := desk ▸ s.desk.state_operate s.moment o
      have pending := s.desk.pending_operate s.moment o
      cases o with
      | toggle => exact turn.pressed step
      | startup | load | save | clear | askStatus | exportConfig | importConfig | startPolling
      | stopPolling | edit | put =>
          exact turn.quiet (Deed.asked_eq _ _) rfl (desk ▸ pending) state
  | handle c =>
      cases ends : c.ends? with
      | some result => exact turn.concluded balance ends step
      | none =>
          have state := s.desk.state_handle s.moment c
          have pending := s.desk.pending_handle s.moment c
          rw [ends] at state pending
          refine turn.quiet (Deed.asked_eq _ _) ?_ (desk ▸ pending) (desk ▸ state)
          simp [Deed.handled?, ends]
  | work | wake | outside =>
      exact turn.quiet (Deed.asked_eq _ _) rfl (congrArg Desk.pending desk)
        (congrArg Desk.state desk)

end InTurn

section

variable {form : Form} {options : Options} {engine : Engine} {latency : Nat} {clock : String}
  {log : History} {s s' : Station} {m : Move}

theorem Run.inTurn (run : Run .any (.opened form options engine latency clock) log s) :
    InTurn log s := by
  induction run with
  | begin => exact .opened form options engine latency clock
  | step run step ih => exact ih.step run.toggles_le step

theorem InTurn.outstanding_eq (turn : InTurn log s) :
    log.outstanding = if s.desk.pending then 1 else 0 := by
  rw [History.outstanding, turn.count]
  exact Nat.add_sub_cancel_left _ _

theorem Run.toggles_le_outstanding
    (run : Run .any (.opened form options engine latency clock) log s) :
    s.agenda.concerns.count .toggle ≤ log.outstanding :=
  Nat.le_sub_of_add_le run.toggles_le

theorem InTurn.running_iff (turn : InTurn log s) :
    s.desk.state = .running ↔ Odd log.successes := by
  rw [turn.state, Nat.odd_iff]
  rcases Nat.mod_two_eq_zero_or_one log.successes with even | odd
  · simp [even, RunState.ofRunning]
  · simp [odd, RunState.ofRunning]

/-! ## One step -/

theorem Step.state_eq {world : World} (step : Step world s m s') :
    s'.desk.state = match m with
      | .handle (.toggleFinished (.ok _)) => s.desk.state.toggled
      | _ => s.desk.state := by
  rw [step.desk_eq]
  cases m with
  | operate o => exact s.desk.state_operate s.moment o
  | handle c =>
      refine (s.desk.state_handle s.moment c).trans ?_
      cases c with
      | toggleFinished result => cases result <;> rfl
      | configLoaded | configSaved | statsFetched | statsCleared | engineStatus => rfl
      | alertExpired => rfl
  | work | wake | outside => rfl

theorem Step.granted_of_state_ne {world : World} (step : Step world s m s')
    (changed : s'.desk.state ≠ s.desk.state) : m = .handle (.toggleFinished (.ok ())) := by
  rw [step.state_eq] at changed
  split at changed
  · rfl
  · exact absurd rfl changed

theorem Run.outstanding_of_finished
    (run : Run .any (.opened form options engine latency clock) log s)
    {result : Except Failure Unit} (step : Step .any s (.handle (.toggleFinished result)) s') :
    log.outstanding = 1 := by
  have queued : Completion.toggleFinished result ∈ s.agenda.arrived := by
    cases step with
    | handle head => exact head ▸ List.mem_cons_self
  have busy := run.inTurn.pending_of_queued run.toggles_le rfl queued
  rw [run.inTurn.outstanding_eq, if_pos busy]

theorem Run.asked_of_granted (run : Run .any (.opened form options engine latency clock) log s)
    {u : Unit} (step : Step .any s (.handle (.toggleFinished (.ok u))) s') :
    log.asked.getLast? = some (Desk.requestFor s'.desk.state) := by
  have outstanding := run.outstanding_of_finished step
  have busy : s.desk.pending = true := by
    by_contra idle
    rw [run.inTurn.outstanding_eq, if_neg idle] at outstanding
    cases outstanding
  rw [step.state_eq]
  exact run.inTurn.last busy

/-- A start or stop that is under way brings the engine out of the state that the desk knows. -/
theorem Run.underway_toggle (run : Run .any (.opened form options engine latency clock) log s) :
    ∀ r ∈ s.agenda.underway, r.isToggle = true → r = Desk.requestFor s.desk.state.toggled := by
  induction run with
  | begin =>
      intro r member about
      rw [Station.agenda_opened] at member
      cases member
  | @step log s s' m run step ih =>
      intro r member about
      have further := run.step step
      rcases Multiset.mem_add.mp (Multiset.mem_of_le step.underway_le member) with old | new
      · by_cases same : s'.desk.state = s.desk.state
        · rw [same]
          exact ih r old about
        · obtain rfl := step.granted_of_state_ne same
          have idle : s'.desk.pending = false := by
            rw [step.desk_eq]
            exact s.desk.pending_handle s.moment (.toggleFinished (.ok ()))
          have none := further.toggles_le_outstanding
          rw [further.inTurn.outstanding_eq, idle] at none
          have some : 0 < s'.agenda.concerns.count .toggle := by
            refine Multiset.count_pos.mpr (Multiset.mem_add.mpr (.inl ?_))
            exact Multiset.mem_map.mpr ⟨r, member, of_decide_eq_true about⟩
          exact absurd (some.trans_le none) (Nat.lt_irrefl 0)
      · have asked : r ∈ (Deed.mk s m).asked :=
          List.mem_filter.mpr ⟨Multiset.mem_coe.mp new, about⟩
        rw [Deed.asked_eq] at asked
        split at asked
        next =>
          split at asked
          next => cases asked
          next => rw [List.mem_singleton.mp asked, step.state_eq]
        next => cases asked

/-! ## The protocol in a run -/

/-- At most one start or stop is outstanding, which is when the button is not heeded; a press that
is heeded asks for the other state; the state changes when such a request was granted, to the one
that was asked for, and never else; and what is granted is a start, a stop, a start, and so on. -/
theorem starts_and_stops_take_turns
    (run : Run .any (.opened form options engine latency clock) log s) :
    (log.concluded.length ≤ log.asked.length ∧ log.outstanding ≤ 1 ∧
      s.agenda.concerns.count .toggle ≤ log.outstanding ∧
      (s.desk.pending = true ↔ log.outstanding = 1)) ∧
    ((s.desk.heedsToggle = true ↔ log.outstanding = 0) ∧
      ((Deed.mk s (.operate .toggle)).issued =
        if log.outstanding = 0 then
          [match s.desk.state with | .stopped => .start | .running => .stop]
        else []) ∧
      (∀ s', Step .any s (.operate .toggle) s' → s'.agenda.underway =
        s.agenda.underway + ((Deed.mk s (.operate .toggle)).issued : List Request))) ∧
    (∀ m s', Step .any s m s' →
      (s'.desk.state ≠ s.desk.state → m = .handle (.toggleFinished (.ok ()))) ∧
      (∀ result, m = .handle (.toggleFinished result) → log.outstanding = 1) ∧
      (m = .handle (.toggleFinished (.ok ())) →
        log.asked.getLast? = some (Desk.requestFor s'.desk.state))) ∧
    (s.desk.state = .running ↔ Odd log.successes) ∧
    Request.granted log.asked log.concluded = alternation log.successes := by
  have turn := run.inTurn
  have outstanding := turn.outstanding_eq
  refine ⟨⟨?_, ?_, run.toggles_le_outstanding, ?_⟩, ⟨?_, ?_, ?_⟩, ?_, turn.running_iff,
    turn.granted⟩
  · rw [turn.count]
    exact Nat.le_add_right _ _
  · rw [outstanding]
    split <;> decide
  · rw [outstanding]
    cases s.desk.pending <;> decide
  · rw [outstanding, Desk.heedsToggle]
    cases s.desk.pending <;> decide
  · have sent : (Deed.mk s (.operate .toggle)).issued =
        if s.desk.pending then [] else [Desk.requestFor s.desk.state.toggled] :=
      Deed.issued_operate s .toggle
    rw [sent, outstanding]
    cases s.desk.pending <;> cases s.desk.state <;> rfl
  · intro s' step
    cases step with
    | operate =>
        rw [Station.agenda_take, Agenda.underway_effects]
        rfl
  · intro m s' step
    refine ⟨?_, ?_, ?_⟩
    · intro changed
      exact step.granted_of_state_ne changed
    · rintro result rfl
      exact run.outstanding_of_finished step
    · rintro rfl
      exact run.asked_of_granted step

end

/-- A start that is granted, from the press of the button to the handling of its end. -/
theorem first_start_takes_its_turn :
    let first : Station :=
      .opened .empty {} { config := .ofList [("Iface", .text "eth0")] } 0 "12:00:00"
    ∃ log s, Run .any first log s ∧ log.successes = 1 ∧ s.desk.state = .running ∧
      Request.granted log.asked log.concluded = [.start] := by
  intro first
  have opened : Run .any first [] first := .begin
  have pressed := opened.step (.operate .toggle)
  have served := pressed.step (@Step.work _ _ [] [] (.begin .start none) rfl)
  have run := served.step (@Step.handle _ _ (.toggleFinished (.ok ())) [] rfl)
  obtain ⟨-, -, -, running, granted⟩ := starts_and_stops_take_turns run
  exact ⟨_, _, run, rfl, running.mpr ⟨0, rfl⟩, granted⟩

end EngineConsole
