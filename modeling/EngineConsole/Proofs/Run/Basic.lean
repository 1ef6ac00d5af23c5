import EngineConsole.Console.Station

/-!
# Runs of a station

What can happen at a station, one step at a time: the operator has something done, the completion
at the head of the queue is applied, a piece of work that is ready is run, the clock moves on, or
what the requests meet changes by itself. A run is any sequence of such steps. Which of the pieces
of work that are ready comes next is left open, so a run covers every interleaving.
-/

set_option autoImplicit false

namespace EngineConsole

/-! ## Steps -/

inductive Operation where
  | startup
  | load
  | save
  | toggle
  | clear (agreed : Bool)
  | askStatus
  | exportConfig (taken : Bool)
  /-- Import a file, given its bytes or none if there is no file. -/
  | importConfig (file : Option (List UInt8))
  | startPolling
  | stopPolling
  | edit (key raw : String)
  | put (key : String) (value : Value)

/-- The operation on a desk. Typing that a field does not accept leaves the form as it is. -/
def Desk.operate (desk : Desk) (m : Moment) : Operation → Desk × List Effect
  | .startup => (desk, startup)
  | .load => (desk, [.send .loadConfig])
  | .save => (desk, desk.save)
  | .toggle => desk.toggle
  | .clear agreed => (desk, clear agreed)
  | .askStatus => (desk, [.send .askStatus])
  | .exportConfig taken => desk.exported m taken
  | .importConfig file => desk.imported m (Config.import? file)
  | .startPolling => (desk, [.startPolling])
  | .stopPolling => (desk, [.stopPolling])
  | .edit key raw => ({ desk with form := (desk.form.edit key raw).toOption.getD desk.form }, [])
  | .put key value => ({ desk with form := desk.form.put key value }, [])

inductive Move where
  | operate (o : Operation)
  | handle (c : Completion)
  | work (job : Job)
  | wake (moment : Nat)
  | outside

abbrev World := Agenda → Agenda → Prop

/-- Everything may change at any moment: the engine, the time it takes and the answers that a
script holds ready. A request then ends when and how it likes, if it ends at all. -/
def World.any : World := fun a b =>
  ∃ engine latency script uptime, b = { a with engine, latency, script, uptime }

/-- A simulated engine that nobody else deals with: it is cut off or reached again, and its
counters are overwritten. Its answers tell any time. -/
inductive World.simulated : World where
  | offline (a : Agenda) (offline : Bool) :
      World.simulated a { a with engine := { a.engine with offline } }
  | counter (a : Agenda) (key : String) (value : UInt64) :
      World.simulated a { a with engine := a.engine.setCounter key value }
  | uptime (a : Agenda) (uptime : String) : World.simulated a { a with uptime }

inductive Step (world : World) : Station → Move → Station → Prop where
  | operate {s : Station} (o : Operation) :
      Step world s (.operate o) (s.take (s.desk.operate s.moment o))
  | handle {s : Station} {c : Completion} {rest : List Completion} :
      s.agenda.arrived = c :: rest →
      Step world s (.handle c)
        (Station.handle { s with agenda := { s.agenda with arrived := rest } } c)
  | work {s : Station} {before after : List Job} {job : Job} :
      s.agenda.ready = before ++ job :: after →
      Step world s (.work job)
        { s with agenda := Agenda.runJob { s.agenda with ready := before ++ after } job }
  | wake {s : Station} {moment : Nat} :
      s.agenda.now ≤ moment →
      Step world s (.wake moment) { s with agenda := s.agenda.wakeAt moment }
  | outside {s : Station} {agenda : Agenda} {clock : String} :
      world s.agenda agenda →
      Step world s .outside { s with agenda, clock }

/-! ## Runs -/

structure Deed where
  before : Station
  move : Move

abbrev History := List Deed

inductive Run (world : World) (first : Station) : History → Station → Prop where
  | begin : Run world first [] first
  | step {log : History} {s s' : Station} {m : Move} :
      Run world first log s → Step world s m s' → Run world first (log ++ [⟨s, m⟩]) s'

namespace Run

variable {world : World} {first s t : Station} {log log' : History}

theorem single {m : Move} (step : Step world s m t) : Run world s [⟨s, m⟩] t := by
  have start : Run world s [] s := .begin
  exact start.step step

theorem append (run : Run world first log s) (more : Run world s log' t) :
    Run world first (log ++ log') t := by
  induction more with
  | begin => simpa using run
  | step _ step ih =>
      rw [← List.append_assoc]
      exact .step ih step

/-- A run is one up to any of its steps, that step, and one from there on. -/
theorem split {before after : History} {d : Deed}
    (run : Run world first (before ++ d :: after) s) :
    ∃ t, Run world first before d.before ∧ Step world d.before d.move t ∧ Run world t after s := by
  generalize whole : before ++ d :: after = log at run
  induction run generalizing after with
  | begin => cases before <;> cases whole
  | @step log s s' m run step ih =>
      rcases List.eq_nil_or_concat after with rfl | ⟨init, last, rfl⟩
      · obtain ⟨rfl, same⟩ := List.append_inj' whole rfl
        obtain rfl := List.singleton_inj.mp same
        exact ⟨s', run, step, .begin⟩
      · rw [List.concat_eq_append] at whole ⊢
        rw [← List.cons_append, ← List.append_assoc] at whole
        obtain ⟨earlier, same⟩ := List.append_inj' whole rfl
        obtain rfl := List.singleton_inj.mp same
        obtain ⟨t, upTo, at', more⟩ := ih earlier
        exact ⟨t, upTo, at', more.step step⟩

theorem weaken {wider : World} (within : ∀ a b, world a b → wider a b)
    (run : Run world first log s) : Run wider first log s := by
  induction run with
  | begin => exact .begin
  | step _ step ih =>
      refine .step ih ?_
      cases step with
      | operate o => exact .operate o
      | handle head => exact .handle head
      | work member => exact .work member
      | wake later => exact .wake later
      | outside change => exact .outside (within _ _ change)

end Run

theorem World.simulated_any {a b : Agenda} (change : World.simulated a b) : World.any a b := by
  cases change with
  | offline offline => exact ⟨_, _, _, _, rfl⟩
  | counter key value => exact ⟨_, _, _, _, rfl⟩
  | uptime uptime => exact ⟨_, _, _, _, rfl⟩

/-- A station as it is set up: nothing has happened but that the button is shown. -/
def Station.opened (form : Form) (options : Options) (engine : Engine) (latency : Nat)
    (clock : String) : Station :=
  let s := Station.ofOptions form options engine clock
  Station.perform { s with agenda := { s.agenda with latency } } Desk.opening

section

variable (form : Form) (options : Options) (engine : Engine) (latency : Nat) (clock : String)

theorem Station.desk_opened : (Station.opened form options engine latency clock).desk =
    .fresh form options.capacity options.ttl := rfl

theorem Station.agenda_opened : (Station.opened form options engine latency clock).agenda =
    { engine, latency, interval := options.interval, overlap := options.overlap } := rfl

end

end EngineConsole
