import EngineConsole.Proofs.Run.PollingPeriod
import Mathlib.Data.List.Induction

/-!
# The schedule of serialized polling

A poll timer that lets each fetch end before the next keeps to the grid of its interval: a fetch
that is late makes ticks drop out, but shifts none.
-/

set_option autoImplicit false

namespace EngineConsole

/-! ## The tick after a late one -/

namespace Agenda

variable {now due interval : Nat}

/-- A tick and the tick after it are some intervals apart. -/
theorem nextSerialized_grid (interval : Nat) (due_le : due ≤ now) :
    ∃ missed, nextSerialized now due interval = due + (missed + 1) * interval := by
  unfold nextSerialized
  split
  · refine ⟨(now - due) / interval, ?_⟩
    have parts := Nat.div_add_mod (now - due) interval
    rw [Nat.mul_comm] at parts
    rw [Nat.add_mul, Nat.one_mul]
    omega
  · refine ⟨0, ?_⟩
    simp

/-- The tick after is ahead, as long as the interval is longer than a tick may be late and still
count as punctual. -/
theorem lt_nextSerialized (tolerant : slack < interval) :
    now < nextSerialized now due interval := by
  unfold nextSerialized
  split
  · have small := Nat.mod_lt (now - due) (Nat.zero_lt_of_lt tolerant)
    omega
  · omega

theorem nextSerialized_le (due_le : due ≤ now) :
    nextSerialized now due interval ≤ now + interval := by
  unfold nextSerialized
  split <;> omega

theorem nextSerialized_self (due interval : Nat) :
    nextSerialized due due interval = due + interval :=
  if_neg (Nat.le_add_right due slack).not_gt

end Agenda

/-! ## Schedules -/

/-- The first points of the grid that an interval lays out from a moment on. -/
def pollGrid (start interval count : Nat) : List Nat :=
  (List.range count).map fun k => start + (k + 1) * interval

theorem pollGrid_succ (start interval count : Nat) :
    pollGrid start interval (count + 1) =
      pollGrid start interval count ++ [start + (count + 1) * interval] := by
  simp [pollGrid, List.range_succ]

theorem pollGrid_prefix (start interval : Nat) {count count' : Nat} (fewer : count ≤ count') :
    pollGrid start interval count <+: pollGrid start interval count' := by
  obtain ⟨more, rfl⟩ := Nat.exists_eq_add_of_le fewer
  induction more with
  | zero => exact List.prefix_rfl
  | succ more ih =>
      refine (ih (Nat.le_add_right _ _)).trans ?_
      rw [← Nat.add_assoc, pollGrid_succ]
      exact List.prefix_append _ _

/-- The moment at which the tick after all these is due. -/
def dueAfter (start interval : Nat) (ticks : List (Nat × Nat)) : Nat :=
  (ticks.getLast?.map fun t => Agenda.nextSerialized t.2 t.1 interval).getD (start + interval)

/-- Each tick, given by the moment at which it is due and the one at which it fetches, fetches once
it is due and the fetch before it is over; the tick after it is the next for a timer that notices it
then. -/
structure Serialized (start interval : Nat) (ticks : List (Nat × Nat)) (ends : List Nat) :
    Prop where
  first : ∀ due now : Nat, ticks[0]? = some (due, now) → due = start + interval ∧ now = due
  next : ∀ i due now due' now' : Nat,
    ticks[i]? = some (due, now) → ticks[i + 1]? = some (due', now') →
      due' = Agenda.nextSerialized now due interval ∧
        ∃ finished, ends[i]? = some finished ∧ now' = max due' finished
  finished : ∀ i due now finished : Nat,
    ticks[i]? = some (due, now) → ends[i]? = some finished → now ≤ finished

/-- As far as the clock has come, each fetch is over when the tick after its own is due. -/
def Prompt (interval limit : Nat) (ticks : List (Nat × Nat)) (ends : List Nat) : Prop :=
  ∀ i due now : Nat, ticks[i]? = some (due, now) →
    Agenda.nextSerialized now due interval ≤ limit →
      ∃ finished, ends[i]? = some finished ∧ finished ≤ Agenda.nextSerialized now due interval

/-- An entry of a list with one more entry is an old one or the last. -/
theorem getElem?_concat_cases {α : Type} {l : List α} {x y : α} {i : Nat}
    (found : (l ++ [x])[i]? = some y) : l[i]? = some y ∨ i = l.length ∧ x = y := by
  rcases Nat.lt_or_ge i l.length with old | new
  · exact .inl ((List.getElem?_append_left old).symm.trans found)
  · rw [List.getElem?_append_right new] at found
    obtain ⟨within, same⟩ := List.getElem?_eq_some_iff.mp found
    have zero : i - l.length = 0 := Nat.lt_one_iff.mp within
    refine .inr ⟨Nat.le_antisymm (Nat.sub_eq_zero_iff_le.mp zero) new, ?_⟩
    simpa [zero] using same

theorem exists_before {α : Type} {l : List α} {y : α} {i : Nat} (found : l[i + 1]? = some y) :
    ∃ x, l[i]? = some x :=
  ⟨_, List.getElem?_eq_getElem (Nat.lt_of_succ_lt (List.getElem?_eq_some_iff.mp found).1)⟩

section

variable {start interval due now : Nat} {ticks : List (Nat × Nat)} {ends : List Nat}

theorem dueAfter_concat (start interval due now : Nat) (ticks : List (Nat × Nat)) :
    dueAfter start interval (ticks ++ [(due, now)]) = Agenda.nextSerialized now due interval := by
  simp [dueAfter]

namespace Serialized

theorem empty (start interval : Nat) : Serialized start interval [] [] :=
  ⟨nofun, nofun, nofun⟩

/-- The schedule goes on with a tick that fetches when it is due or the last fetch is over. -/
theorem tick (schedule : Serialized start interval ticks ends)
    (idle : ends.length = ticks.length) (due_eq : due = dueAfter start interval ticks)
    (now_eq : now = max due (ends.getLast?.getD start)) :
    Serialized start interval (ticks ++ [(due, now)]) ends where
  first := by
    intro due' now' found
    cases ticks with
    | nil =>
        obtain rfl : ends = [] := List.length_eq_zero_iff.mp idle
        obtain ⟨rfl, rfl⟩ : due = due' ∧ now = now' := by simpa using found
        have first : due = start + interval := due_eq
        have same : now = max due start := now_eq
        exact ⟨first, by omega⟩
    | cons t rest => exact schedule.first due' now' (by simpa using found)
  next := by
    intro i due₁ now₁ due₂ now₂ found found'
    have within {x : Nat × Nat} (bound : i < ticks.length)
        (found : (ticks ++ [(due, now)])[i]? = some x) : ticks[i]? = some x :=
      (List.getElem?_append_left bound).symm.trans found
    rcases getElem?_concat_cases found' with old | ⟨last, same⟩
    · have bound := (List.getElem?_eq_some_iff.mp old).1
      exact schedule.next i due₁ now₁ due₂ now₂ (within (Nat.lt_of_succ_lt bound) found) old
    · obtain ⟨rfl, rfl⟩ := Prod.mk.inj same
      have before := within (last ▸ Nat.lt_succ_self i) found
      have latest : ticks.getLast? = some (due₁, now₁) := by
        rw [List.getLast?_eq_getElem?, ← last]
        exact before
      have ended : ends.getLast? = ends[i]? := by
        rw [List.getLast?_eq_getElem?, idle, ← last]
        rfl
      have bound : i < ends.length := by omega
      have finished : ends[i]? = some ends[i] := List.getElem?_eq_getElem bound
      refine ⟨?_, ends[i], finished, ?_⟩
      · rw [due_eq, dueAfter, latest]
        rfl
      · rw [now_eq, ended, finished]
        rfl
  finished := by
    intro i due' now' finished found ended
    rcases getElem?_concat_cases found with old | ⟨last, -⟩
    · exact schedule.finished i due' now' finished old ended
    · have bound := (List.getElem?_eq_some_iff.mp ended).1
      omega

/-- The schedule goes on with the end of the fetch that is not over. -/
theorem fetched {moment : Nat} (schedule : Serialized start interval ticks ends)
    (past : ∀ t ∈ ticks, t.2 ≤ moment) :
    Serialized start interval ticks (ends ++ [moment]) where
  first := schedule.first
  next := by
    intro i due₁ now₁ due₂ now₂ found found'
    obtain ⟨due_eq, finished, ended, now_eq⟩ := schedule.next i due₁ now₁ due₂ now₂ found found'
    have bound := (List.getElem?_eq_some_iff.mp ended).1
    exact ⟨due_eq, finished, (List.getElem?_append_left bound).trans ended, now_eq⟩
  finished := by
    intro i due' now' finished found ended
    rcases getElem?_concat_cases ended with old | ⟨-, rfl⟩
    · exact schedule.finished i due' now' finished found old
    · exact past (due', now') (List.mem_of_getElem? found)

/-! ## What follows of a schedule -/

variable (schedule : Serialized start interval ticks ends)

include schedule

/-- A tick does not fetch before it is due. -/
theorem due_le {i : Nat} (found : ticks[i]? = some (due, now)) : due ≤ now := by
  cases i with
  | zero => exact (schedule.first due now found).2.ge
  | succ i =>
      obtain ⟨⟨due₀, now₀⟩, before⟩ := exists_before found
      obtain ⟨-, finished, -, rfl⟩ := schedule.next i _ _ due now before found
      exact Nat.le_max_left _ _

/-- Ticks are points of the grid, and each is at least one further than the tick before it. -/
theorem grid {i : Nat} (found : ticks[i]? = some (due, now)) :
    ∃ k, i ≤ k ∧ due = start + (k + 1) * interval := by
  induction i generalizing due now with
  | zero =>
      refine ⟨0, Nat.le_refl _, ?_⟩
      rw [(schedule.first due now found).1, Nat.zero_add, Nat.one_mul]
  | succ i ih =>
      obtain ⟨⟨due₀, now₀⟩, before⟩ := exists_before found
      obtain ⟨rfl, -⟩ := schedule.next i _ _ due now before found
      obtain ⟨k, far, same⟩ := ih before
      obtain ⟨missed, next⟩ := Agenda.nextSerialized_grid interval (schedule.due_le before)
      refine ⟨k + missed + 1, by omega, ?_⟩
      rw [next, same, Nat.add_assoc, ← Nat.add_mul]
      congr 2
      omega

/-- A tick does not fetch before as many intervals are over as ticks have been. -/
theorem far {i : Nat} (found : ticks[i]? = some (due, now)) :
    start + (i + 1) * interval ≤ now := by
  obtain ⟨k, enough, same⟩ := schedule.grid found
  calc start + (i + 1) * interval
      ≤ start + (k + 1) * interval :=
        Nat.add_le_add_left (Nat.mul_le_mul_right _ (Nat.add_le_add_right enough 1)) _
    _ = due := same.symm
    _ ≤ now := schedule.due_le found

/-- The tick after a fetch is the first point of the grid after it. -/
theorem follows (tolerant : Agenda.slack < interval) {i due' now' : Nat}
    (found : ticks[i]? = some (due, now)) (found' : ticks[i + 1]? = some (due', now')) :
    due < due' ∧ now < due' ∧ due' ≤ now + interval ∧
      ∃ finished, ends[i]? = some finished ∧ now ≤ finished ∧ now' = max due' finished := by
  have due_le := schedule.due_le found
  obtain ⟨rfl, finished, ended, now_eq⟩ := schedule.next i due now due' now' found found'
  have later : now < Agenda.nextSerialized now due interval := Agenda.lt_nextSerialized tolerant
  exact ⟨due_le.trans_lt later, later, Agenda.nextSerialized_le due_le, finished, ended,
    schedule.finished i due now finished found ended, now_eq⟩

/-- Of fetches that are over in time none makes a tick late or drop out. -/
theorem of_prompt {limit : Nat} (past : ∀ t ∈ ticks, t.2 ≤ limit)
    (prompt : Prompt interval limit ticks ends) {i : Nat}
    (found : ticks[i]? = some (due, now)) :
    due = start + (i + 1) * interval ∧ now = due := by
  induction i generalizing due now with
  | zero =>
      obtain ⟨first, same⟩ := schedule.first due now found
      exact ⟨by rw [first, Nat.zero_add, Nat.one_mul], same⟩
  | succ i ih =>
      obtain ⟨⟨due₀, now₀⟩, before⟩ := exists_before found
      obtain ⟨due_eq, finished, ended, now_eq⟩ := schedule.next i _ _ due now before found
      obtain ⟨due_before, now_before⟩ := ih before
      have reached : due ≤ limit :=
        (schedule.due_le found).trans (past _ (List.mem_of_getElem? found))
      obtain ⟨finished', ended', early⟩ := prompt i _ _ before (due_eq ▸ reached)
      obtain rfl : finished' = finished := Option.some.inj (ended'.symm.trans ended)
      refine ⟨?_, ?_⟩
      · rw [due_eq, now_before, Agenda.nextSerialized_self, due_before, Nat.add_assoc]
        congr 1
        rw [Nat.add_mul (i + 1), Nat.one_mul]
      · rw [← due_eq] at early
        omega

/-- Fetches that are in time are issued at the points of the grid. -/
theorem polls_of_prompt {limit : Nat} (past : ∀ t ∈ ticks, t.2 ≤ limit)
    (prompt : Prompt interval limit ticks ends) :
    ticks.map (·.2) = pollGrid start interval ticks.length := by
  refine List.ext_getElem (by simp [pollGrid]) fun i bound bound' => ?_
  have bound : i < ticks.length := by simpa using bound
  have found : ticks[i]? = some (ticks[i].1, ticks[i].2) := List.getElem?_eq_getElem bound
  obtain ⟨due_eq, now_eq⟩ := schedule.of_prompt past prompt found
  simp [pollGrid, now_eq, due_eq]

theorem dueAfter_of_prompt {limit : Nat} (past : ∀ t ∈ ticks, t.2 ≤ limit)
    (prompt : Prompt interval limit ticks ends) :
    dueAfter start interval ticks = start + (ticks.length + 1) * interval := by
  rcases List.eq_nil_or_concat' ticks with rfl | ⟨earlier, ⟨due, now⟩, rfl⟩
  · simp [dueAfter]
  · obtain ⟨due_eq, now_eq⟩ := schedule.of_prompt past prompt List.getElem?_concat_length
    rw [dueAfter_concat, now_eq, Agenda.nextSerialized_self, due_eq, Nat.add_assoc]
    simp [Nat.add_mul]

/-- The last of the fetches that are in time is one interval before the next. -/
theorem reached_of_prompt {limit : Nat} (begun : start ≤ limit) (past : ∀ t ∈ ticks, t.2 ≤ limit)
    (prompt : Prompt interval limit ticks ends) : start + ticks.length * interval ≤ limit := by
  rcases List.eq_nil_or_concat' ticks with rfl | ⟨earlier, ⟨due, now⟩, rfl⟩
  · simpa using begun
  · obtain ⟨due_eq, now_eq⟩ := schedule.of_prompt past prompt List.getElem?_concat_length
    have last := past (due, now) (List.mem_append_right _ (List.mem_singleton_self _))
    rw [List.length_append, List.length_singleton, ← due_eq, ← now_eq]
    exact last

end Serialized

/-- A fetch that is in time and not over yet is waited for before the next tick is due. -/
theorem Prompt.ahead {limit : Nat} (prompt : Prompt interval limit ticks ends)
    (busy : ends.length + 1 = ticks.length) : limit < dueAfter start interval ticks := by
  rcases List.eq_nil_or_concat' ticks with rfl | ⟨earlier, ⟨due, now⟩, rfl⟩
  · cases busy
  · rw [dueAfter_concat]
    refine Nat.lt_of_not_le fun late => ?_
    obtain ⟨finished, ended, -⟩ := prompt _ due now List.getElem?_concat_length late
    have bound := (List.getElem?_eq_some_iff.mp ended).1
    rw [List.length_append, List.length_singleton] at busy
    omega

/-- Of moments of which each is at least an interval after the one before, no more have come than
intervals are over. -/
theorem count_le_intervals {l : List Nat} (positive : 0 < interval)
    (far : ∀ i x : Nat, l[i]? = some x → start + (i + 1) * interval ≤ x) (limit : Nat) :
    (l.filter (· ≤ limit)).length ≤ (limit - start) / interval := by
  induction l using List.reverseRecOn with
  | nil => exact Nat.zero_le _
  | append_singleton l x ih =>
      have earlier : ∀ i y : Nat, l[i]? = some y → start + (i + 1) * interval ≤ y := by
        intro i y found
        have bound := (List.getElem?_eq_some_iff.mp found).1
        exact far i y ((List.getElem?_append_left bound).trans found)
      rw [List.filter_append, List.length_append]
      by_cases come : x ≤ limit
      · have last := far l.length x (by simp)
        have most : l.length + 1 ≤ (limit - start) / interval := by
          rw [Nat.le_div_iff_mul_le positive]
          omega
        have fewer := List.length_filter_le (· ≤ limit) l
        simp only [List.filter_cons, come, decide_true, if_true, List.filter_nil,
          List.length_singleton]
        omega
      · simpa [come] using ih earlier

theorem intervals_between {count limit : Nat} (reached : start + count * interval ≤ limit)
    (ahead : limit < start + (count + 1) * interval) : (limit - start) / interval = count :=
  Nat.div_eq_of_lt_le (by omega) (by omega)

end

/-! ## Serialized polling -/

/-- Where a poll timer that waits for its fetches is after some ticks and ends of fetches. -/
def Phase.Fits (start interval : Nat) (ticks : List (Nat × Nat)) (ends : List Nat) (now : Nat) :
    Phase → Prop
  | .beginning => ticks = [] ∧ ends = [] ∧ now = start
  | .ahead due =>
    ends.length = ticks.length ∧ due = dueAfter start interval ticks ∧
      ends.getLast?.getD start ≤ now
  | .ready due =>
    ends.length = ticks.length ∧ due = dueAfter start interval ticks ∧
      ends.getLast?.getD start ≤ now ∧ now ≤ max due (ends.getLast?.getD start)
  | .fetching next => ends.length + 1 = ticks.length ∧ next = dueAfter start interval ticks

/-- What a poll timer has done so far, and where it is. -/
structure Accounted (start interval : Nat) (ticks : List (Nat × Nat)) (ends polls : List Nat)
    (now : Nat) (phase : Phase) : Prop where
  schedule : Serialized start interval ticks ends
  fits : phase.Fits start interval ticks ends now
  begun : start ≤ now
  past : ∀ t ∈ ticks, t.2 ≤ now
  polls : polls = ticks.map (·.2)

section

variable {s s' : Station} {m : Move} {start interval timer : Nat} {log : History}
  {phase phase' : Phase}

/-- The clock stands still in a step, or the timer lets it go on. -/
theorem Step.now_rests (step : Step .any s m s')
    (rests : ∀ moment, m = .wake moment → phase.Rests moment) :
    s'.agenda.now = s.agenda.now ∨ phase.Rests s'.agenda.now := by
  have now := step.now
  cases m with
  | operate | handle | work | outside => exact .inl now
  | wake moment => exact .inr (now ▸ rests moment rfl)

theorem Phase.Fits.later {ticks : List (Nat × Nat)} {ends : List Nat} {now now' : Nat}
    (fits : phase.Fits start interval ticks ends now) (later : now ≤ now')
    (rests : now' = now ∨ phase.Rests now') : phase.Fits start interval ticks ends now' := by
  rcases rests with rfl | rests
  · exact fits
  cases phase with
  | beginning | ready => cases rests
  | fetching next => exact fits
  | ahead due => exact ⟨fits.1, fits.2.1, fits.2.2.trans later⟩

theorem Accounted.step
    (account : Accounted start interval log.ticks (log.fetched timer) log.polls s.agenda.now phase)
    (step : Step .any s m s') (every : s.agenda.interval = interval)
    (policy : s.agenda.overlap = .serialize) (next : Phase.Next timer s.agenda m phase phase') :
    Accounted start interval (History.ticks (log ++ [⟨s, m⟩]))
      (History.fetched timer (log ++ [⟨s, m⟩])) (History.polls (log ++ [⟨s, m⟩]))
      s'.agenda.now phase' := by
  obtain ⟨schedule, fits, begun, past, polls⟩ := account
  have later := step.now_le
  have now := step.now
  have past' : ∀ t ∈ log.ticks, t.2 ≤ s'.agenda.now := fun t member => (past t member).trans later
  rw [History.ticks_append, History.fetched_append, History.polls_append]
  have silent (nothing : Deed.tick? ⟨s, m⟩ = none ∧ Deed.fetched? timer ⟨s, m⟩ = none ∧
        Deed.polls ⟨s, m⟩ = [])
      (fits : phase'.Fits start interval log.ticks (log.fetched timer) s'.agenda.now) :
      Accounted start interval (log.ticks ++ (Deed.tick? ⟨s, m⟩).toList)
        (log.fetched timer ++ (Deed.fetched? timer ⟨s, m⟩).toList)
        (log.polls ++ Deed.polls ⟨s, m⟩) s'.agenda.now phase' := by
    obtain ⟨tick, fetched, issued⟩ := nothing
    rw [tick, fetched, issued, Option.toList_none, Option.toList_none]
    simp only [List.append_nil]
    exact ⟨schedule, fits, begun.trans later, past', polls⟩
  cases next with
  | stays other rests =>
      exact silent (Deed.aside other) (fits.later later (step.now_rests rests))
  | begins =>
      obtain ⟨ticks, ends, same⟩ := fits
      refine silent ⟨rfl, Deed.fetched_poll rfl timer, rfl⟩ ?_
      rw [ticks, ends, same, every]
      exact ⟨rfl, rfl, begun.trans later⟩
  | wakes =>
      obtain ⟨idle, due_eq, finished⟩ := fits
      refine silent ⟨rfl, rfl, rfl⟩ ⟨idle, due_eq, finished.trans later, ?_⟩
      rw [now]
      exact Nat.le_max_left _ _
  | waits early =>
      obtain ⟨idle, due_eq, finished, -⟩ := fits
      exact silent (Deed.tick_early early) ⟨idle, due_eq, finished.trans later⟩
  | overlaps late allow => cases policy.symm.trans allow
  | @fetches due late _ =>
      obtain ⟨idle, due_eq, finished, reached⟩ := fits
      have now_eq : s.agenda.now = max due ((log.fetched timer).getLast?.getD start) :=
        Nat.le_antisymm reached (Nat.max_le.mpr ⟨late, finished⟩)
      rw [Deed.tick_due late, Deed.fetched_poll rfl, Deed.polls_serialize late policy,
        Option.toList_none, Option.toList_some, List.append_nil, every]
      refine ⟨schedule.tick idle due_eq now_eq, ⟨?_, (dueAfter_concat _ _ _ _ _).symm⟩,
        begun.trans later, ?_, ?_⟩
      · rw [idle, List.length_append, List.length_singleton]
      · intro t member
        rcases List.mem_append.mp member with old | new
        · exact past' t old
        · rw [List.mem_singleton.mp new]
          exact later
      · rw [polls, List.map_append]
        rfl
  | ends own finished =>
      obtain ⟨busy, next_eq⟩ := fits
      obtain ⟨tick, fetched, issued⟩ := Deed.fetched_over own finished
      rw [tick, fetched, issued, Option.toList_none, Option.toList_some]
      simp only [List.append_nil]
      refine ⟨schedule.fetched past, ⟨?_, next_eq, ?_, ?_⟩, begun.trans later, past', polls⟩
      · rw [List.length_append, List.length_singleton, busy]
      · rw [List.getLast?_concat]
        exact later
      · rw [List.getLast?_concat, now]
        exact Nat.le_max_right _ _

end

/-! ## Polling with overlaps -/

/-- Where a poll timer that does not wait is after some fetches. -/
def Phase.OnGrid (start interval : Nat) (polls : List Nat) (now : Nat) : Phase → Prop
  | .beginning => polls = [] ∧ now = start
  | .ahead due =>
    ∃ count, polls = pollGrid start interval count ∧ due = start + (count + 1) * interval ∧
      start + count * interval ≤ now
  | .ready due =>
    ∃ count, polls = pollGrid start interval count ∧ due = start + (count + 1) * interval ∧
      now = due
  | .fetching _ => False

section

variable {s s' : Station} {m : Move} {start interval timer : Nat} {log : History}
  {phase phase' : Phase}

theorem Phase.OnGrid.later {polls : List Nat} {now now' : Nat}
    (onGrid : phase.OnGrid start interval polls now) (later : now ≤ now')
    (rests : now' = now ∨ phase.Rests now') : phase.OnGrid start interval polls now' := by
  rcases rests with rfl | rests
  · exact onGrid
  cases phase with
  | beginning | ready => cases rests
  | fetching next => cases onGrid
  | ahead due =>
      obtain ⟨count, polls_eq, due_eq, reached⟩ := onGrid
      exact ⟨count, polls_eq, due_eq, reached.trans later⟩

theorem Phase.OnGrid.step (onGrid : phase.OnGrid start interval log.polls s.agenda.now)
    (step : Step .any s m s') (every : s.agenda.interval = interval)
    (policy : s.agenda.overlap = .allow) (next : Phase.Next timer s.agenda m phase phase') :
    phase'.OnGrid start interval (History.polls (log ++ [⟨s, m⟩])) s'.agenda.now := by
  have now := step.now
  rw [History.polls_append]
  have silent {phase' : Phase} (nothing : Deed.polls ⟨s, m⟩ = [])
      (onGrid : phase'.OnGrid start interval log.polls s'.agenda.now) :
      phase'.OnGrid start interval (log.polls ++ Deed.polls ⟨s, m⟩) s'.agenda.now := by
    rwa [nothing, List.append_nil]
  cases next with
  | stays other rests =>
      exact silent (Deed.aside other).2.2 (onGrid.later step.now_le (step.now_rests rests))
  | begins =>
      obtain ⟨polls, same⟩ := onGrid
      refine silent rfl ⟨0, polls, ?_, ?_⟩
      · rw [same, every, Nat.zero_add, Nat.one_mul]
      · rw [now, same, Nat.zero_mul]
        exact Nat.le_refl _
  | wakes =>
      obtain ⟨count, polls, due_eq, -⟩ := onGrid
      exact silent rfl ⟨count, polls, due_eq, now⟩
  | waits early =>
      obtain ⟨-, -, -, same⟩ := onGrid
      exact absurd same early.ne
  | overlaps late _ =>
      obtain ⟨count, polls, due_eq, same⟩ := onGrid
      rw [Deed.polls_allow late policy, same, Nat.sub_self, Nat.zero_div]
      refine ⟨count + 1, ?_, ?_, ?_⟩
      · rw [polls, due_eq, pollGrid_succ]
        rfl
      · rw [due_eq, every, Nat.add_assoc, ← Nat.add_mul]
      · rw [now, ← due_eq]
        exact same.ge
  | fetches late serialize => cases policy.symm.trans serialize
  | ends own finished => cases onGrid

end

namespace PollingPeriod

variable {options : Options} {begun s : Station} {log : History}

theorem accounted (period : PollingPeriod options begun log s)
    (serialize : options.overlap = .serialize) (ticking : options.interval ≠ 0) :
    ∃ phase, s.agenda.At begun.agenda.started phase ∧
      Accounted begun.agenda.now options.interval log.ticks (log.fetched begun.agenda.started)
        log.polls s.agenda.now phase :=
  period.phases ticking
    (motive := fun log now phase =>
      Accounted begun.agenda.now options.interval log.ticks (log.fetched begun.agenda.started)
        log.polls now phase)
    ⟨.empty _ _, ⟨rfl, rfl, rfl⟩, Nat.le_refl _, nofun, rfl⟩
    fun every policy step next account => account.step step every (policy.trans serialize) next

theorem onGrid (period : PollingPeriod options begun log s) (allow : options.overlap = .allow)
    (ticking : options.interval ≠ 0) :
    ∃ phase, s.agenda.At begun.agenda.started phase ∧
      phase.OnGrid begun.agenda.now options.interval log.polls s.agenda.now :=
  period.phases ticking
    (motive := fun log now phase =>
      phase.OnGrid begun.agenda.now options.interval log.polls now)
    ⟨rfl, rfl⟩ fun every policy step next onGrid => onGrid.step step every (policy.trans allow) next

/-- A timer that does not wait polls at each point of the grid that the clock has come to, unless it
is yet to run the tick that is ready. -/
theorem polls_calm (period : PollingPeriod options begun log s)
    (allow : options.overlap = .allow) (ticking : options.interval ≠ 0)
    (calm : ∀ job ∈ s.agenda.ready, job.isTick = false) :
    log.polls = pollGrid begun.agenda.now options.interval
      ((s.agenda.now - begun.agenda.now) / options.interval) := by
  obtain ⟨phase, inPhase, onGrid⟩ := period.onGrid allow ticking
  cases phase with
  | beginning =>
      obtain ⟨polls, same⟩ := onGrid
      rw [polls, same, Nat.sub_self, Nat.zero_div]
      rfl
  | ahead due =>
      obtain ⟨count, polls, due_eq, reached⟩ := onGrid
      have ahead := inPhase.lt_due period.ahead
      rw [intervals_between reached (due_eq ▸ ahead)]
      exact polls
  | ready due =>
      have polls : s.agenda.ready.filter Job.isPoll = [.pollTick begun.agenda.started due] :=
        inPhase.ready
      have ticks : .pollTick begun.agenda.started due ∈ s.agenda.ready :=
        List.mem_of_mem_filter (polls ▸ List.mem_cons_self)
      cases calm _ ticks
  | fetching next => cases onGrid

theorem polls_allow (period : PollingPeriod options begun log s)
    (allow : options.overlap = .allow) (ticking : options.interval ≠ 0)
    (settled : s.agenda.ready = []) :
    log.polls = pollGrid begun.agenda.now options.interval
      ((s.agenda.now - begun.agenda.now) / options.interval) := by
  apply period.polls_calm allow ticking
  simp [settled]

/-- A timer that does not wait never polls but at points of the grid, one after the other. -/
theorem polls_prefix (period : PollingPeriod options begun log s)
    (allow : options.overlap = .allow) (ticking : options.interval ≠ 0) :
    log.polls <+: pollGrid begun.agenda.now options.interval
      ((s.agenda.now - begun.agenda.now) / options.interval) := by
  have within {count : Nat} (polls : log.polls = pollGrid begun.agenda.now options.interval count)
      (reached : begun.agenda.now + count * options.interval ≤ s.agenda.now) :
      log.polls <+: pollGrid begun.agenda.now options.interval
        ((s.agenda.now - begun.agenda.now) / options.interval) := by
    rw [polls]
    apply pollGrid_prefix
    rw [Nat.le_div_iff_mul_le (Nat.pos_of_ne_zero ticking)]
    omega
  obtain ⟨phase, -, onGrid⟩ := period.onGrid allow ticking
  cases phase with
  | beginning => simp [onGrid.1]
  | ahead due =>
      obtain ⟨count, polls, -, reached⟩ := onGrid
      exact within polls reached
  | ready due =>
      obtain ⟨count, polls, due_eq, now⟩ := onGrid
      apply within polls
      rw [now, due_eq, Nat.add_mul]
      omega
  | fetching next => cases onGrid

/-- Of the fetches of a timer that waits, all are over but the one that it waits for. -/
theorem awaited_serialize (period : PollingPeriod options begun log s)
    (serialize : options.overlap = .serialize) (ticking : options.interval ≠ 0) :
    s.agenda.awaited begun.agenda.started + (log.fetched begun.agenda.started).length =
        log.ticks.length ∧
      s.agenda.awaited begun.agenda.started ≤ 1 := by
  obtain ⟨phase, inPhase, account⟩ := period.accounted serialize ticking
  have fits := account.fits
  cases phase with
  | beginning =>
      obtain ⟨ticks, ends, -⟩ := fits
      rw [inPhase.awaited, ticks, ends]
      exact ⟨rfl, Nat.zero_le _⟩
  | ahead | ready =>
      rw [inPhase.awaited, Nat.zero_add]
      exact ⟨fits.1, Nat.zero_le _⟩
  | fetching next =>
      rw [inPhase.awaited, Nat.add_comm]
      exact ⟨fits.1, Nat.le_refl _⟩

/-- Where no work is ready, the next tick is ahead, or the timer waits for a fetch. -/
theorem settled_serialize (period : PollingPeriod options begun log s)
    (serialize : options.overlap = .serialize) (ticking : options.interval ≠ 0)
    (settled : s.agenda.ready = []) :
    s.agenda.now < dueAfter begun.agenda.now options.interval log.ticks ∨
      (log.fetched begun.agenda.started).length + 1 = log.ticks.length := by
  obtain ⟨phase, inPhase, account⟩ := period.accounted serialize ticking
  have fits := account.fits
  obtain ⟨due, rfl, ahead⟩ | ⟨next, rfl⟩ := inPhase.settled period.ahead settled
  · exact .inl (fits.2.1 ▸ ahead)
  · exact .inr fits.1

/-- A timer that waits for fetches which are in time polls at each point of the grid that the clock
has come to. -/
theorem polls_prompt (period : PollingPeriod options begun log s)
    (serialize : options.overlap = .serialize) (ticking : options.interval ≠ 0)
    (prompt : Prompt options.interval s.agenda.now log.ticks (log.fetched begun.agenda.started))
    (settled : s.agenda.ready = []) :
    log.polls = pollGrid begun.agenda.now options.interval
      ((s.agenda.now - begun.agenda.now) / options.interval) := by
  obtain ⟨phase, -, account⟩ := period.accounted serialize ticking
  have schedule := account.schedule
  have reached := schedule.reached_of_prompt account.begun account.past prompt
  have ahead : s.agenda.now < dueAfter begun.agenda.now options.interval log.ticks :=
    (period.settled_serialize serialize ticking settled).elim id prompt.ahead
  rw [schedule.dueAfter_of_prompt account.past prompt] at ahead
  rw [account.polls, intervals_between reached ahead]
  exact schedule.polls_of_prompt account.past prompt

end PollingPeriod

/-- A poll timer that waits for its fetches issues the first one interval after it was started, and
each further one as soon as its tick is due and the fetch before it is over, so that no two of them
overlap. Ticks are points of the grid of the interval; the tick after a fetch is the first point
after it, however many have passed, and at no moment have more fetches been issued than intervals
are over. Fetches that are in time are issued when a timer that does not wait issues them. -/
theorem serialized_polling_keeps_to_grid {options : Options} {begun s : Station} {log : History}
    (period : PollingPeriod options begun log s) (serialize : options.overlap = .serialize)
    (tolerant : Agenda.slack < options.interval) :
    let start := begun.agenda.now
    let interval := options.interval
    let timer := begun.agenda.started
    let ends := log.fetched timer
    log.polls = log.ticks.map (·.2) ∧
    (s.agenda.awaited timer + ends.length = log.ticks.length ∧ s.agenda.awaited timer ≤ 1) ∧
    (∀ due now : Nat, log.ticks[0]? = some (due, now) → due = start + interval ∧ now = due) ∧
    (∀ i due now due' now' : Nat,
      log.ticks[i]? = some (due, now) → log.ticks[i + 1]? = some (due', now') →
      due < due' ∧ now < due' ∧ due' ≤ now + interval ∧
        ∃ finished, ends[i]? = some finished ∧ now ≤ finished ∧ now' = max due' finished) ∧
    (∀ t ∈ log.ticks, ∃ k, t.1 = start + (k + 1) * interval) ∧
    (s.agenda.ready = [] → s.agenda.awaited timer = 0 →
      s.agenda.now < dueAfter start interval log.ticks) ∧
    (∀ limit, (log.polls.filter (· ≤ limit)).length ≤ (limit - start) / interval) ∧
    (Prompt interval s.agenda.now log.ticks ends → s.agenda.ready = [] →
      log.polls = pollGrid start interval ((s.agenda.now - start) / interval) ∧
      ∀ options' begun' log' s', PollingPeriod options' begun' log' s' →
        options'.overlap = .allow → options'.interval = interval → begun'.agenda.now = start →
        s'.agenda.now = s.agenda.now → s'.agenda.ready = [] → log'.polls = log.polls) := by
  have ticking : options.interval ≠ 0 := Nat.ne_zero_of_lt tolerant
  intro start interval timer ends
  obtain ⟨phase, -, account⟩ := period.accounted serialize ticking
  have schedule := account.schedule
  have awaited := period.awaited_serialize serialize ticking
  refine ⟨account.polls, awaited, schedule.first, ?_, ?_, ?_, ?_, ?_⟩
  · exact fun i due now due' now' found found' => schedule.follows tolerant found found'
  · intro t member
    obtain ⟨i, found⟩ := List.mem_iff_getElem?.mp member
    have found : log.ticks[i]? = some (t.1, t.2) := found
    obtain ⟨k, -, same⟩ := schedule.grid found
    exact ⟨k, same⟩
  · intro settled idle
    refine (period.settled_serialize serialize ticking settled).resolve_right fun busy => ?_
    have all : s.agenda.awaited timer + ends.length = log.ticks.length := awaited.1
    have busy : ends.length + 1 = log.ticks.length := busy
    omega
  · intro limit
    refine count_le_intervals (Nat.pos_of_ne_zero ticking) (fun i x found => ?_) limit
    rw [account.polls, List.getElem?_map] at found
    obtain ⟨⟨due, now⟩, tick, rfl⟩ := Option.map_eq_some_iff.mp found
    exact schedule.far tick
  · intro prompt settled
    have polls := period.polls_prompt serialize ticking prompt settled
    refine ⟨polls, fun options' begun' log' s' period' allow every same now settled' => ?_⟩
    have polls' := period'.polls_allow allow (every ▸ ticking) settled'
    rw [polls', polls, every, same, now]

/-- The ticks that a fetch of almost four intervals covers become one. -/
theorem slow_fetch_is_caught_up_once :
    let options : Options := { interval := 10, overlap := .serialize }
    let begun : Station := .opened .empty options { config := .empty } 37 "12:00:00"
    ∃ log s, PollingPeriod options begun log s ∧ log.ticks = [(10, 10), (20, 47)] ∧
      log.polls = [10, 47] ∧ (log.fetched 0)[0]? = some 47 ∧ s.agenda.awaited 0 ≤ 1 := by
  intro options begun
  obtain ⟨log, s, period, ticks⟩ : ∃ log s, PollingPeriod options begun log s ∧
      log.ticks = [(10, 10), (20, 47)] := by
    have opened : Run .any begun [] begun := .begin
    have started : PollingPeriod options begun [] _ := .begin opened (o := .startPolling) rfl
    have begins := started.step (@Step.work _ _ [] [] (.pollBegin 0) rfl) trivial rfl
    have due := begins.step (@Step.wake _ _ 10 (Nat.zero_le _)) ⟨rfl, by decide⟩ rfl
    have fetches := due.step (@Step.work _ _ [] [] (.pollTick 0 10) rfl) trivial rfl
    have asked := fetches.step (@Step.work _ _ [] [] (.begin .fetchStats (some 0)) rfl) trivial rfl
    have woken := asked.step (@Step.wake _ _ 47 (by decide)) ⟨rfl, by decide⟩ rfl
    have served := woken.step (@Step.work _ _ [] [] (.serve .fetchStats (some 0)) rfl) trivial rfl
    have period := served.step (@Step.work _ _ [] [] (.pollTick 0 20) rfl) trivial rfl
    exact ⟨_, _, period, rfl⟩
  obtain ⟨polls, awaited, -, next, -⟩ := serialized_polling_keeps_to_grid period rfl (by decide)
  rw [ticks] at polls next
  obtain ⟨-, -, -, finished, ended, -, same⟩ := next 0 10 10 20 47 rfl rfl
  obtain rfl : finished = 47 := by omega
  exact ⟨log, s, period, ticks, polls, ended, awaited.2⟩

end EngineConsole
