import EngineConsole.Chart.Window
import Mathlib.Data.List.DropRight
import Mathlib.Data.List.Induction

/-!
# The window over any history

A chart is given samples and styles in any order. It holds the last samples that fit, and what it
asks for is told by the history alone: nothing before the first sample, one creation with the style
in force at that moment, and one redraw for each sample, with the window as it then is.
-/

set_option autoImplicit false

namespace EngineConsole

section

variable {α β : Type}

theorem rtake_rtake_concat (l : List α) (x : α) (n : Nat) :
    (l.rtake n ++ [x]).rtake n = (l ++ [x]).rtake n := by
  simp only [List.rtake_eq_reverse_take_reverse, List.reverse_append, List.reverse_reverse,
    List.reverse_singleton, List.singleton_append]
  cases n with
  | zero => simp
  | succ n => simp [List.take_take]

/-- What is made of each beginning of a list is not changed by what comes later. -/
theorem map_take_concat (f : List α → β) (l : List α) (x : α) :
    (List.range (l ++ [x]).length).map (fun i => f ((l ++ [x]).take (i + 1))) =
      (List.range l.length).map (fun i => f (l.take (i + 1))) ++ [f (l ++ [x])] := by
  have earlier : (List.range l.length).map (fun i => f ((l ++ [x]).take (i + 1))) =
      (List.range l.length).map fun i => f (l.take (i + 1)) := by
    refine List.map_congr_left fun i within => ?_
    rw [List.take_append_of_le_length (List.mem_range.mp within)]
  have last : (l ++ [x]).take (l.length + 1) = l ++ [x] := List.take_of_length_le (by simp)
  rw [List.length_append, List.length_singleton, List.range_succ, List.map_append, earlier,
    List.map_singleton, last]

end

namespace Chart

/-! ## Histories -/

inductive Act where
  | push (sample : Sample)
  | restyle (style : Style)

def Act.sample? : Act → Option Sample
  | .push sample => some sample
  | .restyle _ => none

def Act.style? : Act → Option Style
  | .push _ => none
  | .restyle style => some style

def perform (chart : Chart) : Act → Chart × List Call
  | .push sample => chart.push sample
  | .restyle style => (chart.setStyle style, [])

/-- The chart after a history, and all that it asked for. -/
def after (capacity : Nat) (acts : List Act) : Chart × List Call :=
  acts.foldl (fun s act => ((s.1.perform act).1, s.2 ++ (s.1.perform act).2))
    (ofCapacity capacity, [])

theorem after_concat (capacity : Nat) (acts : List Act) (act : Act) :
    after capacity (acts ++ [act]) =
      (((after capacity acts).1.perform act).1,
        (after capacity acts).2 ++ ((after capacity acts).1.perform act).2) :=
  List.foldl_concat _ _ _ _

def pushed (acts : List Act) : List Sample :=
  acts.filterMap Act.sample?

/-- The style that was set last. -/
def styleAfter (acts : List Act) : Style :=
  (acts.filterMap Act.style?).getLast?.getD .standard

/-- The last samples that there is room for. -/
def window (capacity : Nat) (samples : List Sample) : List Sample :=
  samples.rtake (max capacity 1)

section

variable {capacity : Nat} {acts : List Act}

theorem pushed_concat_push (acts : List Act) (sample : Sample) :
    pushed (acts ++ [.push sample]) = pushed acts ++ [sample] := by
  simp [pushed, Act.sample?]

theorem pushed_concat_restyle (acts : List Act) (style : Style) :
    pushed (acts ++ [.restyle style]) = pushed acts := by
  simp [pushed, Act.sample?]

theorem styleAfter_concat_push (acts : List Act) (sample : Sample) :
    styleAfter (acts ++ [.push sample]) = styleAfter acts := by
  simp [styleAfter, Act.style?]

theorem styleAfter_concat_restyle (acts : List Act) (style : Style) :
    styleAfter (acts ++ [.restyle style]) = style := by
  simp [styleAfter, Act.style?]

/-! ## What an act comes to -/

/-- A chart is what its history says. -/
structure Shows (chart : Chart) (capacity : Nat) (acts : List Act) : Prop where
  room : chart.capacity = max capacity 1
  samples : chart.samples = window capacity (pushed acts)
  style : chart.style = styleAfter acts
  drawn : chart.drawn = !(pushed acts).isEmpty

theorem Shows.perform {chart : Chart} (shows : chart.Shows capacity acts) (act : Act) :
    (chart.perform act).1.Shows capacity (acts ++ [act]) := by
  obtain ⟨room, samples, style, drawn⟩ := shows
  cases act with
  | push sample =>
      refine ⟨room, ?_, ?_, ?_⟩
      · have kept : (chart.perform (.push sample)).1.samples =
            (chart.samples ++ [sample]).rtake chart.capacity := rfl
        rw [kept, samples, room, window, rtake_rtake_concat, pushed_concat_push, window]
      · rw [styleAfter_concat_push]
        exact style
      · rw [pushed_concat_push]
        cases pushed acts <;> rfl
  | restyle new =>
      refine ⟨room, ?_, ?_, ?_⟩
      · rw [pushed_concat_restyle]
        exact samples
      · rw [styleAfter_concat_restyle]
        rfl
      · rw [pushed_concat_restyle]
        exact drawn

theorem shows_after (capacity : Nat) (acts : List Act) :
    (after capacity acts).1.Shows capacity acts := by
  induction acts using List.reverseRecOn with
  | nil => exact ⟨rfl, by simp [window, pushed, after, ofCapacity], rfl, rfl⟩
  | append_singleton acts act ih =>
      rw [after_concat]
      exact ih.perform act

/-- A sample is drawn at once, with all that the chart holds from then on; the first one has the
chart created. -/
theorem Shows.calls_push {chart : Chart} (shows : chart.Shows capacity acts) (sample : Sample) :
    (chart.perform (.push sample)).2 =
      (if pushed acts = [] then [.create (styleAfter acts)] else []) ++
        [.redraw (window capacity (pushed acts ++ [sample]))] := by
  have held := (shows.perform (.push sample)).samples
  rw [pushed_concat_push] at held
  have calls : (chart.perform (.push sample)).2 =
      (if chart.drawn then [] else [.create chart.style]) ++
        [.redraw (chart.perform (.push sample)).1.samples] := rfl
  rw [calls, held, shows.style, shows.drawn]
  cases pushed acts <;> rfl

/-! ## What a history comes to -/

/-- One redraw for each sample, with the window of the samples up to it. -/
def redraws (capacity : Nat) (samples : List Sample) : List Call :=
  (List.range samples.length).map fun i => .redraw (window capacity (samples.take (i + 1)))

theorem redraws_concat (capacity : Nat) (samples : List Sample) (sample : Sample) :
    redraws capacity (samples ++ [sample]) =
      redraws capacity samples ++ [.redraw (window capacity (samples ++ [sample]))] :=
  map_take_concat (fun samples => Call.redraw (window capacity samples)) samples sample

theorem calls_after_concat (capacity : Nat) (acts : List Act) (sample : Sample) :
    (after capacity (acts ++ [.push sample])).2 = (after capacity acts).2 ++
      ((if pushed acts = [] then [.create (styleAfter acts)] else []) ++
        [.redraw (window capacity (pushed acts ++ [sample]))]) := by
  rw [after_concat, (shows_after capacity acts).calls_push]

theorem calls_after_restyle (capacity : Nat) (acts : List Act) (style : Style) :
    (after capacity (acts ++ [.restyle style])).2 = (after capacity acts).2 := by
  rw [after_concat]
  exact List.append_nil _

theorem calls_after_of_none (none : pushed acts = []) : (after capacity acts).2 = [] := by
  induction acts using List.reverseRecOn with
  | nil => rfl
  | append_singleton acts act ih =>
      cases act with
      | push sample =>
          rw [pushed_concat_push] at none
          exact absurd none (List.append_ne_nil_of_right_ne_nil _ (List.cons_ne_nil _ _))
      | restyle style =>
          rw [pushed_concat_restyle] at none
          rw [calls_after_restyle, ih none]

/-- From the first sample on, the one creation and the redraws are all there is. -/
theorem calls_after_first {before : List Act} (none : pushed before = []) (first : Sample)
    (later : List Act) :
    (after capacity (before ++ [.push first] ++ later)).2 =
      .create (styleAfter before) ::
        redraws capacity (pushed (before ++ [.push first] ++ later)) := by
  induction later using List.reverseRecOn with
  | nil =>
      rw [List.append_nil, calls_after_concat, calls_after_of_none none, pushed_concat_push, none,
        if_pos rfl]
      rfl
  | append_singleton later act ih =>
      rw [← List.append_assoc]
      cases act with
      | push sample =>
          have some : pushed (before ++ [.push first] ++ later) ≠ [] := by
            simp [pushed, Act.sample?]
          rw [calls_after_concat, if_neg some, ih, pushed_concat_push, redraws_concat]
          rfl
      | restyle style => rw [calls_after_restyle, pushed_concat_restyle, ih]

/-- After any history the chart holds the last samples that fit, all of them while they do, and in
the order in which they came. What draws it is there as soon as a sample is. A sample is followed by
one redraw, with what the chart holds then, and a style by nothing. In all there is nothing before
the first sample, and from then on one creation, with the style set last before, and the redraws. -/
theorem holds_last_pushes (capacity : Nat) (acts : List Act) :
    let chart := (after capacity acts).1
    let calls := (after capacity acts).2
    chart.capacity = max capacity 1 ∧
    chart.samples = (pushed acts).rtake (max capacity 1) ∧ chart.samples <:+ pushed acts ∧
    chart.samples.length = min (pushed acts).length chart.capacity ∧
    (chart.drawn = true ↔ pushed acts ≠ []) ∧
    (∀ sample, (after capacity (acts ++ [.push sample])).2 =
      calls ++ ((if pushed acts = [] then [.create (styleAfter acts)] else []) ++
        [.redraw (after capacity (acts ++ [.push sample])).1.samples])) ∧
    (∀ style, (after capacity (acts ++ [.restyle style])).2 = calls) ∧
    (pushed acts = [] → calls = []) ∧
    ∀ before first later, acts = before ++ [.push first] ++ later → pushed before = [] →
      calls = .create (styleAfter before) :: redraws capacity (pushed acts) := by
  intro chart calls
  have shows : chart.Shows capacity acts := shows_after capacity acts
  refine ⟨shows.room, shows.samples, ?_, ?_, ?_, ?_, calls_after_restyle capacity acts,
    calls_after_of_none, ?_⟩
  · rw [shows.samples]
    exact List.drop_suffix _ _
  · rw [shows.samples, shows.room, window, List.rtake, List.length_drop]
    omega
  · rw [shows.drawn]
    simp
  · intro sample
    rw [(shows_after capacity _).samples, pushed_concat_push]
    exact calls_after_concat capacity acts sample
  · rintro before first later rfl none
    exact calls_after_first none first later

/-- A chart without room holds one sample, and keeps to the style that was set before the first. -/
theorem without_room_holds_one :
    let plain : Style := ⟨[⟨"Sent", "#000", "#fff"⟩], .ofNat 0, "#000", "#000", "#000"⟩
    let first : Sample := ⟨"12:00:00", 5, 3⟩
    let second : Sample := ⟨"12:00:05", 9, 7⟩
    let acts : List Act := [.restyle plain, .push first, .restyle .standard, .push second]
    pushed [.restyle plain] = [] ∧ (after 0 acts).1.samples = [second] ∧
      (after 0 acts).2 = [.create plain, .redraw [first], .redraw [second]] := by
  intro plain first second acts
  obtain ⟨-, held, -, -, -, -, -, -, calls⟩ := holds_last_pushes 0 acts
  exact ⟨rfl, held, calls [.restyle plain] first [.restyle .standard, .push second] rfl rfl⟩

end

end Chart

end EngineConsole
