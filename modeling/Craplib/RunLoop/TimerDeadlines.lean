import Craplib.RunLoop.TimerSteps

/-!
# The timers of a run loop refine a map of deadlines

`Sorted` is what every step keeps of the deque: no timer is in it twice, the fire times do
not decrease, and the timers in it have not been destroyed, so that no later `Timer` at the
same address changes a fire time in place.  Under it every step is, seen through
`deadlines`, the move of the map of deadlines that its label says (`Sorted.moves`), and
`timers_refine_deadlines` carries this to whole runs.
-/

namespace Craplib

namespace Timers

open LowerBound Machine

universe u

variable {T : Type u} [LinearOrder T]

namespace State

/-- **What every step keeps of the deque.** -/
structure Sorted (s : State T) : Prop where
  nodup : s.timers.Nodup
  sorted : s.timers.Pairwise fun a b => s.fire a ≤ s.fire b
  alive : ∀ timer ∈ s.timers, timer ∈ s.alive

variable {s t : State T}

omit [LinearOrder T] in
theorem mem_dequeued {timer other : TimerPtr} :
    other ∈ s.timers.filter (· ≠ timer) ↔ other ∈ s.timers ∧ other ≠ timer := by
  rw [List.mem_filter, decide_eq_true_iff]

/-- `Timer::set` changes the fire time of a timer that is not in the deque, so what is left
there is still sorted. -/
theorem sorted_dequeued (hs : s.Sorted) {timer : TimerPtr} {due : T}
    (fire : t.fire = Function.update s.fire timer due) :
    (s.timers.filter (· ≠ timer)).Pairwise fun a b => t.fire a ≤ t.fire b := by
  refine (hs.sorted.filter _).imp_of_mem fun ha hb hle => ?_
  rw [fire, Function.update_of_ne (mem_dequeued.mp ha).2,
    Function.update_of_ne (mem_dequeued.mp hb).2]
  exact hle

/-- The deque after `Timer::set` is an ordered insertion. -/
theorem timers_of_set (hs : s.Sorted) {timer : TimerPtr} {due : T}
    (fire : t.fire = Function.update s.fire timer due)
    (timers : t.timers = insertAt (s.timers.filter (· ≠ timer))
      (lowerBound (fun a => t.fire a < t.fire timer) (s.timers.filter (· ≠ timer))) timer) :
    t.timers = (s.timers.filter (· ≠ timer)).orderedInsert
      (fun a b => t.fire a ≤ t.fire b) timer := by
  rw [timers]
  exact insertAt_lowerBound t.fire timer (sorted_dequeued hs fire)

theorem Sorted.effect {b : Option (Deadlines.Action TimerPtr T)} (hs : s.Sorted)
    (h : s.Effect t b) : t.Sorted := by
  cases h with
  | tick _ _ _ timers fire _ alive =>
      exact ⟨timers ▸ hs.nodup, timers ▸ fire ▸ hs.sorted, timers ▸ alive ▸ hs.alive⟩
  | set timer due fire timers mem_alive _ alive _ =>
      have hinsert := timers_of_set hs fire timers
      have hperm := List.perm_orderedInsert (fun a b => t.fire a ≤ t.fire b) timer
        (s.timers.filter (· ≠ timer))
      rw [← hinsert] at hperm
      refine ⟨?_, ?_, ?_⟩
      · rw [hperm.nodup_iff, List.nodup_cons]
        exact ⟨fun hmem => (mem_dequeued.mp hmem).2 rfl, hs.nodup.filter _⟩
      · rw [hinsert]
        exact List.Pairwise.orderedInsert timer _ (sorted_dequeued hs fire)
      · intro other hother
        rw [alive]
        rcases List.mem_cons.mp (hperm.mem_iff.mp hother) with rfl | hmem
        · exact mem_alive
        · exact hs.alive _ (mem_dequeued.mp hmem).1
  | disarm timer timers fire _ alive _ =>
      refine ⟨timers ▸ hs.nodup.filter _, timers ▸ fire ▸ hs.sorted.filter _, ?_⟩
      intro other hother
      obtain ⟨hmem, hne⟩ := mem_dequeued.mp (timers ▸ hother)
      exact alive other (hs.alive _ hmem) hne
  | fire timer timers _ _ fire alive _ =>
      obtain ⟨hnodup, hsorted, halive⟩ := hs
      rw [timers] at hnodup hsorted halive
      refine ⟨hnodup.tail, fire ▸ hsorted.tail, ?_⟩
      rw [alive]
      exact fun other hother => halive other (List.mem_cons_of_mem _ hother)
  | none timers fire _ alive _ =>
      refine ⟨timers ▸ hs.nodup, ?_, fun other hother => alive (hs.alive _ (timers ▸ hother))⟩
      rw [timers]
      refine hs.sorted.imp_of_mem fun ha hb hle => ?_
      rw [fire _ (hs.alive _ ha), fire _ (hs.alive _ hb)]
      exact hle

/-! ## The deadlines of a sorted deque -/

omit [LinearOrder T] in
theorem deadline_eq_some {timer : TimerPtr} {due : T} :
    s.deadlines.deadline timer = some due ↔ timer ∈ s.timers ∧ s.fire timer = due := by
  unfold deadlines
  dsimp only
  split_ifs with hmem
  · simp [hmem]
  · simp [hmem]

theorem deadlines_of_set {timer : TimerPtr} {due : T} (hs : s.Sorted)
    (fire : t.fire = Function.update s.fire timer due)
    (timers : t.timers = insertAt (s.timers.filter (· ≠ timer))
      (lowerBound (fun a => t.fire a < t.fire timer) (s.timers.filter (· ≠ timer))) timer)
    (clock : t.clock = s.clock) :
    t.deadlines = { s.deadlines with
      deadline := Function.update s.deadlines.deadline timer (some due) } := by
  have hmem : ∀ other, other ∈ t.timers ↔ other = timer ∨ other ∈ s.timers := by
    intro other
    rw [timers_of_set hs fire timers, List.mem_orderedInsert, mem_dequeued]
    tauto
  refine Deadlines.ext clock (funext fun other => ?_)
  by_cases hother : other = timer
  · simp [hother, deadlines, hmem, fire]
  · simp [hother, deadlines, hmem, fire]

omit [LinearOrder T] in
/-- Taking a timer out of the deque takes its deadline away. -/
theorem deadlines_of_removed {timer : TimerPtr}
    (hmem : ∀ other, other ∈ t.timers ↔ other ∈ s.timers ∧ other ≠ timer)
    (fire : t.fire = s.fire) (clock : t.clock = s.clock) :
    t.deadlines = { s.deadlines with
      deadline := Function.update s.deadlines.deadline timer none } := by
  refine Deadlines.ext clock (funext fun other => ?_)
  by_cases hother : other = timer
  · simp [hother, deadlines, hmem]
  · simp [hother, deadlines, hmem, fire]

/-- The first timer of a sorted deque has the earliest deadline. -/
theorem Sorted.first_le (hs : s.Sorted) {timer : TimerPtr} {rest : List TimerPtr}
    (htimers : s.timers = timer :: rest) : ∀ other ∈ s.timers, s.fire timer ≤ s.fire other := by
  intro other hother
  have hsorted := hs.sorted
  rw [htimers] at hother hsorted
  rcases List.mem_cons.mp hother with rfl | hrest
  · exact le_refl _
  · exact (List.pairwise_cons.mp hsorted).1 other hrest

/-- **A step is the move of the map of deadlines that its label says.** -/
theorem Sorted.moves {b : Option (Deadlines.Action TimerPtr T)} (hs : s.Sorted)
    (h : s.Effect t b) : Moves Deadlines.Step s.deadlines b t.deadlines := by
  cases h with
  | tick now clock forward timers fire _ _ =>
      have hnext : t.deadlines = { s.deadlines with clock := now } := by
        unfold deadlines
        rw [clock, timers, fire]
      rw [hnext]
      exact .tick forward
  | set timer due fire timers _ _ _ clock =>
      rw [deadlines_of_set hs fire timers clock]
      exact .set timer due
  | disarm timer timers fire _ _ clock =>
      have hmem : ∀ other, other ∈ t.timers ↔ other ∈ s.timers ∧ other ≠ timer := by
        intro other
        rw [timers, mem_dequeued]
      rw [deadlines_of_removed hmem fire clock]
      exact .disarm timer
  | fire timer timers reached _ fire _ clock =>
      have hmem : ∀ other, other ∈ t.timers ↔ other ∈ s.timers ∧ other ≠ timer := by
        have hnodup := hs.nodup
        rw [timers, List.nodup_cons] at hnodup
        intro other
        rw [timers, List.mem_cons]
        constructor
        · intro hother
          exact ⟨.inr hother, fun heq => hnodup.1 (heq ▸ hother)⟩
        · rintro ⟨heq | hother, hne⟩
          · exact absurd heq hne
          · exact hother
      rw [deadlines_of_removed hmem fire clock]
      have harmed : s.deadlines.deadline timer = some (s.fire timer) :=
        deadline_eq_some.mpr ⟨by rw [timers]; exact List.mem_cons_self, rfl⟩
      refine .fire harmed reached fun other due hother => ?_
      obtain ⟨hin, hdue⟩ := deadline_eq_some.mp hother
      rw [← hdue]
      exact hs.first_le timers other hin
  | none timers fire _ _ clock =>
      refine Deadlines.ext clock (funext fun timer => ?_)
      unfold deadlines
      dsimp only
      rw [timers]
      split_ifs with hmem
      · rw [fire timer (hs.alive timer hmem)]
      · rfl

/-! ## Runs -/

/-- What a step does to one of the timers. -/
def event [Add T] (s : State T) (act : Action T) : Option (TimerPtr × Deadlines.Event T) :=
  (s.label act).bind (Deadlines.event s.deadlines)

/-- What has happened to a timer in a run: `set` with the time at which it is due, `cancel`
or the destructor, and the calls of `onTimer`. -/
abbrev timerHistory [Add T] (timer : TimerPtr) (tr : List (State T × Action T)) :
    List (Deadlines.Event T) :=
  history event timer tr

theorem sorted_init [Zero T] (now : T) : (init now).Sorted :=
  ⟨List.nodup_nil, .nil, fun _ h => absurd h List.not_mem_nil⟩

variable [Add T]

theorem keyHistory_project (timer : TimerPtr) (tr : List (State T × Action T)) :
    Deadlines.keyHistory timer (project deadlines label tr) = timerHistory timer tr :=
  history_project deadlines label Deadlines.event timer tr

theorem event_eq_fired {act : Action T} {timer : TimerPtr} :
    s.event act = some (timer, .fired) ↔ s.label act = some (.fire timer) := by
  unfold event
  cases s.label act with
  | none => simp
  | some b => cases b <;> simp [Deadlines.event]

variable [Zero T] {now : T} {tr : List (State T × Action T)}

theorem Sorted.step {act : Action T} (hs : s.Sorted) (h : s.step act = some t) : t.Sorted :=
  hs.effect (step_effect h)

theorem sorted_of_run (hrun : Runs (init now) tr s) : s.Sorted :=
  hrun.invariant (fun _ _ _ hs h => hs.step h) (sorted_init now)

/-- A run of the loop is a run of the map of deadlines. -/
theorem run_deadlines (hrun : Runs (init now) tr s) :
    Run Deadlines.Step (.init now) (project deadlines label tr) s.deadlines := by
  have hinit : (init now : State T).deadlines = .init now := rfl
  rw [← hinit]
  exact hrun.refine (fun _ _ _ hs h => hs.step h) (fun _ _ _ hs h => hs.moves (step_effect h))
    (sorted_init now)

/-- A call of `onTimer`, from a sorted deque. -/
theorem Sorted.callsTimer {act : Action T} {timer : TimerPtr} (hs : s.Sorted)
    (h : s.step act = some t) (hcalls : s.CallsTimer t timer) :
    timer ∈ s.timers ∧ s.fire timer ≤ s.clock ∧
      (∀ other ∈ s.timers, s.fire timer ≤ s.fire other) ∧ timer ∉ t.timers := by
  have heffect := step_effect h
  rw [(callsTimer_iff h timer).mp hcalls] at heffect
  cases heffect with
  | fire _ timers reached _ _ _ _ =>
      refine ⟨by rw [timers]; exact List.mem_cons_self, reached, hs.first_le timers, ?_⟩
      have hnodup := hs.nodup
      rw [timers, List.nodup_cons] at hnodup
      exact hnodup.1

/-- **The timers of a run loop refine a map from timer to deadline.**  After any run, in
whatever order the program sets, cancels and destroys timers, in callbacks too:

* the run is, step by step, a run of the map of deadlines;
* the deque holds each timer once, in the order of the fire times, and it holds exactly
  the timers whose last event is that they were set, with the fire time of that event;
* the next step, if it calls `onTimer`, calls it on a timer in the deque that is due and
  that no other is due before, and this is what its history records; the timer is out of
  the deque then;
* the event before every call of `onTimer` on a timer is that it was set. -/
theorem timers_refine_deadlines (hrun : Runs (init now) tr s) :
    Run Deadlines.Step (.init now) (project deadlines label tr) s.deadlines ∧
    s.timers.Nodup ∧ (s.timers.Pairwise fun a b => s.fire a ≤ s.fire b) ∧
    (∀ timer due, timer ∈ s.timers ∧ s.fire timer = due ↔
      (timerHistory timer tr).getLast? = some (.set due)) ∧
    (∀ act t timer, s.step act = some t →
      (s.event act = some (timer, .fired) ↔ s.CallsTimer t timer) ∧
      (s.CallsTimer t timer → timer ∈ s.timers ∧ s.fire timer ≤ s.clock ∧
        (∀ other ∈ s.timers, s.fire timer ≤ s.fire other) ∧ timer ∉ t.timers)) ∧
    ∀ timer before after, timerHistory timer tr = before ++ .fired :: after →
      ∃ due, before.getLast? = some (.set due) := by
  have hs := sorted_of_run hrun
  have habs := run_deadlines hrun
  refine ⟨habs, hs.nodup, hs.sorted, ?_, ?_, ?_⟩
  · intro timer due
    rw [← deadline_eq_some, Deadlines.deadline_eq_some_iff habs, keyHistory_project]
  · intro act t timer h
    exact ⟨event_eq_fired.trans (callsTimer_iff h timer).symm, hs.callsTimer h⟩
  · intro timer before after hsplit
    rw [← keyHistory_project] at hsplit
    exact Deadlines.set_before_fired habs timer hsplit

/-- Two timers that are due at once: the second one set is called first, and cancels the
other in its `onTimer`. -/
def tiedActions : List (Action ℕ) :=
  [.construct 1, .construct 2, .set 1 5, .set 2 5, .run, .tick 6, .wake false, .checkTimers,
    .cancel 1, .ret, .checkTimers]

theorem timers_refine_deadlines_example :
    ∃ s : State ℕ, exec step (init 0) tiedActions = some s ∧ s.timers = [] ∧
      timerHistory 1 (trace step (init 0) tiedActions) = [.set 5, .disarmed] ∧
      timerHistory 2 (trace step (init 0) tiedActions) = [.set 5, .fired] ∧
      s.timers.Nodup ∧
      ∀ timer before after,
        timerHistory timer (trace step (init 0) tiedActions) = before ++ .fired :: after →
          ∃ due, before.getLast? = some (.set due) := by
  have hexec : (exec step (init 0) tiedActions).map State.timers = some [] := by decide
  obtain ⟨s, hs, htimers⟩ := Option.map_eq_some_iff.mp hexec
  have hrun := (exec_trace step (init 0) tiedActions s hs).1
  obtain ⟨-, hnodup, -, -, -, hfired⟩ := timers_refine_deadlines hrun
  exact ⟨s, hs, htimers, by decide, by decide, hnodup, hfired⟩

end State

end Timers

end Craplib
