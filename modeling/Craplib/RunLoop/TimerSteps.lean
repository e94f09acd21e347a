import Craplib.Lib.Deadlines
import Craplib.RunLoop.Timers

/-!
# What a step does to the timers

Every step of a run loop does one of five things to its timers (`Effect`): the clock moves
on, a timer is set, a timer is taken out, the first timer is taken out because it is due,
or the deque and the fire times in it stay as they are.  `step_effect` says which, by the
label of the step as an action of a map of deadlines.
-/

namespace Craplib

namespace Timers

open LowerBound Machine

universe u

variable {T : Type u} [LinearOrder T]

namespace State

/-- The timer that the loop over the due timers would call next. -/
def due (s : State T) : Option TimerPtr :=
  s.timers.head?.filter fun timer => s.fire timer ≤ s.clock

/-- The map of deadlines that the deque stands for. -/
def deadlines (s : State T) : Deadlines TimerPtr T where
  clock := s.clock
  deadline timer := if timer ∈ s.timers then some (s.fire timer) else none

/-- What a step means for the deadlines. -/
def label [Add T] (s : State T) : Action T → Option (Deadlines.Action TimerPtr T)
  | .tick now => some (.tick now)
  | .set timer time => some (.set timer (s.clock + time))
  | .cancel timer | .destroy timer => some (.disarm timer)
  | .checkTimers => s.due.map .fire
  | _ => none

/-- The step from `s` to `t` is the call of `onTimer` of this timer. -/
def CallsTimer (s t : State T) (timer : TimerPtr) : Prop :=
  ∃ outer, s.calls = .timerLoop :: outer ∧ t.calls = .inTimer timer :: outer

/-- **What a step can do to the timers**, by its label. -/
inductive Effect (s t : State T) : Option (Deadlines.Action TimerPtr T) → Prop
  | tick (now : T) (clock : t.clock = now) (forward : s.clock ≤ now)
      (timers : t.timers = s.timers) (fire : t.fire = s.fire)
      (calls : ∀ timer, ¬ s.CallsTimer t timer) (alive : t.alive = s.alive) :
      Effect s t (some (.tick now))
  | set (timer : TimerPtr) (due : T) (fire : t.fire = Function.update s.fire timer due)
      (timers : t.timers = insertAt (s.timers.filter (· ≠ timer))
        (lowerBound (fun a => t.fire a < t.fire timer) (s.timers.filter (· ≠ timer))) timer)
      (mem_alive : timer ∈ s.alive) (calls : ∀ timer, ¬ s.CallsTimer t timer)
      (alive : t.alive = s.alive) (clock : t.clock = s.clock) :
      Effect s t (some (.set timer due))
  | disarm (timer : TimerPtr) (timers : t.timers = s.timers.filter (· ≠ timer))
      (fire : t.fire = s.fire) (calls : ∀ timer, ¬ s.CallsTimer t timer)
      (alive : ∀ other ∈ s.alive, other ≠ timer → other ∈ t.alive)
      (clock : t.clock = s.clock) : Effect s t (some (.disarm timer))
  | fire (timer : TimerPtr) (timers : s.timers = timer :: t.timers)
      (reached : s.fire timer ≤ s.clock) (calls : s.CallsTimer t timer) (fire : t.fire = s.fire)
      (alive : t.alive = s.alive) (clock : t.clock = s.clock) : Effect s t (some (.fire timer))
  | none (timers : t.timers = s.timers) (fire : ∀ timer ∈ s.alive, t.fire timer = s.fire timer)
      (calls : ∀ timer, ¬ s.CallsTimer t timer) (alive : s.alive ⊆ t.alive)
      (clock : t.clock = s.clock) : Effect s t none

variable {s t : State T}

/-! ## The parts of a step -/

omit [LinearOrder T] in
theorem not_callsTimer_of_user (h : s.inUserCode = true) (timer : TimerPtr) :
    ¬ s.CallsTimer t timer := by
  rintro ⟨outer, hcalls, -⟩
  rw [inUserCode, hcalls] at h
  cases h

/-- The end of a turn calls no timer, even when it goes back to the `onTimer` that this
call of `run` was made from. -/
theorem leaveTimerLoop_effect {outer : List Frame} (hcalls : s.calls = .timerLoop :: outer) :
    s.Effect (s.leaveTimerLoop outer) none := by
  refine .none rfl (fun _ _ => rfl) ?_ (Finset.Subset.refl _) rfl
  rintro timer ⟨outer', hcalls', hnext⟩
  rw [hcalls, List.cons.injEq] at hcalls'
  rw [← hcalls'.2] at hnext
  have hcases : (s.leaveTimerLoop outer).calls = .waiting :: outer ∨
      (s.leaveTimerLoop outer).calls = outer := by
    unfold leaveTimerLoop
    exact (ite_eq_or_eq _ _ _)
  rcases hcases with hwaiting | houter
  · rw [hwaiting] at hnext
    cases hnext
  · rw [houter] at hnext
    exact List.cons_ne_self _ _ hnext.symm

theorem checkTimers_effect {outer : List Frame} (hcalls : s.calls = .timerLoop :: outer) :
    s.Effect (s.checkTimers outer) (s.due.map .fire) := by
  unfold checkTimers due
  cases htimers : s.timers with
  | nil => exact leaveTimerLoop_effect hcalls
  | cons timer rest =>
      dsimp only [List.head?_cons]
      by_cases hdue : s.fire timer ≤ s.clock
      · rw [if_neg (not_lt.mpr hdue), Option.filter_some, if_pos (by simpa using hdue)]
        exact .fire timer htimers hdue ⟨outer, hcalls, rfl⟩ rfl rfl rfl
      · rw [if_pos (not_le.mp hdue), Option.filter_some, if_neg (by simpa using hdue)]
        exact leaveTimerLoop_effect hcalls

/-- A step of `run` that neither looks at the timers nor calls one. -/
theorem move_effect {frame : Frame} {outer calls : List Frame} (hcalls : s.calls = frame :: outer)
    (hframe : frame ≠ .timerLoop) : s.Effect { s with calls := calls } none := by
  refine .none rfl (fun _ _ => rfl) ?_ (Finset.Subset.refl _) rfl
  rintro timer ⟨outer', hloop, -⟩
  rw [hcalls, List.cons.injEq] at hloop
  exact hframe hloop.1

variable [Add T]

theorem userStep_effect [Zero T] {act : Action T} (huser : s.inUserCode = true)
    (h : s.userStep act = some t) : s.Effect t (s.label act) := by
  have hcalls := fun timer => not_callsTimer_of_user (t := t) huser timer
  cases act with
  | construct timer =>
      simp only [userStep] at h
      split_ifs at h with hfresh
      cases h
      refine .none rfl (fun other hother => ?_) hcalls (Finset.subset_insert _ _) rfl
      have hne : other ≠ timer := by
        rintro rfl
        exact hfresh hother
      exact Function.update_of_ne hne _ _
  | set timer time =>
      simp only [userStep] at h
      split_ifs at h with hmem
      cases h
      exact .set timer _ rfl rfl hmem hcalls rfl rfl
  | cancel timer =>
      simp only [userStep] at h
      split_ifs at h
      cases h
      exact .disarm timer rfl rfl hcalls (fun _ hother _ => hother) rfl
  | destroy timer =>
      simp only [userStep] at h
      split_ifs at h
      cases h
      exact .disarm timer rfl rfl hcalls
        (fun _ hother hne => Finset.mem_erase.mpr ⟨hne, hother⟩) rfl
  | deregisterMsg =>
      simp only [userStep] at h
      split_ifs at h
      cases h
      exact .none rfl (fun _ _ => rfl) hcalls (Finset.Subset.refl _) rfl
  | registerMsg | stop | run =>
      cases h
      exact .none rfl (fun _ _ => rfl) hcalls (Finset.Subset.refl _) rfl
  | tick _ | wake _ | checkTimers | ret => cases h

/-- **Every step does to the timers what its label says.** -/
theorem step_effect [Zero T] {act : Action T} (h : s.step act = some t) :
    s.Effect t (s.label act) := by
  unfold step at h
  split at h
  · next now =>
      split_ifs at h with hforward
      cases h
      refine .tick now rfl hforward rfl rfl ?_ rfl
      rintro timer ⟨outer, hcalls, hnext⟩
      cases hcalls.symm.trans hnext
  · next outer hcalls =>
      cases h
      exact move_effect hcalls nofun
  · next outer hcalls =>
      cases h
      exact move_effect hcalls nofun
  · next outer hcalls =>
      cases h
      exact checkTimers_effect hcalls
  · next outer hcalls =>
      cases h
      exact move_effect hcalls nofun
  · next outer timer hcalls =>
      cases h
      exact move_effect hcalls nofun
  · split_ifs at h with huser
    exact userStep_effect huser h

/-- The steps that are labelled as firing a timer are the calls of `onTimer`. -/
theorem callsTimer_iff [Zero T] {act : Action T} (h : s.step act = some t) (timer : TimerPtr) :
    s.CallsTimer t timer ↔ s.label act = some (.fire timer) := by
  have heffect := step_effect h
  generalize s.label act = b at heffect
  cases heffect with
  | tick _ _ _ _ _ calls _ | set _ _ _ _ _ calls _ _ | disarm _ _ _ calls _ _
  | none _ _ calls _ _ =>
      simp [calls timer]
  | fire timer' _ _ calls _ _ _ =>
      rw [Option.some.injEq, Deadlines.Action.fire.injEq]
      obtain ⟨outer, hloop, hin⟩ := calls
      constructor
      · rintro ⟨outer', -, hin'⟩
        have hsame := hin.symm.trans hin'
        rw [List.cons.injEq, Frame.inTimer.injEq] at hsame
        exact hsame.1
      · rintro rfl
        exact ⟨outer, hloop, hin⟩

end State

end Timers

end Craplib
