import Craplib.RunLoop.Messages
import Craplib.RunLoop.Timers

/-!
# A run loop with nothing to wait for

`RunLoop::run` looks at the end of a turn whether a timer is set or a message registered,
and ends if not.  At the beginning of a turn it does not look: without a timer it waits
without a time limit, and counts on a message.

`occupied_iff` says what comes of it: in no run does the loop wait for nothing, or fail to
return when nothing is left, exactly when every call of `run` finds a timer or a message.
A call that finds neither waits forever (`run_never_returns`): there is no message that
could be put into the queue, and nobody could register one.
-/

namespace Craplib

namespace Timers

open Machine

universe u

variable {T : Type u}

namespace State

variable {s t : State T}

/-- A call of `run` is in the wait without a time limit. -/
def Unlimited (s : State T) : Prop := s.timers = [] ∧ ∃ outer, s.calls = .waiting :: outer

/-- A call of `run` that the action makes finds a timer or a message. -/
def FindsWork (s : State T) (act : Action T) : Prop :=
  act = .run → s.timers ≠ [] ∨ 0 < s.msgCnt

/-- **There is something to wait for.**  In the wait without a time limit a message is
registered, and a call of `run` that is left without timers and messages returns. -/
structure Occupied [LinearOrder T] [Add T] [Zero T] (s : State T) : Prop where
  message : s.Unlimited → 0 < s.msgCnt
  returns : ∀ outer, s.calls = .timerLoop :: outer → s.timers = [] → s.msgCnt = 0 →
    ∃ t, s.step .checkTimers = some t ∧ t.calls = outer

/-! ## Turns that find something -/

/-- As long as every call of `run` finds something, so does every turn.  The calls around the
innermost one are in a callback. -/
structure Busy (s : State T) : Prop where
  nested : .waiting ∉ s.calls.tail
  message : s.Unlimited → 0 < s.msgCnt

theorem Busy.init [Zero T] (now : T) : (init now).Busy where
  nested := List.not_mem_nil
  message := by
    rintro ⟨-, outer, hcalls⟩
    cases hcalls

/-- Code of the program, other than a call of `run`, is not in the wait. -/
theorem Busy.of_user (h : s.Busy) (huser : s.inUserCode = true) (hcalls : t.calls = s.calls) :
    t.Busy := by
  constructor
  · rw [hcalls]
    exact h.nested
  · rintro ⟨-, outer, hwait⟩
    rw [inUserCode, ← hcalls, hwait] at huser
    cases huser

theorem Busy.run (h : s.Busy) (huser : s.inUserCode = true)
    (hfinds : s.timers ≠ [] ∨ 0 < s.msgCnt) :
    Busy { s with running := true, calls := .waiting :: s.calls } := by
  constructor
  · intro hin
    have hnested := h.nested
    rw [List.tail_cons] at hin
    cases hcalls : s.calls with
    | nil =>
        rw [hcalls] at hin
        cases hin
    | cons frame outer =>
        rw [hcalls] at hin hnested
        rcases List.mem_cons.mp hin with rfl | hin
        · rw [inUserCode, hcalls] at huser
          cases huser
        · exact hnested hin
  · rintro ⟨htimers, -⟩
    exact hfinds.resolve_left fun hne => hne htimers

/-- The innermost call has come to another place in its turn. -/
theorem Busy.move {frame frame' : Frame} {outer : List Frame} {timers : List TimerPtr}
    (h : s.Busy) (hcalls : s.calls = frame :: outer) (hframe : frame' ≠ .waiting) :
    Busy { s with timers := timers, calls := frame' :: outer } := by
  constructor
  · have hnested := h.nested
    rw [hcalls] at hnested
    exact hnested
  · rintro ⟨-, outer', heq⟩
    exact absurd (List.cons.inj heq).1 hframe

/-- The end of a turn: the call goes on only with a timer or a message. -/
theorem Busy.leaveTimerLoop {outer : List Frame} (h : s.Busy)
    (hcalls : s.calls = .timerLoop :: outer) : (s.leaveTimerLoop outer).Busy := by
  have hnested : .waiting ∉ outer := by
    have htail := h.nested
    rw [hcalls] at htail
    exact htail
  unfold State.leaveTimerLoop
  generalize hrunning : (if s.timers = [] ∧ s.msgCnt = 0 then false else s.running) = running
  cases running with
  | false =>
      refine ⟨fun hin => hnested (List.mem_of_mem_tail hin), ?_⟩
      rintro ⟨-, outer', hwait⟩
      dsimp only at hwait
      rw [if_neg Bool.false_ne_true] at hwait
      rw [hwait] at hnested
      exact absurd List.mem_cons_self hnested
  | true =>
      refine ⟨hnested, ?_⟩
      rintro ⟨htimers, -⟩
      refine Nat.pos_of_ne_zero fun hmsgs => ?_
      rw [if_pos ⟨htimers, hmsgs⟩] at hrunning
      cases hrunning

variable [LinearOrder T]

theorem Busy.checkTimers {outer : List Frame} (h : s.Busy)
    (hcalls : s.calls = .timerLoop :: outer) : (s.checkTimers outer).Busy := by
  unfold State.checkTimers
  split
  · exact h.leaveTimerLoop hcalls
  · split_ifs
    · exact h.leaveTimerLoop hcalls
    · exact h.move hcalls nofun

variable [Add T] [Zero T]

theorem Busy.userStep {act : Action T} (h : s.Busy) (huser : s.inUserCode = true)
    (hstep : s.userStep act = some t) (hfinds : s.FindsWork act) : t.Busy := by
  cases act with
  | run =>
      cases hstep
      exact h.run huser (hfinds rfl)
  | construct timer | set timer time | cancel timer | destroy timer | deregisterMsg =>
      simp only [State.userStep] at hstep
      split_ifs at hstep
      cases hstep
      exact h.of_user huser rfl
  | registerMsg | stop =>
      cases hstep
      exact h.of_user huser rfl
  | tick _ | wake _ | checkTimers | ret => cases hstep

theorem Busy.step {act : Action T} (h : s.Busy) (hstep : s.step act = some t)
    (hfinds : s.FindsWork act) : t.Busy := by
  unfold State.step at hstep
  split at hstep
  · split_ifs at hstep
    cases hstep
    exact ⟨h.nested, h.message⟩
  · next hcalls =>
      cases hstep
      exact h.move hcalls nofun
  · next hcalls =>
      cases hstep
      exact h.move hcalls nofun
  · next hcalls =>
      cases hstep
      exact h.checkTimers hcalls
  · next hcalls =>
      cases hstep
      exact h.move hcalls nofun
  · next hcalls =>
      cases hstep
      exact h.move hcalls nofun
  · split_ifs at hstep with huser
    exact h.userStep huser hstep hfinds

/-- The turn ends, and the call of `run` with it. -/
theorem checkTimers_returns {outer : List Frame} (hcalls : s.calls = .timerLoop :: outer)
    (htimers : s.timers = []) (hmsgs : s.msgCnt = 0) :
    ∃ t, s.step .checkTimers = some t ∧ t.calls = outer := by
  refine ⟨s.checkTimers outer, ?_, ?_⟩
  · unfold step
    rw [hcalls]
  · unfold State.checkTimers State.leaveTimerLoop
    rw [htimers, hmsgs]
    rfl

/-! ## Whole runs -/

theorem Busy.occupied (h : s.Busy) : s.Occupied :=
  ⟨h.message, fun _ hcalls htimers hmsgs => checkTimers_returns hcalls htimers hmsgs⟩

/-- A call of `run` that finds neither is in the wait without a time limit at once. -/
theorem not_occupied_of_run (hstep : s.step .run = some t) (htimers : s.timers = [])
    (hmsgs : s.msgCnt = 0) : ¬ t.Occupied := by
  obtain ⟨-, hrun⟩ : s.inUserCode = true ∧ s.userStep .run = some t := by
    have hstep' : (if s.inUserCode then s.userStep .run else none) = some t := hstep
    split_ifs at hstep' with huser
    exact ⟨huser, hstep'⟩
  cases hrun
  intro hoccupied
  exact absurd (hoccupied.message ⟨htimers, s.calls, rfl⟩) (by simp [hmsgs])

/-- **When the loop never waits for nothing.**  In a run of the loop, with timers and
messages as they come and any code in its callbacks, there is always something to wait for,
and a call of `run` without timers and messages returns, exactly when every call of `run` is
made with a timer set or a message registered. -/
theorem occupied_iff {now : T} {tr : List (State T × Action T)} (hrun : Runs (init now) tr s) :
    (∀ x ∈ visited tr s, x.Occupied) ↔ ∀ p ∈ tr, p.1.FindsWork p.2 := by
  refine hrun.visited_iff_good (I := Busy) (fun _ _ _ h hstep hfinds => h.step hstep hfinds)
    (fun s act t _ hstep hbad => ?_) (fun _ h => h.occupied) (Busy.init now)
  unfold FindsWork at hbad
  push Not at hbad
  obtain ⟨rfl, htimers, hmsgs⟩ := hbad
  exact not_occupied_of_run hstep htimers (Nat.eq_zero_of_le_zero hmsgs)

/-- A timer keeps the loop going, its callback registers a message, and when the message has
gone `run` returns. -/
theorem occupied_iff_example : ∃ tr s, Runs (init (0 : ℕ)) tr s ∧
    actions tr = [.construct 1, .set 1 5, .run, .tick 5, .wake false, .checkTimers, .registerMsg,
      .ret, .checkTimers, .wake true, .deregisterMsg, .ret, .checkTimers] ∧
    s.calls = [] ∧ ((∀ x ∈ visited tr s, x.Occupied) ↔ ∀ p ∈ tr, p.1.FindsWork p.2) := by
  let acts : List (Action ℕ) := [.construct 1, .set 1 5, .run, .tick 5, .wake false,
    .checkTimers, .registerMsg, .ret, .checkTimers, .wake true, .deregisterMsg, .ret, .checkTimers]
  let s := (exec State.step (init 0) acts).get (by decide)
  have hs : exec State.step (init 0) acts = some s := (Option.some_get _).symm
  obtain ⟨hrun, hacts⟩ := exec_trace _ _ _ _ hs
  exact ⟨_, s, hrun, hacts, by decide, occupied_iff hrun⟩

/-- `run` is called on a new loop. -/
theorem run_waits_for_nothing : ∃ tr s, Runs (init (0 : ℕ)) tr s ∧ actions tr = [.run] ∧
    s.Unlimited ∧ s.msgCnt = 0 ∧ ¬ s.Occupied := by
  let s := (exec State.step (init (0 : ℕ)) [.run]).get (by decide)
  have hs : exec State.step (init (0 : ℕ)) [.run] = some s := (Option.some_get _).symm
  obtain ⟨hrun, hacts⟩ := exec_trace _ _ _ _ hs
  have hwait : s.Unlimited := ⟨rfl, [], rfl⟩
  exact ⟨_, s, hrun, hacts, hwait, rfl,
    fun hoccupied => absurd (hoccupied.message hwait) (by decide)⟩

end State

end Timers

namespace Messages

open Machine

namespace State

variable {s t : State}

/-- The loop waits without a time limit, there is no message, and no thread is in an
`ActiveCall`. -/
structure Forsaken (s : State) : Prop where
  bare : ∀ msg, s.msgs msg = none
  out : ∀ phase ∈ s.threads, phase.msg = none
  unset : s.flag = false
  waits : s.control = .locking false false ∨ s.control = .asleep false
  undisturbed : s.newEnd = none

theorem Forsaken.init (threads : ℕ) :
    Forsaken { init threads with running := true, control := .locking false false } where
  bare := fun _ => rfl
  out := by
    intro phase hphase
    rw [List.eq_of_mem_replicate hphase]
    rfl
  unset := rfl
  waits := .inl rfl
  undisturbed := rfl

/-- A thread can only end. -/
theorem Forsaken.threadStep {thread : ThreadId} {act : ThreadAction} (h : s.Forsaken)
    (hstep : s.threadStep thread act = some t) : t.Forsaken := by
  have hphase : ∀ phase, s.threads[thread]? = some phase → phase = .out ∨ phase = .ended := by
    intro phase hphase
    have hmsg := h.out phase (List.mem_of_getElem? hphase)
    cases phase with
    | out => exact .inl rfl
    | ended => exact .inr rfl
    | entering msg => cases hmsg
    | inside msg stage => cases hmsg
  cases hthread : s.threads[thread]? with
  | none => cases act <;> simp [State.threadStep, hthread] at hstep
  | some phase =>
      rcases hphase phase hthread with rfl | rfl
      · cases act <;> simp [State.threadStep, hthread, h.bare] at hstep
        subst hstep
        refine ⟨h.bare, fun phase hin => ?_, h.unset, h.waits, h.undisturbed⟩
        rcases List.mem_or_eq_of_mem_set hin with hin | rfl
        · exact h.out phase hin
        · rfl
      · cases act <;> simp [State.threadStep, hthread] at hstep

/-- The loop finds its condition false, and goes back to sleep. -/
theorem Forsaken.loopStep {act : LoopAction} (h : s.Forsaken) (hstep : s.loopStep act = some t) :
    t.Forsaken := by
  rcases h.waits with hcontrol | hcontrol
  · cases act <;> simp [State.loopStep, hcontrol, h.unset] at hstep
    obtain ⟨-, rfl⟩ := hstep
    exact ⟨h.bare, h.out, rfl, .inr rfl, h.undisturbed⟩
  · cases act <;> simp [State.loopStep, hcontrol] at hstep
    obtain ⟨htime, rfl⟩ := hstep
    exact ⟨h.bare, h.out, h.unset, .inl (by rw [htime]), h.undisturbed⟩

theorem Forsaken.step {act : Action} (h : s.Forsaken) (hstep : s.step act = some t) :
    t.Forsaken := by
  cases act with
  | thread thread act => exact h.threadStep hstep
  | loop act => exact h.loopStep (step_loop hstep).2
  | handler act =>
      have huser := (step_handler hstep).1
      rcases h.waits with hcontrol | hcontrol <;> simp [hcontrol, Control.inProgram] at huser
  | erase => simp [State.step, erase, h.undisturbed] at hstep

/-- **A call of `run` that finds nothing never returns**, whatever the other threads do. -/
theorem run_never_returns (threads : ℕ) :
    ∃ s, exec State.step (init threads) [.handler .run, .loop (.beginTurn false)] = some s ∧
      ∀ tr t, Runs s tr t → t.control ≠ .outside := by
  refine ⟨_, rfl, fun tr t hrun => ?_⟩
  have hforsaken : t.Forsaken :=
    hrun.invariant (fun _ _ _ h hstep => h.step hstep) (Forsaken.init threads)
  rcases hforsaken.waits with hcontrol | hcontrol <;> rw [hcontrol] <;> nofun

end State

end Messages

end Craplib
