import Craplib.Resolver.WorkQueue
import Craplib.Threads.OneWaiter

/-!
# The two conditions of a resolver worker

The model of a worker in `Resolver.Shutdown` has the flags and mutexes of `has_work_or_quit` and
of the message built in, and lets a thread wait as `CondLock` does.  `conditions_run` ties it to
`CondVar`: seen through either condition, a run of the two threads is a run of a `CondVar` that
two threads use, step for step.  As only the worker's own thread ever waits, it never oversleeps.
-/

namespace Craplib

namespace Resolver

namespace Shutdown

open Machine

open Condition (CondVar)

/-! ## The worker, seen through a condition -/

/-- Where the thread is with its lock of `has_work_or_quit`. -/
def Position.atWork : Position → Condition.Position
  | .locking => .locking (.wait true) false
  | .waiting => .waiting (.wait true)
  | .locked | .checked => .inside
  | _ => .out

/-- Where the thread is with its `ActiveCall`. -/
def Position.atMsg : Position → Condition.Position
  | .entering _ _ => .locking (.wait false) false
  | .asleep _ _ => .waiting (.wait false)
  | .inside _ _ | .called => .inside
  | _ => .out

theorem Position.atWork_eq_inside (p : Position) : p.atWork = .inside ↔ p.holdsWork = true := by
  cases p <;> simp [atWork, holdsWork]

theorem Position.atMsg_eq_inside (p : Position) : p.atMsg = .inside ↔ p.holdsMsg = true := by
  cases p <;> simp [atMsg, holdsMsg]

namespace State

/-- Where the run loop's thread is with its lock of `has_work_or_quit`: the destructor holds it
while it joins the thread. -/
def loopAtWork (s : State) : Condition.Position :=
  if s.control = .joining then .inside else .out

/-- `has_work_or_quit` -/
def workLock (s : State) : CondVar :=
  .pair s.hasWorkOrQuit s.position.atWork s.loopAtWork

/-- The condition of the message. -/
def msgLock (s : State) : CondVar := .pair s.called s.position.atMsg .out

/-- What a step does with `has_work_or_quit`. -/
def workActs (s : State) : Action → List Condition.Action
  | .thread .lockWork => [.lock 0]
  | .thread .check => if s.destroyed then [.leave 0] else []
  | .thread .take => [.set 0 (!s.needWork.tail.isEmpty) none, .leave 0]
  | .thread .leave => [.begin 0 (.wait true)]
  | .loop (.startWork _ _) => CondVar.visits s.position.atWork true ++ [.leave 1]
  | .loop .quit => CondVar.visits s.position.atWork true
  | .loop .join => [.leave 1]
  | .wake => if s.position = .waiting then [.wake 0 false] else []
  | _ => []

/-- What a step does with the condition of the message. -/
def msgActs (s : State) : Action → List Condition.Action
  | .thread (.lookup _) => [.begin 0 (.wait false)]
  | .thread .enter => .lock 0 :: if !s.called && s.destroyed then [.leave 0] else []
  | .thread .publish => [.set 0 true none]
  | .thread .leave => [.leave 0]
  | .loop .release | .loop .requestTermination =>
      CondVar.visits s.position.atMsg false ++ [.leave 1]
  | .wake => if s.position.atMsg.waits then [.wake 0 false] else []
  | _ => []

variable {s t : State}

/-! ## A step stands for a run of the condition -/

theorem atWork_signalWork (s : State) :
    s.signalWork.position.atWork = s.position.atWork.signalled := by
  unfold signalWork
  cases hpos : s.position <;> simp [hpos, Position.atWork, Condition.Position.signalled]

theorem atMsg_signalMsg (s : State) :
    s.signalMsg.position.atMsg = s.position.atMsg.signalled := by
  unfold signalMsg
  cases hpos : s.position <;> simp [hpos, Position.atMsg, Condition.Position.signalled]

theorem signalWork_msgLock (s : State) : s.signalWork.msgLock = s.msgLock := by
  unfold signalWork msgLock
  cases hpos : s.position <;> simp [hpos, Position.atMsg]

theorem signalMsg_workLock (s : State) : s.signalMsg.workLock = s.workLock := by
  unfold signalMsg workLock loopAtWork
  cases hpos : s.position <;> simp [hpos, Position.atWork]

theorem workLock_signalWork (s : State) : s.signalWork.workLock =
    .pair s.hasWorkOrQuit s.position.atWork.signalled s.loopAtWork := by
  unfold workLock loopAtWork
  rw [atWork_signalWork, signalWork_control, (signalWork_needWork s).2.1]

theorem msgLock_signalMsg (s : State) : s.signalMsg.msgLock =
    .pair s.called s.position.atMsg.signalled .out := by
  unfold msgLock
  rw [atMsg_signalMsg, signalMsg_called]

/-- The steps of the run loop's thread. -/
theorem workLock_loop {act : LoopAction} (hok : s.Ok) (hstep : s.loopStep act = some t) :
    s.workLock.Leads (s.workActs (.loop act)) t.workLock := by
  -- the mutex is free, so that neither thread is inside
  have hfree : s.workHolder = none →
      s.position.atWork ≠ .inside ∧ s.control ≠ .joining := by
    intro hnone
    have hholder := hok.workHolder
    rw [hnone] at hholder
    rw [ne_eq, Position.atWork_eq_inside]
    split_ifs at hholder with hholds hjoining
    exact ⟨hholds, hjoining⟩
  have hquiet : (act = .deliver ∨ act = .ret ∨ act = .destroy) → t.workLock = s.workLock := by
    intro hact
    obtain ⟨hbefore, hafter, queued, heq⟩ := turn_cases hact hstep
    have hs : s.control ≠ .joining := fun h => by simp [h, Control.told] at hbefore
    have ht : t.control ≠ .joining := fun h => by simp [h, Control.told] at hafter
    rw [heq]
    simp only [workLock, loopAtWork, if_neg hs, if_neg ht]
  cases act with
  | startWork addr hs =>
      obtain ⟨-, hnone, rfl⟩ := startWork_cases hstep
      obtain ⟨hout, hjoining⟩ := hfree hnone
      rw [workLock_signalWork]
      simp only [workActs, workLock, loopAtWork, if_neg hjoining]
      have hsignalled : s.position.atWork.signalled ≠ .inside := by
        rw [ne_eq, Condition.Position.signalled_eq_inside]
        exact hout
      exact .append (CondVar.pair_visits hout) (.single (CondVar.pair_leaves hsignalled))
  | deliver => exact hquiet (.inl rfl) ▸ .refl _
  | ret => exact hquiet (.inr (.inl rfl)) ▸ .refl _
  | destroy => exact hquiet (.inr (.inr rfl)) ▸ .refl _
  | release =>
      obtain ⟨hcontrol, -, rfl⟩ := release_cases hstep
      rw [signalMsg_workLock]
      simp only [workActs, workLock, loopAtWork, hcontrol, reduceCtorEq, if_false]
      exact .refl _
  | requestTermination =>
      obtain ⟨hcontrol, -, rfl⟩ := requestTermination_cases hstep
      rw [signalMsg_workLock]
      simp only [workActs, workLock, loopAtWork, hcontrol, reduceCtorEq, if_false]
      exact .refl _
  | quit =>
      obtain ⟨-, hnone, rfl⟩ := quit_cases hstep
      obtain ⟨hout, hjoining⟩ := hfree hnone
      rw [workLock_signalWork]
      simp only [workActs, workLock, loopAtWork, if_neg hjoining, if_true]
      exact CondVar.pair_visits hout
  | join =>
      obtain ⟨hcontrol, hended, rfl⟩ := join_cases hstep
      simp only [workActs, workLock, loopAtWork, hcontrol, hended, if_true, reduceCtorEq,
        if_false, Position.atWork]
      exact .single (CondVar.pair_leaves (by simp))

/-- **`has_work_or_quit`**: every step is what it does there. -/
theorem workLock_step {act : Action} (hok : s.Ok) (hstep : s.step act = some t) :
    s.workLock.Leads (s.workActs act) t.workLock := by
  cases act with
  | thread act =>
      cases act with
      | lockWork =>
          obtain ⟨hpos, hfree, hflag⟩ := lockWork_cases hstep
          have hjoining : s.control ≠ .joining := by
            intro hjoin
            have hholder := hok.workHolder
            rw [hfree, hpos, hjoin] at hholder
            cases hholder
          rcases hflag with ⟨hset, rfl⟩ | ⟨hunset, rfl⟩
          · refine .single ?_
            simp only [workLock, loopAtWork, hpos, hset, if_neg hjoining, Position.atWork]
            exact CondVar.pair_lock_in (by simp)
          · refine .single ?_
            simp only [workLock, loopAtWork, hpos, hunset, if_neg hjoining, Position.atWork]
            exact CondVar.pair_lock_sleep (by simp)
      | check =>
          obtain ⟨hpos, ⟨hgone, rfl⟩ | ⟨hlive, rfl⟩⟩ := check_cases hstep
          · have hjoining : s.control ≠ .joining := hok.apart (by rw [hpos]; rfl)
            simp only [workActs, hgone, if_true]
            refine .single ?_
            simp only [workLock, loopAtWork, hpos, if_neg hjoining, Position.atWork]
            exact CondVar.pair_leave (by simp)
          · simp only [workActs, hlive, Bool.false_eq_true, if_false, workLock, hpos,
              Position.atWork]
            exact .refl _
      | take =>
          obtain ⟨hpos, hs, rest, hneed, rfl⟩ := take_cases hstep
          have hjoining : s.control ≠ .joining := hok.apart (by rw [hpos]; rfl)
          simp only [workActs, hneed, List.tail_cons, workLock, loopAtWork, hpos,
            if_neg hjoining, Position.atWork]
          exact .append (.single CondVar.pair_set) (.single (CondVar.pair_leave (by simp)))
      | lookup res =>
          obtain ⟨work, hpos, rfl⟩ := lookup_cases hstep
          simp only [workActs, workLock, hpos, Position.atWork]
          exact .refl _
      | enter =>
          obtain ⟨work, res, hpos, -, ⟨-, rfl⟩ | ⟨-, -, rfl⟩ | ⟨-, -, rfl⟩⟩ := enter_cases hstep
          all_goals
            simp only [workActs, workLock, hpos, Position.atWork]
            exact .refl _
      | publish =>
          obtain ⟨work, res, hpos, rfl⟩ := publish_cases hstep
          simp only [workActs, workLock, hpos, Position.atWork]
          exact .refl _
      | leave =>
          obtain ⟨hpos, rfl⟩ := leave_cases hstep
          simp only [workActs, workLock, hpos, Position.atWork]
          exact .single CondVar.pair_begin
  | loop act => exact workLock_loop hok hstep
  | wake =>
      simp only [step] at hstep
      split at hstep
      · next hpos =>
          obtain rfl := Option.some.inj hstep
          rw [workLock_signalWork]
          simp only [workActs, workLock, hpos, if_true, Position.atWork]
          exact .single CondVar.pair_wake
      · next work res hpos =>
          obtain rfl := Option.some.inj hstep
          rw [signalMsg_workLock]
          simp only [workActs, hpos, reduceCtorEq, if_false]
          exact .refl _
      · cases hstep

/-- **The condition of the message**: every step is what it does there. -/
theorem msgLock_step {act : Action} (hok : s.Ok) (hstep : s.step act = some t) :
    s.msgLock.Leads (s.msgActs act) t.msgLock := by
  have hfree : s.msgHolder = none → s.position.atMsg ≠ .inside := by
    intro hnone
    have hholder := hok.msgHolder
    rw [hnone] at hholder
    rw [ne_eq, Position.atMsg_eq_inside]
    split_ifs at hholder with hholds
    exact hholds
  have hvisit : s.msgHolder = none → ∀ u : State, u.position = s.position → u.called = false →
      s.msgLock.Leads (CondVar.visits s.position.atMsg false ++ [.leave 1])
        u.signalMsg.msgLock := by
    intro hnone u hposition hcalled
    rw [msgLock_signalMsg, hposition, hcalled]
    have hsignalled : s.position.atMsg.signalled ≠ .inside := by
      rw [ne_eq, Condition.Position.signalled_eq_inside]
      exact hfree hnone
    exact .append (CondVar.pair_visits (hfree hnone)) (.single (CondVar.pair_leaves hsignalled))
  cases act with
  | thread act =>
      cases act with
      | lockWork =>
          obtain ⟨hpos, -, ⟨-, rfl⟩ | ⟨-, rfl⟩⟩ := lockWork_cases hstep
          all_goals
            simp only [msgActs, msgLock, hpos, Position.atMsg]
            exact .refl _
      | check =>
          obtain ⟨hpos, ⟨-, rfl⟩ | ⟨-, rfl⟩⟩ := check_cases hstep
          all_goals
            simp only [msgActs, msgLock, hpos, Position.atMsg]
            exact .refl _
      | take =>
          obtain ⟨hpos, hs, rest, -, rfl⟩ := take_cases hstep
          simp only [msgActs, msgLock, hpos, Position.atMsg]
          exact .refl _
      | lookup res =>
          obtain ⟨work, hpos, rfl⟩ := lookup_cases hstep
          simp only [msgActs, msgLock, hpos, Position.atMsg]
          exact .single CondVar.pair_begin
      | enter =>
          obtain ⟨work, res, hpos, -, ⟨hcalled, rfl⟩ | ⟨hcalled, hgone, rfl⟩ |
            ⟨hcalled, hgone, rfl⟩⟩ := enter_cases hstep
          · simp only [msgActs, msgLock, hpos, hcalled, Position.atMsg, Bool.not_true,
              Bool.false_and, Bool.false_eq_true, if_false]
            exact .single (CondVar.pair_lock_sleep (by simp))
          · -- the constructor throws, and its lock goes
            simp only [msgActs, msgLock, hpos, hcalled, hgone, Position.atMsg, Bool.not_false,
              Bool.and_self, if_true]
            exact .append (.single (CondVar.pair_lock_in (by simp)))
              (.single (CondVar.pair_leave (by simp)))
          · simp only [msgActs, msgLock, hpos, hcalled, hgone, Position.atMsg, Bool.not_false,
              Bool.and_false, Bool.false_eq_true, if_false]
            exact .single (CondVar.pair_lock_in (by simp))
      | publish =>
          obtain ⟨work, res, hpos, rfl⟩ := publish_cases hstep
          simp only [msgActs, msgLock, hpos, Position.atMsg]
          exact .single CondVar.pair_set
      | leave =>
          obtain ⟨hpos, rfl⟩ := leave_cases hstep
          simp only [msgActs, msgLock, hpos, Position.atMsg]
          exact .single (CondVar.pair_leave (by simp))
  | loop act =>
      cases act with
      | startWork addr hs =>
          obtain ⟨-, -, rfl⟩ := startWork_cases hstep
          rw [signalWork_msgLock]
          exact .refl _
      | deliver =>
          obtain ⟨-, -, queued, heq⟩ := turn_cases (.inl rfl) hstep
          rw [heq]
          exact .refl _
      | ret =>
          obtain ⟨-, -, queued, heq⟩ := turn_cases (.inr (.inl rfl)) hstep
          rw [heq]
          exact .refl _
      | destroy =>
          obtain ⟨-, -, queued, heq⟩ := turn_cases (.inr (.inr rfl)) hstep
          rw [heq]
          exact .refl _
      | release =>
          obtain ⟨-, hnone, rfl⟩ := release_cases hstep
          exact hvisit hnone _ rfl rfl
      | requestTermination =>
          obtain ⟨-, hnone, rfl⟩ := requestTermination_cases hstep
          exact hvisit hnone _ rfl rfl
      | quit =>
          obtain ⟨-, -, rfl⟩ := quit_cases hstep
          rw [signalWork_msgLock]
          exact .refl _
      | join =>
          obtain ⟨-, hended, rfl⟩ := join_cases hstep
          exact .refl _
  | wake =>
      simp only [step] at hstep
      split at hstep
      · next hpos =>
          obtain rfl := Option.some.inj hstep
          rw [signalWork_msgLock]
          simp only [msgActs, hpos, Position.atMsg, Condition.Position.waits, Bool.false_eq_true,
            if_false]
          exact .refl _
      · next work res hpos =>
          obtain rfl := Option.some.inj hstep
          rw [msgLock_signalMsg]
          simp only [msgActs, msgLock, hpos, Position.atMsg, Condition.Position.waits, if_true]
          exact .single CondVar.pair_wake
      · cases hstep

/-! ## Whole runs -/

/-- Only the worker's thread waits on `has_work_or_quit`. -/
theorem waiter_workActs (s : State) (act : Action) :
    ∀ a ∈ s.workActs act, CondVar.Waiter 0 a := by
  intro a ha u ctor heq hval
  subst heq
  cases act with
  | thread act =>
      cases act with
      | leave => exact (Condition.Action.begin.inj (List.mem_singleton.mp ha)).1
      | check =>
          simp only [workActs] at ha
          split at ha <;> simp at ha
      | lockWork | take | lookup | enter | publish => simp [workActs] at ha
  | loop act =>
      cases act with
      | startWork =>
          have hvisits : .begin u ctor ∈ CondVar.visits s.position.atWork true := by
            simpa [workActs] using ha
          exact CondVar.waiter_visits 0 _ _ _ hvisits u ctor rfl hval
      | quit => exact CondVar.waiter_visits 0 _ _ _ ha u ctor rfl hval
      | deliver | ret | release | destroy | requestTermination | join => simp [workActs] at ha
  | wake =>
      simp only [workActs] at ha
      split at ha <;> simp at ha

/-- Only the worker's thread waits for the message. -/
theorem waiter_msgActs (s : State) (act : Action) :
    ∀ a ∈ s.msgActs act, CondVar.Waiter 0 a := by
  intro a ha u ctor heq hval
  subst heq
  cases act with
  | thread act =>
      cases act with
      | lookup => exact (Condition.Action.begin.inj (List.mem_singleton.mp ha)).1
      | enter =>
          simp only [msgActs] at ha
          split at ha <;> simp at ha
      | lockWork | check | take | publish | leave => simp [msgActs] at ha
  | loop act =>
      cases act with
      | release | requestTermination =>
          have hvisits : .begin u ctor ∈ CondVar.visits s.position.atMsg false := by
            simpa [msgActs] using ha
          exact CondVar.waiter_visits 0 _ _ _ hvisits u ctor rfl hval
      | startWork | deliver | ret | destroy | quit | join => simp [msgActs] at ha
  | wake =>
      simp only [msgActs] at ha
      split at ha <;> simp at ha

/-- **A worker uses its conditions as `CondVar` provides them.**  Every run of the two threads
is, seen through `has_work_or_quit` and seen through the condition of the message, a run of a
`CondVar` with the actions that the steps stand for; and in neither of them the worker ever
sleeps although the flag has the value that it waits for. -/
theorem conditions_run {tr : List (State × Action)} (hrun : Runs .init tr s) :
    (∃ atr, Condition.Runs (.init false) atr s.workLock ∧
      actions atr = .begin 0 (.wait true) :: tr.flatMap (fun p => p.1.workActs p.2) ∧
      ∀ x ∈ visited atr s.workLock, ¬ x.Overslept) ∧
    ∃ atr, Condition.Runs (.init false) atr s.msgLock ∧
      actions atr = tr.flatMap (fun p => p.1.msgActs p.2) ∧
      ∀ x ∈ visited atr s.msgLock, ¬ x.Overslept := by
  have hkeep : ∀ x act y, Ok x → Fires State.step x act y → Ok y :=
    fun _ _ _ hok hstep => hok.step hstep
  have hworkStep : ∀ x act y, Ok x → Fires State.step x act y →
      x.workLock.Leads (x.workActs act) y.workLock := fun _ _ _ hok hstep => workLock_step hok hstep
  have hmsgStep : ∀ x act y, Ok x → Fires State.step x act y →
      x.msgLock.Leads (x.msgActs act) y.msgLock := fun _ _ _ hok hstep => msgLock_step hok hstep
  have hwork : (CondVar.init false).Leads
      ([.begin 0 (.wait true)] ++ tr.flatMap fun p => p.1.workActs p.2) s.workLock := by
    -- the thread of a new worker is at the lock already
    have hbegin : (CondVar.init false).Leads [.begin 0 (.wait true)] (workLock .init) := by
      rw [CondVar.init_eq_pair]
      exact .single CondVar.pair_begin
    exact hbegin.append (CondVar.leads_of_run hkeep hworkStep hrun Ok.init)
  have hmsg : (CondVar.init false).Leads (tr.flatMap fun p => p.1.msgActs p.2) s.msgLock := by
    rw [CondVar.init_eq_pair]
    exact CondVar.leads_of_run hkeep hmsgStep hrun Ok.init
  obtain ⟨wtr, hwrun, hwacts⟩ := hwork
  obtain ⟨mtr, hmrun, hmacts⟩ := hmsg
  refine ⟨⟨wtr, hwrun, hwacts, CondVar.not_overslept_of_waiter 0 hwrun fun a ha => ?_⟩,
    mtr, hmrun, hmacts, CondVar.not_overslept_of_waiter 0 hmrun fun a ha => ?_⟩
  · rw [hwacts] at ha
    rcases List.mem_append.mp ha with hfirst | hrest
    · rw [List.mem_singleton.mp hfirst]
      exact fun u ctor heq _ => (Condition.Action.begin.inj heq).1.symm
    · obtain ⟨p, -, hmem⟩ := List.mem_flatMap.mp hrest
      exact waiter_workActs p.1 p.2 a hmem
  · rw [hmacts] at ha
    obtain ⟨p, -, hmem⟩ := List.mem_flatMap.mp ha
    exact waiter_msgActs p.1 p.2 a hmem

/-- The thread waits for work, gets it, and is told to end during the lookup. -/
theorem conditions_run_example : ∃ tr s, Runs .init tr s ∧ s.control = .joining ∧
    ∃ atr, Condition.Runs (.init false) atr s.workLock ∧
      actions atr = [.begin 0 (.wait true), .lock 0, .begin 1 .plain, .lock 1,
        .set 1 true (some 0), .leave 1, .lock 0, .set 0 false none, .leave 0, .begin 1 .plain,
        .lock 1, .set 1 true none] ∧
      ∀ x ∈ visited atr s.workLock, ¬ x.Overslept := by
  let acts : List Action := [.thread .lockWork, .loop (.startWork 0 {}), .thread .lockWork,
    .thread .check, .thread .take, .loop .destroy, .loop .requestTermination, .loop .quit]
  let last : State := (exec State.step .init acts).get (by decide)
  have hlast : exec State.step .init acts = some last := (Option.some_get _).symm
  obtain ⟨hrun, -⟩ := exec_trace _ _ _ _ hlast
  obtain ⟨⟨atr, hatr, hatrActs, hawake⟩, -⟩ := conditions_run hrun
  exact ⟨_, last, hrun, by decide, atr, hatr, hatrActs.trans (by decide), hawake⟩

end State

end Shutdown

end Resolver

end Craplib
