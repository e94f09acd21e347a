import Craplib.RunLoop.Messages
import Craplib.Threads.OneWaiter

/-!
# The condition of a run loop

`RunLoop::c` has one thread that waits on it, that of the loop, with a time limit or without
one, and any number of threads that take its mutex in `RunLoop::enqueue`.  `loop_condition_run`
ties the model of `RunLoop.Messages`, which has the flag, the mutex and the wake-up built in, to
`CondVar`: every run of the loop and the threads is a run of a `CondVar`, step for step, and the
loop never oversleeps.  Thread `i` that calls messages is thread `i + 1` of the condition.
-/

namespace Craplib

namespace Messages

open Machine

open Condition (CondVar)

/-- Which constructor of `CondLock` the loop calls, as there are timers or not. -/
def waitCtor (timed : Bool) : Condition.Ctor := if timed then .timedWait true else .wait true

/-- Where the loop is with its lock of `c`. -/
def Control.atLoop : Control → Condition.Position
  | .locking timed timedOut => .locking (waitCtor timed) timedOut
  | .asleep timed => .waiting (waitCtor timed)
  | _ => .out

/-- Where a thread is with its lock of `c`, in `RunLoop::enqueue`. -/
def Phase.atLoop : Phase → Condition.Position
  | .inside _ .locked | .inside _ .pushed | .inside _ .signalled => .inside
  | _ => .out

namespace State

/-- Where thread `i` is with its lock of `c`. -/
def threadAtLoop (s : State) (i : ThreadId) : Condition.Position :=
  (s.threads[i]?.map Phase.atLoop).getD .out

/-- `RunLoop::c` -/
def loopLock (s : State) : CondVar :=
  .oneWaiter s.flag (s.mutex.map (· + 1)) s.control.atLoop s.threadAtLoop

/-- What a step does with `c`. -/
def loopActs (s : State) : Action → List Condition.Action
  | .loop (.beginTurn timed) => [.begin 0 (waitCtor timed)]
  | .loop .acquire =>
      match s.control with
      | .locking _ timedOut =>
          if s.flag || timedOut then [.lock 0, .set 0 (!s.queue.tail.isEmpty) none, .leave 0]
          else [.lock 0]
      | _ => []
  | .loop (.wake timedOut) => [.wake 0 timedOut]
  | .thread i .lockLoop => CondVar.locks i
  | .thread i .signal => [.set (i + 1) (!s.queue.isEmpty) s.control.atLoop.woken]
  | .thread i .unlockLoop => [.leave (i + 1)]
  | _ => []

variable {s t : State}

/-! ## One step -/

theorem val_waitCtor (timed : Bool) : (waitCtor timed).val = some true := by
  cases timed <;> rfl

theorem timed_waitCtor (timed : Bool) : (waitCtor timed).timed = timed := by
  cases timed <;> rfl

/-- A thread goes to another phase. -/
theorem threadAtLoop_setPhase {i : ThreadId} {phase : Phase} (hi : i < s.threads.length)
    (phase' : Phase) (hphase : phase'.atLoop = phase.atLoop) :
    (s.setPhase i phase').threadAtLoop = Function.update s.threadAtLoop i phase.atLoop := by
  funext j
  unfold threadAtLoop setPhase
  rw [Function.update_apply, List.getElem?_set]
  by_cases hj : j = i
  · subst hj
    simp [hi, hphase]
  · rw [if_neg (Ne.symm hj), if_neg hj]

theorem threadAtLoop_eq {i : ThreadId} {phase : Phase} (h : s.threads[i]? = some phase) :
    s.threadAtLoop i = phase.atLoop := by
  rw [threadAtLoop, h]
  rfl

/-- Two states that are the same to `c`. -/
theorem loopLock_congr
    (hsame : (t.flag, t.mutex, t.threads) = (s.flag, s.mutex, s.threads))
    (hcontrol : t.control.atLoop = s.control.atLoop) : t.loopLock = s.loopLock := by
  simp only [Prod.mk.injEq] at hsame
  obtain ⟨hflag, hmutex, hthreads⟩ := hsame
  have hpositions : t.threadAtLoop = s.threadAtLoop := by
    funext i
    rw [threadAtLoop, threadAtLoop, hthreads]
  unfold loopLock
  rw [hflag, hmutex, hcontrol, hpositions]

/-- A step between two phases that are the same to `c`. -/
theorem loopLock_setPhase {i : ThreadId} {phase phase' : Phase} (u : State)
    (h : s.threads[i]? = some phase) (hphase : phase'.atLoop = phase.atLoop)
    (hsame : (u.flag, u.mutex, u.control, u.threads) = (s.flag, s.mutex, s.control, s.threads)) :
    (u.setPhase i phase').loopLock = s.loopLock := by
  simp only [Prod.mk.injEq] at hsame
  obtain ⟨hflag, hmutex, hcontrol, hthreads⟩ := hsame
  have hu : u.threads[i]? = some phase := hthreads ▸ h
  have hmove := threadAtLoop_setPhase (List.getElem?_eq_some_iff.mp hu).1 phase' hphase
  rw [← threadAtLoop_eq hu, Function.update_eq_self] at hmove
  have hsetPhase : (u.setPhase i phase').loopLock = u.loopLock := by
    unfold loopLock
    rw [hmove]
    rfl
  exact hsetPhase.trans (loopLock_congr (by rw [hflag, hmutex, hthreads]) (by rw [hcontrol]))

/-- The steps of a thread. -/
theorem loopLock_thread {i : ThreadId} {act : ThreadAction} (h : s.threadStep i act = some t) :
    s.loopLock.Leads (s.loopActs (.thread i act)) t.loopLock := by
  unfold threadStep at h
  split at h
  · next msg hphase =>
      split_ifs at h
      obtain rfl := Option.some.inj h
      exact .of_eq (loopLock_setPhase _ hphase rfl rfl)
  · next msg hphase =>
      split at h
      · next m hm =>
          split_ifs at h
          · obtain rfl := Option.some.inj h
            exact .of_eq (loopLock_setPhase _ hphase rfl rfl)
          · obtain rfl := Option.some.inj h
            exact .of_eq (loopLock_setPhase _ hphase rfl rfl)
      · cases h
  · next msg hphase =>
      obtain ⟨m, -, rfl⟩ := Option.map_eq_some_iff.mp h
      exact .of_eq (loopLock_setPhase _ hphase rfl rfl)
  · next msg hphase =>
      split_ifs at h with hfree
      obtain rfl := Option.some.inj h
      have hmove := threadAtLoop_setPhase (s := { s with mutex := some i })
        (List.getElem?_eq_some_iff.mp hphase).1 (.inside msg .locked) rfl
      unfold loopLock
      rw [hmove, hfree]
      exact CondVar.oneWaiter_locks (threadAtLoop_eq hphase)
  · next msg hphase =>
      obtain rfl := Option.some.inj h
      exact .of_eq (loopLock_setPhase _ hphase rfl rfl)
  · next msg hphase =>
      obtain rfl := Option.some.inj h
      have hpushed : (s.setFlag (!s.queue.isEmpty)).threads[i]? = some (.inside msg .pushed) :=
        hphase
      have hsame : ((s.setFlag (!s.queue.isEmpty)).setPhase i (.inside msg .signalled)).loopLock =
          (s.setFlag (!s.queue.isEmpty)).loopLock := loopLock_setPhase _ hpushed rfl rfl
      have hcontrol : (s.setFlag (!s.queue.isEmpty)).control.atLoop =
          s.control.atLoop.signalled := by
        unfold setFlag
        cases s.control <;> rfl
      rw [hsame]
      unfold loopLock
      rw [hcontrol]
      exact .single (CondVar.oneWaiter_set_succ (threadAtLoop_eq hphase))
  · next msg hphase =>
      obtain rfl := Option.some.inj h
      have hmove := threadAtLoop_setPhase (s := { s with mutex := none })
        (List.getElem?_eq_some_iff.mp hphase).1 (.inside msg .called) rfl
      unfold loopLock
      rw [hmove]
      exact .single (CondVar.oneWaiter_leave_succ (threadAtLoop_eq hphase))
  · next msg hphase =>
      obtain ⟨m, -, rfl⟩ := Option.map_eq_some_iff.mp h
      exact .of_eq (loopLock_setPhase _ hphase rfl rfl)
  · next msg hphase =>
      obtain ⟨m, -, rfl⟩ := Option.map_eq_some_iff.mp h
      exact .of_eq (loopLock_setPhase _ hphase rfl rfl)
  · next hphase =>
      obtain rfl := Option.some.inj h
      exact .of_eq (loopLock_setPhase _ hphase rfl rfl)
  · cases h

/-- The steps of the loop. -/
theorem loopLock_loop {act : LoopAction} (h : s.loopStep act = some t) :
    s.loopLock.Leads (s.loopActs (.loop act)) t.loopLock := by
  unfold loopStep at h
  split at h
  · next timed hcontrol =>
      obtain rfl := Option.some.inj h
      unfold loopLock
      rw [hcontrol]
      exact .single CondVar.oneWaiter_begin
  · next timed timedOut hcontrol =>
      simp only [loopActs, hcontrol]
      split_ifs at h with hfree htest
      · -- the loop takes the front of the queue, and says whether there is more in it
        obtain rfl := Option.some.inj h
        have hpopped : s.pop.loopLock =
            .oneWaiter (!s.queue.tail.isEmpty) none .out s.threadAtLoop := by
          unfold pop loopLock
          cases hqueue : s.queue with
          | nil =>
              simp only [hfree]
              rfl
          | cons call rest =>
              simp only [hfree]
              rfl
        have hpasses : timedOut = true ∨ ∀ val ∈ (waitCtor timed).val, s.flag = val := by
          rw [Bool.or_eq_true] at htest
          rw [val_waitCtor]
          exact htest.symm.imp_right fun hflag val hval => hflag.trans (Option.some.inj hval)
        rw [hpopped, if_pos htest]
        unfold loopLock
        rw [hcontrol, hfree]
        have hlock := CondVar.Leads.single (CondVar.oneWaiter_lock_in (f := s.threadAtLoop) hpasses)
        exact hlock.append ((CondVar.Leads.single CondVar.oneWaiter_set).append
          (.single CondVar.oneWaiter_leave))
      · obtain rfl := Option.some.inj h
        rw [Bool.or_eq_true, not_or, Bool.not_eq_true, Bool.not_eq_true] at htest
        rw [if_neg (by simp [htest])]
        unfold loopLock
        rw [hcontrol, hfree, htest.2]
        exact .single (CondVar.oneWaiter_lock_sleep (by rw [val_waitCtor, htest.1]; rfl))
  · next timedOut timed hcontrol =>
      split_ifs at h with htime
      obtain rfl := Option.some.inj h
      unfold loopLock
      rw [hcontrol]
      refine .single (CondVar.oneWaiter_wake fun hreached => ?_)
      rw [timed_waitCtor]
      simpa [hreached] using htime
  · next hcontrol =>
      obtain rfl := Option.some.inj h
      exact .of_eq (loopLock_congr rfl (by rw [hcontrol]; split <;> rfl))
  · next hcontrol =>
      obtain rfl := Option.some.inj h
      exact .of_eq (loopLock_congr rfl (by rw [hcontrol]; rfl))
  · next hcontrol =>
      split at h
      · obtain rfl := Option.some.inj h
        exact .of_eq (loopLock_congr rfl (by rw [hcontrol]; rfl))
      · split at h
        · split_ifs at h
          obtain rfl := Option.some.inj h
          exact .of_eq (loopLock_congr rfl (by rw [hcontrol]; rfl))
        · cases h
  · next hcontrol =>
      obtain rfl := Option.some.inj h
      exact .of_eq (loopLock_congr rfl (by rw [hcontrol]; rfl))
  · next hcontrol =>
      obtain rfl := Option.some.inj h
      exact .of_eq (loopLock_congr rfl (by rw [hcontrol]; rfl))
  · next timersEmpty hcontrol =>
      obtain rfl := Option.some.inj h
      refine .of_eq (loopLock_congr rfl ?_)
      rw [hcontrol]
      dsimp only
      generalize (if timersEmpty ∧ s.msgCnt = 0 then false else s.running) = running
      cases running <;> rfl
  · cases h

/-- The program's own code does not touch `c`; nor does `RunLoop::dequeue`. -/
theorem loopLock_handler {act : HandlerAction} (h : s.handlerStep act = some t) :
    t.loopLock = s.loopLock := by
  unfold handlerStep at h
  split at h
  · split at h
    · exact Option.some.inj h ▸ rfl
    · cases h
  · split at h
    · split_ifs at h
      exact Option.some.inj h ▸ rfl
    · cases h
  · split_ifs at h
    exact Option.some.inj h ▸ rfl
  · split_ifs at h
    exact Option.some.inj h ▸ rfl
  · exact Option.some.inj h ▸ rfl
  · split_ifs at h with hcontrol
    exact Option.some.inj h ▸ loopLock_congr rfl (by rw [hcontrol]; rfl)

/-- **Every step is what it does with `c`.** -/
theorem loopLock_step {act : Action} (h : s.step act = some t) :
    s.loopLock.Leads (s.loopActs act) t.loopLock := by
  cases act with
  | thread i act => exact loopLock_thread h
  | loop act => exact loopLock_loop (step_loop h).2
  | handler act => exact .of_eq (loopLock_handler (step_handler h).2.2)
  | erase =>
      obtain ⟨newEnd, -, rfl⟩ := Option.map_eq_some_iff.mp h
      exact .of_eq (loopLock_congr rfl rfl)

/-! ## Whole runs -/

/-- Only the loop waits. -/
theorem waiter_loopActs (s : State) (act : Action) :
    ∀ a ∈ s.loopActs act, CondVar.Waiter 0 a := by
  rintro a ha u ctor rfl hval
  cases act with
  | thread i act =>
      cases act with
      | lockLoop =>
          -- `enqueue` takes the lock whatever the flag is
          simp only [loopActs, CondVar.locks, List.mem_cons, Condition.Action.begin.injEq,
            reduceCtorEq, List.not_mem_nil, or_false] at ha
          rw [ha.2] at hval
          exact absurd rfl hval
      | begin | enter | setFlag | pushBack | signal | unlockLoop | leave | exit =>
          simp [loopActs] at ha
  | loop act =>
      cases act with
      | beginTurn timed => exact (Condition.Action.begin.inj (List.mem_singleton.mp ha)).1
      | acquire =>
          simp only [loopActs] at ha
          split at ha
          · split_ifs at ha <;> simp at ha
          · simp at ha
      | wake | onCall | release | onTimer | ret | endTurn => simp [loopActs] at ha
  | handler act => simp [loopActs] at ha
  | erase => simp [loopActs] at ha

/-- **A run loop uses its condition as `CondVar` provides it.**  Every run of the loop with any
number of threads is a run of a `CondVar`, with the actions that the steps stand for; and the
loop never sleeps although the flag is true, however many threads call messages at once. -/
theorem loop_condition_run {n : ℕ} {tr : List (State × Action)} (hrun : Runs (init n) tr s) :
    ∃ atr, Condition.Runs (.init false) atr s.loopLock ∧
      actions atr = tr.flatMap (fun p => p.1.loopActs p.2) ∧
      ∀ x ∈ visited atr s.loopLock, ¬ x.Overslept := by
  have hinit : (init n).loopLock = .init false := by
    rw [CondVar.init_eq_oneWaiter]
    refine congrArg (CondVar.oneWaiter false none .out) ?_
    funext i
    unfold threadAtLoop
    cases hi : (init n).threads[i]? with
    | none => rfl
    | some phase =>
        obtain rfl := List.eq_of_mem_replicate (List.mem_of_getElem? hi)
        rfl
  have hsim : ∀ x act y, True → Fires State.step x act y →
      x.loopLock.Leads (x.loopActs act) y.loopLock := fun _ _ _ _ hstep => loopLock_step hstep
  obtain ⟨atr, hatr, hacts⟩ := CondVar.leads_of_run (fun _ _ _ _ _ => trivial) hsim hrun trivial
  rw [hinit] at hatr
  refine ⟨atr, hatr, hacts, CondVar.not_overslept_of_waiter 0 hatr fun a ha => ?_⟩
  rw [hacts] at ha
  obtain ⟨p, -, hmem⟩ := List.mem_flatMap.mp ha
  exact waiter_loopActs p.1 p.2 a hmem

/-- The loop goes to sleep, and a thread calls a message. -/
theorem loop_condition_run_example : ∃ tr s, Runs (init 1) tr s ∧
    ∃ atr, Condition.Runs (.init false) atr s.loopLock ∧
      actions atr = [.begin 0 (.wait true), .lock 0, .begin 1 .plain, .lock 1,
        .set 1 true (some 0), .leave 1, .lock 0, .set 0 false none, .leave 0] ∧
      ∀ x ∈ visited atr s.loopLock, ¬ x.Overslept := by
  let acts : List Action := [.handler (.construct 0), .handler .run, .loop (.beginTurn false),
    .loop .acquire, .thread 0 (.begin 0), .thread 0 .enter, .thread 0 .setFlag,
    .thread 0 .lockLoop, .thread 0 .pushBack, .thread 0 .signal, .thread 0 .unlockLoop,
    .loop .acquire]
  let last : State := (exec State.step (init 1) acts).get (by decide)
  have hlast : exec State.step (init 1) acts = some last := (Option.some_get _).symm
  obtain ⟨hrun, -⟩ := exec_trace _ _ _ _ hlast
  obtain ⟨atr, hatr, hatrActs, hawake⟩ := loop_condition_run hrun
  exact ⟨_, last, hrun, atr, hatr, hatrActs.trans (by decide), hawake⟩

end State

end Messages

end Craplib
