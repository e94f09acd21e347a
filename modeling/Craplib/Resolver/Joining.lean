import Craplib.Resolver.Shutdown

/-!
# The destructor of a worker can deadlock

`~Worker` joins the thread while it holds the lock of `has_work_or_quit`, and a thread that
waits there for work, or is about to, needs this lock to see that it is to end.

`join_completes_iff` says exactly when the destructor gets through: when the thread is past
that lock at the moment `requestTermination` takes effect.

* One way, the destructor takes the lock first (`deadlock_of_before_lock`).
* The other way, a thread that is past the lock and has been told to end (`Leaving`) ends
  without coming back to it: in front of its lookup at `is_destroyed`, behind it in the
  constructor of `ActiveCall`.
-/

namespace Craplib

namespace Resolver

namespace Shutdown

open Machine

/-- The thread holds the mutex of `has_work_or_quit`. -/
def Position.holdsWork : Position → Bool
  | .locked | .checked => true
  | _ => false

/-- The thread holds the mutex of the message. -/
def Position.holdsMsg : Position → Bool
  | .inside _ _ | .called => true
  | _ => false

theorem Position.holdsMsg_cases {p : Position} (h : p.holdsMsg = true) :
    (∃ work res, p = .inside work res) ∨ p = .called := by
  cases p <;> simp [holdsMsg] at h ⊢

/-- The steps a thread that has been told to end has before it, at most; none is left when
it has ended, and from the other positions it would come back to `has_work_or_quit`. -/
def Position.stepsLeft : Position → Option ℕ
  | .checked => some 3
  | .lookingUp _ => some 2
  | .entering _ _ => some 1
  | .locked => some 1
  | .ended => some 0
  | _ => none

/-- `requestTermination` has returned. -/
def Control.told : Control → Bool
  | .requested | .joining | .joined => true
  | _ => false

namespace State

variable {s t : State}

/-! ## What a step does -/

theorem lockWork_cases (h : s.threadStep .lockWork = some t) :
    s.position = .locking ∧ s.workHolder = none ∧
      (s.hasWorkOrQuit = true ∧ t = { s with position := .locked, workHolder := some .worker } ∨
        s.hasWorkOrQuit = false ∧ t = { s with position := .waiting }) := by
  unfold threadStep at h
  dsimp only at h
  split at h
  · next hpos =>
      split_ifs at h with hfree hflag
      · exact ⟨hpos, hfree, .inl ⟨hflag, (Option.some.inj h).symm⟩⟩
      · exact ⟨hpos, hfree, .inr ⟨eq_false_of_ne_true hflag, (Option.some.inj h).symm⟩⟩
  · cases h

theorem check_cases (h : s.threadStep .check = some t) :
    s.position = .locked ∧
      (s.destroyed = true ∧ t = { s with position := .ended, workHolder := none } ∨
        s.destroyed = false ∧ t = { s with position := .checked }) := by
  unfold threadStep at h
  dsimp only at h
  split at h
  · next hpos =>
      split_ifs at h with hgone
      · exact ⟨hpos, .inl ⟨hgone, (Option.some.inj h).symm⟩⟩
      · exact ⟨hpos, .inr ⟨eq_false_of_ne_true hgone, (Option.some.inj h).symm⟩⟩
  · cases h

theorem take_cases (h : s.threadStep .take = some t) :
    s.position = .checked ∧ ∃ hs rest, s.needWork = hs :: rest ∧
      t = { s with position := .lookingUp hs, needWork := rest,
                   hasWorkOrQuit := !rest.isEmpty, workHolder := none } := by
  unfold threadStep at h
  dsimp only at h
  split at h
  · next hs rest hpos hneed => exact ⟨hpos, hs, rest, hneed, (Option.some.inj h).symm⟩
  · cases h

theorem lookup_cases {res : Option AddrInfoPtr} (h : s.threadStep (.lookup res) = some t) :
    ∃ work, s.position = .lookingUp work ∧ t = { s with position := .entering work res } := by
  unfold threadStep at h
  dsimp only at h
  split at h
  · next work hpos => exact ⟨work, hpos, (Option.some.inj h).symm⟩
  · cases h

theorem enter_cases (h : s.threadStep .enter = some t) :
    ∃ work res, s.position = .entering work res ∧ s.msgHolder = none ∧
      (s.called = true ∧ t = { s with position := .asleep work res } ∨
        s.called = false ∧ s.destroyed = true ∧ t = { s with position := .ended } ∨
        s.called = false ∧ s.destroyed = false ∧
          t = { s with position := .inside work res, msgHolder := some .worker }) := by
  unfold threadStep at h
  dsimp only at h
  split at h
  · next work res hpos =>
      refine ⟨work, res, hpos, ?_⟩
      split_ifs at h with hfree hcalled hgone
      · exact ⟨hfree, .inl ⟨hcalled, (Option.some.inj h).symm⟩⟩
      · exact ⟨hfree, .inr (.inl ⟨eq_false_of_ne_true hcalled, hgone,
          (Option.some.inj h).symm⟩)⟩
      · exact ⟨hfree, .inr (.inr ⟨eq_false_of_ne_true hcalled, eq_false_of_ne_true hgone,
          (Option.some.inj h).symm⟩)⟩
  · cases h

theorem publish_cases (h : s.threadStep .publish = some t) :
    ∃ work res, s.position = .inside work res ∧
      t = { s with position := .called, res := res, resWork := work, called := true,
                   queued := true } := by
  unfold threadStep at h
  dsimp only at h
  split at h
  · next work res hpos => exact ⟨work, res, hpos, (Option.some.inj h).symm⟩
  · cases h

theorem leave_cases (h : s.threadStep .leave = some t) :
    s.position = .called ∧ t = { s with position := .locking, msgHolder := none } := by
  unfold threadStep at h
  dsimp only at h
  split at h
  · next hpos => exact ⟨hpos, (Option.some.inj h).symm⟩
  · cases h

/-- A step that a condition guards. -/
theorem guarded_cases {c : Prop} [Decidable c] {u : State}
    (h : (if c then some u else none) = some t) : c ∧ t = u := by
  split_ifs at h with hc
  exact ⟨hc, (Option.some.inj h).symm⟩

theorem startWork_cases {addr : Addr} {hs : HostService}
    (h : s.loopStep (.startWork addr hs) = some t) :
    (s.control = .idle ∨ s.control = .inCall) ∧ s.workHolder = none ∧
      t = signalWork { s with addr := some addr, needWork := s.needWork ++ [hs],
                              hasWorkOrQuit := true } := by
  obtain ⟨⟨hcontrol, hfree⟩, ht⟩ := guarded_cases h
  exact ⟨hcontrol, hfree, ht⟩

theorem requestTermination_cases (h : s.loopStep .requestTermination = some t) :
    s.control = .destroying ∧ s.msgHolder = none ∧
      t = signalMsg { s with control := .requested, destroyed := true, called := false } := by
  obtain ⟨⟨hcontrol, hfree⟩, ht⟩ := guarded_cases h
  exact ⟨hcontrol, hfree, ht⟩

theorem release_cases (h : s.loopStep .release = some t) :
    s.control = .releasing ∧ s.msgHolder = none ∧
      t = signalMsg { s with control := .idle, called := false } := by
  obtain ⟨⟨hcontrol, hfree⟩, ht⟩ := guarded_cases h
  exact ⟨hcontrol, hfree, ht⟩

theorem quit_cases (h : s.loopStep .quit = some t) :
    s.control = .requested ∧ s.workHolder = none ∧
      t = signalWork { s with control := .joining, hasWorkOrQuit := true,
                              workHolder := some .loop } := by
  obtain ⟨⟨hcontrol, hfree⟩, ht⟩ := guarded_cases h
  exact ⟨hcontrol, hfree, ht⟩

theorem join_cases (h : s.loopStep .join = some t) :
    s.control = .joining ∧ s.position = .ended ∧
      t = { s with control := .joined, workHolder := none } := by
  obtain ⟨⟨hcontrol, hended⟩, ht⟩ := guarded_cases h
  exact ⟨hcontrol, hended, ht⟩

/-- The steps of the run loop's thread that touch neither condition. -/
theorem turn_cases {act : LoopAction} (hact : act = .deliver ∨ act = .ret ∨ act = .destroy)
    (h : s.loopStep act = some t) : s.control.told = false ∧ t.control.told = false ∧
      ∃ queued, t = { s with control := t.control, queued := queued } := by
  rcases hact with rfl | rfl | rfl
  · obtain ⟨⟨hcontrol, -⟩, rfl⟩ := guarded_cases h
    exact ⟨by rw [hcontrol]; rfl, rfl, false, rfl⟩
  · obtain ⟨hcontrol, rfl⟩ := guarded_cases h
    exact ⟨by rw [hcontrol]; rfl, rfl, s.queued, rfl⟩
  · obtain ⟨hcontrol, rfl⟩ := guarded_cases h
    refine ⟨?_, rfl, s.queued, rfl⟩
    rcases hcontrol with hcontrol | hcontrol <;> rw [hcontrol] <;> rfl

/-- Once the thread has been told to end, the run loop's thread only goes on in the
destructor. -/
theorem loop_told {act : LoopAction} (htold : s.control.told = true)
    (h : s.loopStep act = some t) : act = .quit ∨ act = .join := by
  have hturn : ¬ (act = .deliver ∨ act = .ret ∨ act = .destroy) := by
    intro hact
    obtain ⟨hbefore, -⟩ := turn_cases hact h
    rw [hbefore] at htold
    cases htold
  cases act with
  | startWork addr hs =>
      obtain ⟨hcontrol, -⟩ := startWork_cases h
      rcases hcontrol with hcontrol | hcontrol <;> rw [hcontrol] at htold <;> cases htold
  | deliver => exact absurd (.inl rfl) hturn
  | ret => exact absurd (.inr (.inl rfl)) hturn
  | destroy => exact absurd (.inr (.inr rfl)) hturn
  | release =>
      obtain ⟨hcontrol, -⟩ := release_cases h
      rw [hcontrol] at htold
      cases htold
  | requestTermination =>
      obtain ⟨hcontrol, -⟩ := requestTermination_cases h
      rw [hcontrol] at htold
      cases htold
  | quit => exact .inl rfl
  | join => exact .inr rfl

/-! ## Who holds what -/

/-- What holds in every state: who holds which mutex, and that there is work for a thread
that has been let in. -/
structure Ok (s : State) : Prop where
  workHolder : s.workHolder = if s.position.holdsWork then some .worker
    else if s.control = .joining then some .loop else none
  apart : s.position.holdsWork = true → s.control ≠ .joining
  msgHolder : s.msgHolder = if s.position.holdsMsg then some .worker else none
  told : s.destroyed = s.control.told
  /-- Before the destructor sets it, the flag stands for work. -/
  work : s.hasWorkOrQuit = true → s.control = .joining ∨ s.control = .joined ∨ s.needWork ≠ []
  loaded : s.position.holdsWork = true → s.needWork ≠ []
  ended : s.control = .joined → s.position = .ended
  /-- A thread that is inside an `ActiveCall` has not called the message yet. -/
  uncalled : ∀ work res, s.position = .inside work res → s.called = false

theorem Ok.init : State.init.Ok :=
  ⟨rfl, by decide, rfl, rfl, by decide, by decide, by decide, fun _ _ h => by cases h⟩

/-- The thread has gone from a position to another one that holds the same. -/
theorem Ok.move (h : s.Ok) (hlive : s.position ≠ .ended)
    (hwork : t.position.holdsWork = s.position.holdsWork)
    (hmsg : t.position.holdsMsg = s.position.holdsMsg)
    (hin : ∀ work res, t.position ≠ .inside work res)
    (hsame : (t.control, t.workHolder, t.msgHolder, t.destroyed, t.hasWorkOrQuit, t.needWork) =
      (s.control, s.workHolder, s.msgHolder, s.destroyed, s.hasWorkOrQuit, s.needWork)) :
    t.Ok := by
  simp only [Prod.mk.injEq] at hsame
  obtain ⟨hcontrol, hwh, hmh, hgone, hflag, hneed⟩ := hsame
  constructor
  · rw [hwh, hwork, hcontrol, h.workHolder]
  · rw [hwork, hcontrol]
    exact h.apart
  · rw [hmh, hmsg, h.msgHolder]
  · rw [hgone, hcontrol, h.told]
  · rw [hflag, hcontrol, hneed]
    exact h.work
  · rw [hwork, hneed]
    exact h.loaded
  · rw [hcontrol]
    exact fun hc => absurd (h.ended hc) hlive
  · exact fun work res hpos => absurd hpos (hin work res)

theorem Ok.signalWork (h : s.Ok) : s.signalWork.Ok := by
  unfold State.signalWork
  split
  · next hpos => exact h.move (by simp [hpos]) (by rw [hpos]; rfl) (by rw [hpos]; rfl) (by simp) rfl
  · exact h

theorem Ok.signalMsg (h : s.Ok) : s.signalMsg.Ok := by
  unfold State.signalMsg
  split
  · next hpos => exact h.move (by simp [hpos]) (by rw [hpos]; rfl) (by rw [hpos]; rfl) (by simp) rfl
  · exact h

theorem Ok.thread {act : ThreadAction} (h : s.Ok) (hstep : s.threadStep act = some t) : t.Ok := by
  cases act with
  | lockWork =>
      obtain ⟨hpos, hfree, ⟨hset, rfl⟩ | ⟨-, rfl⟩⟩ := lockWork_cases hstep
      · -- it is let in: nobody held the mutex, so the destructor has not come this far
        have hout : s.control ≠ .joining := by
          intro hjoin
          have hwork := h.workHolder
          rw [hfree, hpos, hjoin] at hwork
          cases hwork
        have hlive : s.control ≠ .joined := fun hc => by simpa [hpos] using h.ended hc
        have hneed : s.needWork ≠ [] := by simpa [hout, hlive] using h.work hset
        have hmsg := h.msgHolder
        rw [hpos] at hmsg
        exact ⟨rfl, fun _ => hout, hmsg, h.told, h.work, fun _ => hneed,
          fun hc => absurd hc hlive, by simp⟩
      · exact h.move (by simp [hpos]) (by rw [hpos]; rfl) (by rw [hpos]; rfl) (by simp) rfl
  | check =>
      obtain ⟨hpos, ⟨-, rfl⟩ | ⟨-, rfl⟩⟩ := check_cases hstep
      · have hout : s.control ≠ .joining := h.apart (by rw [hpos]; rfl)
        have hmsg := h.msgHolder
        rw [hpos] at hmsg
        exact ⟨(if_neg hout).symm, by simp [Position.holdsWork], hmsg, h.told, h.work,
          by simp [Position.holdsWork], fun _ => rfl, by simp⟩
      · exact h.move (by simp [hpos]) (by rw [hpos]; rfl) (by rw [hpos]; rfl) (by simp) rfl
  | take =>
      obtain ⟨hpos, hs, rest, hneed, rfl⟩ := take_cases hstep
      have hout : s.control ≠ .joining := h.apart (by rw [hpos]; rfl)
      have hmsg := h.msgHolder
      rw [hpos] at hmsg
      refine ⟨(if_neg hout).symm, by simp [Position.holdsWork], hmsg, h.told, fun hset => ?_,
        by simp [Position.holdsWork], fun hc => by simpa [hpos] using h.ended hc, by simp⟩
      exact .inr (.inr (by simpa using hset))
  | lookup res =>
      obtain ⟨work, hpos, rfl⟩ := lookup_cases hstep
      exact h.move (by simp [hpos]) (by rw [hpos]; rfl) (by rw [hpos]; rfl) (by simp) rfl
  | enter =>
      obtain ⟨work, res, hpos, hfree, ⟨-, rfl⟩ | ⟨-, -, rfl⟩ | ⟨hcalled, -, rfl⟩⟩ :=
        enter_cases hstep
      · exact h.move (by simp [hpos]) (by rw [hpos]; rfl) (by rw [hpos]; rfl) (by simp) rfl
      · exact h.move (by simp [hpos]) (by rw [hpos]; rfl) (by rw [hpos]; rfl) (by simp) rfl
      · have hwork := h.workHolder
        rw [hpos] at hwork
        exact ⟨hwork, by simp [Position.holdsWork], rfl, h.told, h.work,
          by simp [Position.holdsWork], fun hc => by simpa [hpos] using h.ended hc,
          fun _ _ _ => hcalled⟩
  | publish =>
      obtain ⟨work, res, hpos, rfl⟩ := publish_cases hstep
      exact h.move (by simp [hpos]) (by rw [hpos]; rfl) (by rw [hpos]; rfl) (by simp) rfl
  | leave =>
      obtain ⟨hpos, rfl⟩ := leave_cases hstep
      have hwork := h.workHolder
      rw [hpos] at hwork
      exact ⟨hwork, by simp [Position.holdsWork], rfl, h.told, h.work,
        by simp [Position.holdsWork], fun hc => by simpa [hpos] using h.ended hc, by simp⟩

theorem Ok.loop {act : LoopAction} (h : s.Ok) (hstep : s.loopStep act = some t) : t.Ok := by
  have hturn : (act = .deliver ∨ act = .ret ∨ act = .destroy) → t.Ok := by
    intro hact
    obtain ⟨hbefore, hafter, queued, heq⟩ := turn_cases hact hstep
    have hout : ∀ c : Control, c.told = false → c ≠ .joining ∧ c ≠ .joined := by
      intro c hc
      cases c <;> simp [Control.told] at hc ⊢
    obtain ⟨hjoin, hgone⟩ := hout _ hbefore
    obtain ⟨hjoin', hgone'⟩ := hout _ hafter
    rw [heq]
    refine ⟨?_, fun _ => hjoin', h.msgHolder, ?_, fun hset => ?_, h.loaded,
      fun hc => absurd hc hgone', h.uncalled⟩
    · rw [if_neg hjoin']
      have hwork := h.workHolder
      rwa [if_neg hjoin] at hwork
    · exact h.told.trans (hbefore.trans hafter.symm)
    · exact .inr (.inr (by simpa [hjoin, hgone] using h.work hset))
  cases act with
  | startWork addr hs =>
      obtain ⟨hcontrol, hfree, rfl⟩ := startWork_cases hstep
      refine Ok.signalWork ⟨h.workHolder, h.apart, h.msgHolder, h.told, fun _ => ?_, fun _ => ?_,
        h.ended, h.uncalled⟩
      · exact .inr (.inr (by simp))
      · simp
  | deliver => exact hturn (.inl rfl)
  | ret => exact hturn (.inr (.inl rfl))
  | destroy => exact hturn (.inr (.inr rfl))
  | release =>
      obtain ⟨hcontrol, -, rfl⟩ := release_cases hstep
      have hwork := h.workHolder
      rw [hcontrol] at hwork
      refine Ok.signalMsg ⟨hwork, by simp, h.msgHolder, ?_, fun hset => ?_, h.loaded, by simp,
        fun _ _ _ => rfl⟩
      · exact h.told.trans (by rw [hcontrol]; rfl)
      · exact .inr (.inr (by simpa [hcontrol] using h.work hset))
  | requestTermination =>
      obtain ⟨hcontrol, -, rfl⟩ := requestTermination_cases hstep
      have hwork := h.workHolder
      rw [hcontrol] at hwork
      refine Ok.signalMsg ⟨hwork, by simp, h.msgHolder, rfl, fun hset => ?_, h.loaded, by simp,
        fun _ _ _ => rfl⟩
      exact .inr (.inr (by simpa [hcontrol] using h.work hset))
  | quit =>
      obtain ⟨hcontrol, hfree, rfl⟩ := quit_cases hstep
      have hout : s.position.holdsWork = false := by
        by_contra hin
        have hwork := h.workHolder
        rw [hfree, if_pos (by simpa using hin)] at hwork
        cases hwork
      refine Ok.signalWork ⟨?_, ?_, h.msgHolder, ?_, fun _ => .inl rfl, h.loaded, by simp,
        h.uncalled⟩
      · simp [hout]
      · simp [hout]
      · exact h.told.trans (by rw [hcontrol]; rfl)
  | join =>
      obtain ⟨hcontrol, hpos, rfl⟩ := join_cases hstep
      refine ⟨?_, by simp, h.msgHolder, ?_, fun _ => .inr (.inl rfl), h.loaded, fun _ => hpos,
        h.uncalled⟩
      · simp [hpos, Position.holdsWork]
      · exact h.told.trans (by rw [hcontrol]; rfl)

theorem Ok.step {act : Action} (h : s.Ok) (hstep : s.step act = some t) : t.Ok := by
  cases act with
  | thread act => exact h.thread hstep
  | loop act => exact h.loop hstep
  | wake =>
      unfold State.step at hstep
      dsimp only at hstep
      split at hstep
      · exact Option.some.inj hstep ▸ h.signalWork
      · exact Option.some.inj hstep ▸ h.signalMsg
      · cases hstep

theorem ok_of_run {tr : List (State × Action)} (hrun : Runs .init tr s) : s.Ok :=
  hrun.invariant (fun _ _ _ h hstep => h.step hstep) Ok.init

/-! ## The worker in the pool -/

/-- Until it is told to end, the thread does to its worker what the steps of the pool do:
it takes a lookup, or publishes a result, or leaves the worker as it is. -/
theorem thread_in_pool {act : ThreadAction} (h : s.Ok) (hstep : s.threadStep act = some t)
    (hlive : s.destroyed = false) {pool : Resolver.State} {k : ℕ}
    (hk : pool.worker k = s.worker) :
    t.worker = s.worker ∨ (∃ pool', pool.take k = some pool' ∧ pool'.worker k = t.worker) ∨
      ∃ res pool', pool.publish k res = some pool' ∧ pool'.worker k = t.worker := by
  cases act with
  | lockWork =>
      obtain ⟨hpos, -, ⟨-, rfl⟩ | ⟨-, rfl⟩⟩ := lockWork_cases hstep <;>
        exact .inl (by simp [worker, hpos])
  | check =>
      obtain ⟨hpos, ⟨hgone, -⟩ | ⟨-, rfl⟩⟩ := check_cases hstep
      · rw [hlive] at hgone
        cases hgone
      · exact .inl (by simp [worker, hpos])
  | take =>
      obtain ⟨hpos, hs, rest, hneed, rfl⟩ := take_cases hstep
      refine .inr (.inl ⟨pool.setWorker k { s.worker with
        localWork := some hs, needWork := rest }, ?_, ?_⟩)
      · simp [Resolver.State.take, hk, worker, hpos, hneed]
      · simp [Resolver.State.setWorker, worker]
  | lookup res =>
      obtain ⟨work, hpos, rfl⟩ := lookup_cases hstep
      exact .inl (by simp [worker, hpos])
  | enter =>
      obtain ⟨work, res, hpos, -, ⟨-, rfl⟩ | ⟨-, hgone, -⟩ | ⟨-, -, rfl⟩⟩ := enter_cases hstep
      · exact .inl (by simp [worker, hpos])
      · rw [hlive] at hgone
        cases hgone
      · exact .inl (by simp [worker, hpos])
  | publish =>
      obtain ⟨work, res, hpos, rfl⟩ := publish_cases hstep
      have hcalled : s.called = false := h.uncalled work res hpos
      refine .inr (.inr ⟨res, { pool.setWorker k { s.worker with
        localWork := none, res := res, resWork := work, called := true } with
        queue := pool.queue ++ [k] }, ?_, ?_⟩)
      · simp [Resolver.State.publish, Resolver.State.setWorker, hk, worker, hpos, hcalled]
      · simp [Resolver.State.setWorker, worker]
  | leave =>
      obtain ⟨hpos, rfl⟩ := leave_cases hstep
      exact .inl (by simp [worker, hpos])

/-! ## A thread that is past the lock -/

/-- The thread has been told to end, and is where it will see this before it needs the lock
of `has_work_or_quit` again. -/
structure Leaving (s : State) : Prop where
  ok : s.Ok
  gone : s.destroyed = true
  quiet : s.called = false
  leaving : s.position.stepsLeft ≠ none

theorem Leaving.told (h : s.Leaving) : s.control.told = true := h.ok.told.symm.trans h.gone

theorem signalWork_eq (hpos : s.position ≠ .waiting) : s.signalWork = s := by
  unfold signalWork
  split
  · next hwait => exact absurd hwait hpos
  · rfl

/-- It ends, and only the destructor goes on beside it. -/
theorem Leaving.step {act : Action} (h : s.Leaving) (hstep : s.step act = some t) :
    t.Leaving := by
  have hok := h.ok.step hstep
  cases act with
  | thread act =>
      cases act with
      | lockWork =>
          obtain ⟨hpos, -⟩ := lockWork_cases hstep
          exact absurd h.leaving (by simp [hpos, Position.stepsLeft])
      | check =>
          obtain ⟨-, ⟨-, rfl⟩ | ⟨hgone, -⟩⟩ := check_cases hstep
          · exact ⟨hok, h.gone, h.quiet, by simp [Position.stepsLeft]⟩
          · exact absurd h.gone (by simp [hgone])
      | take =>
          obtain ⟨-, hs, rest, -, rfl⟩ := take_cases hstep
          exact ⟨hok, h.gone, h.quiet, by simp [Position.stepsLeft]⟩
      | lookup res =>
          obtain ⟨work, -, rfl⟩ := lookup_cases hstep
          exact ⟨hok, h.gone, h.quiet, by simp [Position.stepsLeft]⟩
      | enter =>
          obtain ⟨work, res, -, -, ⟨hcalled, -⟩ | ⟨-, -, rfl⟩ | ⟨-, hgone, -⟩⟩ :=
            enter_cases hstep
          · exact absurd h.quiet (by simp [hcalled])
          · exact ⟨hok, h.gone, h.quiet, by simp [Position.stepsLeft]⟩
          · exact absurd h.gone (by simp [hgone])
      | publish =>
          obtain ⟨work, res, hpos, -⟩ := publish_cases hstep
          exact absurd h.leaving (by simp [hpos, Position.stepsLeft])
      | leave =>
          obtain ⟨hpos, -⟩ := leave_cases hstep
          exact absurd h.leaving (by simp [hpos, Position.stepsLeft])
  | loop act =>
      rcases loop_told h.told hstep with rfl | rfl
      · have hpos : s.position ≠ .waiting := by
          intro hwait
          exact h.leaving (by rw [hwait]; rfl)
        obtain ⟨-, -, ht⟩ := quit_cases hstep
        obtain rfl := ht.trans (signalWork_eq hpos)
        exact ⟨hok, h.gone, h.quiet, h.leaving⟩
      · obtain ⟨-, -, rfl⟩ := join_cases hstep
        exact ⟨hok, h.gone, h.quiet, h.leaving⟩
  | wake =>
      have hpos := h.leaving
      unfold State.step at hstep
      dsimp only at hstep
      split at hstep
      · next heq => exact absurd hpos (by simp [heq, Position.stepsLeft])
      · next heq => exact absurd hpos (by simp [heq, Position.stepsLeft])
      · cases hstep

/-- The steps the destructor has before it. -/
def turnsLeft (s : State) : ℕ :=
  match s.control with
  | .requested => 2
  | .joining => 1
  | _ => 0

/-- The next step of a thread that has been told to end. -/
theorem Leaving.thread_progress (h : s.Leaving) (hpos : s.position ≠ .ended) :
    ∃ act t, s.threadStep act = some t ∧ t.control = s.control ∧
      t.position.stepsLeft.getD 0 < s.position.stepsLeft.getD 0 := by
  have hleaving := h.leaving
  cases hp : s.position with
  | locked =>
      refine ⟨.check, { s with position := .ended, workHolder := none }, ?_, rfl, ?_⟩
      · simp [threadStep, hp, h.gone]
      · simp [Position.stepsLeft]
  | checked =>
      have hneed : s.needWork ≠ [] := h.ok.loaded (by rw [hp]; rfl)
      obtain ⟨work, rest, hcons⟩ := List.exists_cons_of_ne_nil hneed
      refine ⟨.take, { s with
        position := .lookingUp work
        needWork := rest
        hasWorkOrQuit := !rest.isEmpty
        workHolder := none }, ?_, rfl, ?_⟩
      · simp [threadStep, hp, hcons]
      · simp [Position.stepsLeft]
  | lookingUp work =>
      refine ⟨.lookup none, { s with position := .entering work none }, ?_, rfl, ?_⟩
      · simp [threadStep, hp]
      · simp [Position.stepsLeft]
  | entering work res =>
      have hfree : s.msgHolder = none := by
        rw [h.ok.msgHolder, hp]
        rfl
      refine ⟨.enter, { s with position := .ended }, ?_, rfl, ?_⟩
      · simp [threadStep, hp, hfree, h.quiet, h.gone]
      · simp [Position.stepsLeft]
  | ended => exact absurd hp hpos
  | locking => exact absurd hleaving (by simp [hp, Position.stepsLeft])
  | waiting => exact absurd hleaving (by simp [hp, Position.stepsLeft])
  | asleep work res => exact absurd hleaving (by simp [hp, Position.stepsLeft])
  | inside work res => exact absurd hleaving (by simp [hp, Position.stepsLeft])
  | called => exact absurd hleaving (by simp [hp, Position.stepsLeft])

theorem Leaving.not_deadlocked (h : s.Leaving) : ¬ s.Deadlocked := by
  rintro ⟨-, hpos, hstuck⟩
  obtain ⟨act, t, hstep, -⟩ := h.thread_progress hpos
  rw [hstuck act] at hstep
  cases hstep

/-- Until the join is complete, the thread or the destructor gets on. -/
theorem Leaving.progress (h : s.Leaving) (hjoin : s.control ≠ .joined) :
    ∃ act t, s.step act = some t ∧ t.Leaving ∧
      t.position.stepsLeft.getD 0 + t.turnsLeft < s.position.stepsLeft.getD 0 + s.turnsLeft := by
  by_cases hpos : s.position = .ended
  · have htold := h.told
    cases hc : s.control with
    | requested =>
        have hfree : s.workHolder = none := by
          rw [h.ok.workHolder, hpos, hc]
          rfl
        have hstep : s.step (.loop .quit) = some
            { s with control := .joining, hasWorkOrQuit := true, workHolder := some .loop } := by
          simp [State.step, loopStep, hc, hfree, signalWork, hpos]
        exact ⟨_, _, hstep, h.step hstep, by simp [turnsLeft, hc]⟩
    | joining =>
        have hstep : s.step (.loop .join) = some
            { s with control := .joined, workHolder := none } := by
          simp [State.step, loopStep, hc, hpos]
        exact ⟨_, _, hstep, h.step hstep, by simp [turnsLeft, hc]⟩
    | joined => exact absurd hc hjoin
    | idle => rw [hc] at htold; cases htold
    | inCall => rw [hc] at htold; cases htold
    | releasing => rw [hc] at htold; cases htold
    | destroying => rw [hc] at htold; cases htold
  · obtain ⟨act, t, hstep, hcontrol, hlt⟩ := h.thread_progress hpos
    have hstep' : s.step (.thread act) = some t := hstep
    refine ⟨.thread act, t, hstep', h.step hstep', ?_⟩
    have hturns : t.turnsLeft = s.turnsLeft := by simp [turnsLeft, hcontrol]
    omega

theorem Leaving.run {tr : List (State × Action)} (h : s.Leaving) (hrun : Runs s tr t) :
    t.Leaving :=
  hrun.invariant (fun _ _ _ h hstep => h.step hstep) h

/-- From where it is, the join can come to its end. -/
theorem Leaving.joins (h : s.Leaving) : ∃ tr t, Runs s tr t ∧ t.control = .joined := by
  have hreach : ∃ tr t, Runs s tr t ∧ t.Leaving ∧ t.control = .joined :=
    Run.exists_goal (fun t => t.position.stepsLeft.getD 0 + t.turnsLeft)
      (fun _ h hgoal => h.progress hgoal) h
  obtain ⟨tr, t, hrun, -, hgoal⟩ := hreach
  exact ⟨tr, t, hrun, hgoal⟩

/-! ## The request -/

theorem threadStep_control {act : ThreadAction} (h : s.threadStep act = some t) :
    t.control = s.control := by
  cases act with
  | lockWork =>
      obtain ⟨-, -, ⟨-, rfl⟩ | ⟨-, rfl⟩⟩ := lockWork_cases h
      · rfl
      · rfl
  | check =>
      obtain ⟨-, ⟨-, rfl⟩ | ⟨-, rfl⟩⟩ := check_cases h
      · rfl
      · rfl
  | take =>
      obtain ⟨-, hs, rest, -, rfl⟩ := take_cases h
      rfl
  | lookup res =>
      obtain ⟨work, -, rfl⟩ := lookup_cases h
      rfl
  | enter =>
      obtain ⟨work, res, -, -, ⟨-, rfl⟩ | ⟨-, -, rfl⟩ | ⟨-, -, rfl⟩⟩ := enter_cases h
      · rfl
      · rfl
      · rfl
  | publish =>
      obtain ⟨work, res, -, rfl⟩ := publish_cases h
      rfl
  | leave =>
      obtain ⟨-, rfl⟩ := leave_cases h
      rfl

theorem signalWork_control (s : State) : s.signalWork.control = s.control := by
  unfold signalWork
  split
  · rfl
  · rfl

theorem signalMsg_control (s : State) : s.signalMsg.control = s.control := by
  unfold signalMsg
  split
  · rfl
  · rfl

theorem signalMsg_destroyed (s : State) : s.signalMsg.destroyed = s.destroyed := by
  unfold signalMsg
  split
  · rfl
  · rfl

theorem signalMsg_called (s : State) : s.signalMsg.called = s.called := by
  unfold signalMsg
  split
  · rfl
  · rfl

/-- What has been asked for stays asked for. -/
theorem told_step {act : Action} (htold : s.control.told = true) (hstep : s.step act = some t) :
    t.control.told = true := by
  cases act with
  | thread act =>
      rw [threadStep_control hstep]
      exact htold
  | loop act =>
      rcases loop_told htold hstep with rfl | rfl
      · obtain ⟨-, -, rfl⟩ := quit_cases hstep
        rw [signalWork_control]
        rfl
      · obtain ⟨-, -, rfl⟩ := join_cases hstep
        rfl
  | wake =>
      unfold State.step at hstep
      dsimp only at hstep
      split at hstep
      · rw [← Option.some.inj hstep, signalWork_control]
        exact htold
      · rw [← Option.some.inj hstep, signalMsg_control]
        exact htold
      · cases hstep

/-- Before the request, the thread that the destructor waits for is inside an `ActiveCall`,
and comes out of it. -/
theorem Ok.not_deadlocked (h : s.Ok) (htold : s.control.told = false) : ¬ s.Deadlocked := by
  rintro ⟨⟨-, hheld⟩ | ⟨hcontrol, -⟩ | hcontrol, -, hstuck⟩
  · have hinside : s.position.holdsMsg = true := by
      by_contra hout
      rw [h.msgHolder, if_neg hout] at hheld
      cases hheld
    rcases Position.holdsMsg_cases hinside with ⟨work, res, hpos⟩ | hpos
    · simpa [threadStep, hpos] using hstuck .publish
    · simpa [threadStep, hpos] using hstuck .leave
  · rw [hcontrol] at htold
    cases htold
  · rw [hcontrol] at htold
    cases htold

/-- The request finds the thread past the lock: it will leave. -/
theorem leaving_of_request (h : s.Ok) (hpast : s.PastLock)
    (hstep : s.step (.loop .requestTermination) = some t) : t.Leaving := by
  have hok := h.step hstep
  obtain ⟨-, hfree, rfl⟩ := requestTermination_cases hstep
  have hout : s.position.holdsMsg = false := by
    by_contra hin
    have hmsg := h.msgHolder
    rw [hfree, if_pos (by simpa using hin)] at hmsg
    cases hmsg
  refine ⟨hok, by rw [signalMsg_destroyed], by rw [signalMsg_called], ?_⟩
  unfold signalMsg
  split
  · simp [Position.stepsLeft]
  · next hawake =>
      dsimp only at hawake ⊢
      cases hpos : s.position with
      | locked => simp [Position.stepsLeft]
      | checked => simp [Position.stepsLeft]
      | lookingUp work => simp [Position.stepsLeft]
      | entering work res => simp [Position.stepsLeft]
      | ended => simp [Position.stepsLeft]
      | asleep work res => exact (hawake work res hpos).elim
      | locking => exact absurd hpos hpast.1
      | waiting => exact absurd hpos hpast.2
      | inside work res => simp [hpos, Position.holdsMsg] at hout
      | called => simp [hpos, Position.holdsMsg] at hout

/-- A thread that is about to take the lock of `has_work_or_quit`, or wait there, may be too
late: the destructor takes it first, and keeps it. -/
theorem deadlock_of_before_lock (h : s.Ok) (hbefore : ¬ s.PastLock)
    (hstep : s.step (.loop .requestTermination) = some t) :
    ∃ u, Runs t [(t, .loop .quit)] u ∧ u.Deadlocked := by
  obtain ⟨hcontrol, -, rfl⟩ := requestTermination_cases hstep
  have hpos : s.position = .locking ∨ s.position = .waiting := by
    unfold PastLock at hbefore
    tauto
  have hfree : s.workHolder = none := by
    rw [h.workHolder, hcontrol]
    rcases hpos with hpos | hpos <;> rw [hpos] <;> rfl
  refine ⟨{ s with
    position := .locking
    control := .joining
    destroyed := true
    called := false
    hasWorkOrQuit := true
    workHolder := some .loop }, .single ?_, .inr (.inr rfl), by simp, fun act => ?_⟩
  · rcases hpos with hpos | hpos <;>
      simp [Fires, State.step, loopStep, signalMsg, signalWork, hpos, hfree]
  · cases act <;> simp [threadStep]

/-! ## The destructor -/

/-- **When the destructor gets through.**  It never waits in vain for the lock of the
message.  Once its request has taken effect, there is no deadlock, and the join can always
come to its end, exactly when the thread was past the lock of `has_work_or_quit`. -/
theorem join_completes_iff {tr : List (State × Action)} (hrun : Runs .init tr s)
    (hstep : s.step (.loop .requestTermination) = some t) :
    (∀ x ∈ visited tr s, ¬ x.Deadlocked) ∧
      ((∀ tr' u, Runs t tr' u →
        ¬ u.Deadlocked ∧ ∃ tr'' v, Runs u tr'' v ∧ v.control = .joined) ↔ s.PastLock) := by
  constructor
  · intro x hx
    obtain ⟨pre, -, hpre⟩ := hrun.of_mem_visited hx
    obtain ⟨hcontrol, -⟩ := requestTermination_cases hstep
    have htold : ¬ x.control.told = true :=
      hrun.not_visited (fun _ _ _ h hstep => told_step h hstep)
        (by rw [hcontrol]; exact Bool.false_ne_true) x hx
    exact (ok_of_run hpre).not_deadlocked (eq_false_of_ne_true htold)
  · have hok := ok_of_run hrun
    constructor
    · intro hgood
      by_contra hbefore
      obtain ⟨u, hquit, hdead⟩ := deadlock_of_before_lock hok hbefore hstep
      exact (hgood _ u hquit).1 hdead
    · intro hpast tr' u hrun'
      have hleaving := (leaving_of_request hok hpast hstep).run hrun'
      exact ⟨hleaving.not_deadlocked, hleaving.joins⟩

/-- The worker is destroyed while its thread is in a lookup, with another one queued. -/
theorem join_completes_iff_example :
    ∃ tr s t, Runs .init tr s ∧ s.step (.loop .requestTermination) = some t ∧
      s.needWork ≠ [] ∧ (∀ x ∈ visited tr s, ¬ x.Deadlocked) ∧
      ∀ tr' u, Runs t tr' u →
        ¬ u.Deadlocked ∧ ∃ tr'' v, Runs u tr'' v ∧ v.control = .joined := by
  let as : List Action :=
    [.loop (.startWork 1 ⟨"a", "http"⟩), .loop (.startWork 1 ⟨"b", "http"⟩), .thread .lockWork,
      .thread .check, .thread .take, .loop .destroy]
  let s := (exec State.step .init as).get (by decide)
  have hs : exec State.step .init as = some s := (Option.some_get _).symm
  have hrun := (exec_trace _ _ _ _ hs).1
  let t := (s.step (.loop .requestTermination)).get (by decide)
  have ht : s.step (.loop .requestTermination) = some t := (Option.some_get _).symm
  obtain ⟨hbefore, hafter⟩ := join_completes_iff hrun ht
  exact ⟨_, s, t, hrun, ht, by decide, hbefore, hafter.mpr ⟨by decide, by decide⟩⟩

/-- **The join waits forever.**  The thread waits for work; the destructor asks it to end,
takes the lock, and joins. -/
theorem idle_worker_deadlocks :
    ∃ tr s, Runs .init tr s ∧ actions tr = [.thread .lockWork, .loop .destroy,
        .loop .requestTermination, .loop .quit] ∧ s.control = .joining ∧ s.Deadlocked := by
  let as : List Action :=
    [.thread .lockWork, .loop .destroy, .loop .requestTermination, .loop .quit]
  let s := (exec State.step .init as).get (by decide)
  have hs : exec State.step .init as = some s := (Option.some_get _).symm
  obtain ⟨hrun, hacts⟩ := exec_trace _ _ _ _ hs
  refine ⟨_, s, hrun, hacts, by decide, .inr (.inr (by decide)), by decide, fun act => ?_⟩
  cases act <;> rfl

end State

end Shutdown

end Resolver

end Craplib
