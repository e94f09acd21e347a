import Craplib.Socket.EpollSteps

/-!
# The end of the socket worker

The destructor of the last socket deletes the worker, and `~SocketWorker` asks the thread to
end and joins it.  The thread may be in `epoll_wait` then, in the constructor of
`ActiveCall`, or at work on a batch.  This module follows it there: `State` is `Epoll.State`
with what the two threads and the kernel share beside it, and `worker_run` says that a run
here, seen without that, is a run of `Epoll.Runs`.

* `StaticRefCounted` is the last base of a socket, `SocketImpl` with the descriptor the one
  before: when `~SocketWorker` runs, the descriptor of the last socket is still open, and
  `epoll_wait` still waits for it.  The other sockets have closed theirs.
* `requestTermination` signals the condition of the message.  `epoll_wait` does not know
  of it.

`hangs_iff` says when the join never comes back unless the network helps: exactly when the
request finds the thread in `epoll_wait` with nothing there to report.
-/

namespace Craplib

namespace Epoll

namespace Shutdown

open Machine

/-! ## The thread, the kernel and the destructor -/

/-- Where the thread of the worker is in `run`. -/
inductive Position
  /-- At `epoll_wait`. -/
  | polling
  /-- It needs the mutex of the message, in the constructor of `ActiveCall`. -/
  | entering (batch : Batch)
  /-- In `Threads::wait`, there. -/
  | asleep (batch : Batch)
  /-- The constructor of `ActiveCall` has returned; the thread holds the mutex. -/
  | inside (batch : Batch)
  | ended

/-- Where `~SocketWorker` is, called by the destructor of the socket at an address. -/
inductive Teardown
  /-- At `t.requestTermination()`. -/
  | requesting (a : SocketPtr)
  /-- At `t.waitTermination()`. -/
  | joining (a : SocketPtr)
deriving DecidableEq

/-- What can be reported for a descriptor once more has happened to it. -/
def arrive (ready : List EpollEvent) (ev : EpollEvent) : List EpollEvent :=
  if ready.any (·.ptr = ev.ptr) then
    ready.map fun old =>
      if old.ptr = ev.ptr then { old with events := old.events ||| ev.events } else old
  else ready ++ [ev]

/-- What is left to report when the program has read or written on a descriptor. -/
def settle (ready : List EpollEvent) (a : SocketPtr) (bits : UInt32) : List EpollEvent :=
  ready.filterMap fun ev =>
    if ev.ptr = a then
      if ev.events &&& ~~~bits = 0 then none
      else some { ev with events := ev.events &&& ~~~bits }
    else some ev

/-- The sockets and their worker, with its thread, its message's condition and its epoll
instance. -/
structure State extends Epoll.State where
  thread : Position := .ended
  /-- `epoll_create` has returned a descriptor. -/
  eq : Bool := false
  /-- The sockets whose descriptors are in the epoll instance. -/
  watched : Finset SocketPtr := ∅
  /-- What `epoll_wait` has to report. -/
  ready : List EpollEvent := []
  /-- `d_` of the message's condition. -/
  d : Bool := false
  destroyed : Bool := false
  teardown : Option Teardown := none

/-- What the thread of the worker can do. -/
inductive ThreadAction
  /-- `epoll_wait` returns events. -/
  | poll
  /-- `epoll_wait` fails for want of a descriptor, and `run` returns. -/
  | fail
  /-- `ActiveCall c(t.msg)`: the mutex is free, and `d_` is tested. -/
  | enter
  /-- The batch is sorted, `c.call()`, and the mutex let go. -/
  | work

/-- What the loop thread can do. -/
inductive LoopAction
  | dispatch
  | turn
  | ret
  /-- `created` is what a new worker gets from `epoll_create`. -/
  | construct (a : SocketPtr) (registers : Option Bool) (created : Bool)
  | destroy (a : SocketPtr)
  /-- The program reads or writes on a descriptor. -/
  | settle (a : SocketPtr) (bits : UInt32)
  | requestTermination
  /-- `t.waitTermination()` returns. -/
  | join

/-- What can happen next. -/
inductive Action
  | thread (act : ThreadAction)
  | loop (act : LoopAction)
  /-- A network event. -/
  | arrive (ev : EpollEvent)
  /-- A signal makes `epoll_wait` fail. -/
  | interrupt
  /-- `Threads::wait` returns without a signal. -/
  | wake

namespace State

/-- No socket yet. -/
def init : State := {}

/-- The thread wakes up, if it waits for the message to be free. -/
def signal (s : State) : State :=
  match s.thread with
  | .asleep batch => { s with thread := .entering batch }
  | _ => s

/-- One step of `SocketWorker::run`. -/
def threadStep (s : State) : ThreadAction → Option State
  | .poll =>
      match s.thread, s.ready with
      | .polling, ev :: rest =>
          if s.eq then
            some { s with
              thread := .entering ⟨(ev :: rest).take 1024, by simp, List.length_take_le _ _⟩
              ready := (ev :: rest).drop 1024 }
          else none
      | _, _ => none
  | .fail =>
      match s.thread with
      | .polling => if s.eq then none else some { s with thread := .ended }
      | _ => none
  | .enter =>
      match s.thread with
      | .entering batch =>
          if s.d then some { s with thread := .asleep batch }
          -- the constructor throws, and `Thread::execute` ends the thread
          else if s.destroyed then some { s with thread := .ended }
          else some { s with thread := .inside batch }
      | _ => none
  | .work =>
      match s.thread with
      | .inside batch => do
          let shared ← s.toState.collect batch
          some { s with toState := shared, d := true, thread := .polling }
      | _ => none

/-- The first socket brings a worker, and with it an epoll instance and a thread. -/
def startWorker (s : State) (created : Bool) : State :=
  if s.refCounter + 1 = 1 then
    { s with thread := .polling, eq := created, watched := ∅, ready := [], d := false,
             destroyed := false }
  else s

/-- A socket is constructed, and registers with the worker unless its constructor gives up
before.  Without an epoll instance `epoll_ctl` refuses. -/
def construct (s : State) (a : SocketPtr) (registers : Option Bool) (created : Bool) :
    Option State := do
  let shared ← s.toState.construct a registers
  let s := s.startWorker created
  if registers = some true then
    if s.eq then
      some { s with
        toState := shared
        watched := if a ∈ shared.clients then insert a s.watched else s.watched }
    else none
  else some { s with toState := shared }

/-- The destructor of a socket.  For the last one it gets no further than `~SocketWorker`,
and `join` does the rest; nobody looks at `clients` in between. -/
def destroy (s : State) (a : SocketPtr) : Option State := do
  let shared ← s.toState.destroy a
  if s.refCounter = 1 then some { s with teardown := some (.requesting a) }
  else some { s with
    toState := shared
    watched := s.watched.erase a
    ready := s.ready.filter (·.ptr ≠ a) }

/-- One step of the loop thread. -/
def loopStep (s : State) : LoopAction → Option State
  | .dispatch =>
      if s.teardown = none then
        s.toState.dispatch.map fun shared => { s with toState := shared }
      else none
  | .turn =>
      if s.teardown = none then
        s.toState.turn.map fun shared =>
          -- behind `onCall` the run loop sets the condition to false
          if shared.control = .idle then { s with toState := shared, d := false }.signal
          else { s with toState := shared }
      else none
  | .ret =>
      if s.teardown = none then s.toState.ret.map fun shared => { s with toState := shared }
      else none
  | .construct a registers created =>
      if s.teardown = none then s.construct a registers created else none
  | .destroy a => if s.teardown = none then s.destroy a else none
  | .settle a bits =>
      if s.teardown = none ∧ s.inUserCode then
        some { s with ready := Shutdown.settle s.ready a bits }
      else none
  | .requestTermination =>
      match s.teardown, s.thread with
      -- the thread has the mutex
      | some (.requesting _), .inside _ => none
      | some (.requesting a), _ =>
          some { s with
            destroyed := true
            d := false
            teardown := some (.joining a) }.signal
      | _, _ => none
  | .join =>
      match s.teardown, s.thread with
      | some (.joining a), .ended => do
          let shared ← s.toState.destroy a
          some { s with
            toState := shared
            eq := false
            watched := ∅
            ready := []
            teardown := none }
      | _, _ => none

/-- One step of either thread, or of what is around them. -/
def step (s : State) : Action → Option State
  | .thread act => s.threadStep act
  | .loop act => s.loopStep act
  | .arrive ev =>
      if ev.ptr ∈ s.watched ∧ ev.events ≠ 0 then
        some { s with ready := Shutdown.arrive s.ready ev }
      else none
  | .interrupt =>
      match s.thread with
      | .polling => if s.eq then some { s with thread := .ended } else none
      | _ => none
  | .wake =>
      match s.thread with
      | .asleep _ => some s.signal
      | _ => none

/-- The loop thread is in `waitTermination`. -/
def Joining (s : State) : Prop := ∃ a, s.teardown = some (.joining a)

/-- **The destructor hangs**: it is in `waitTermination`, and the thread has not ended and
can take no step by itself. -/
def Hung (s : State) : Prop :=
  s.Joining ∧ s.thread ≠ .ended ∧ ∀ act, s.threadStep act = none

/-- The thread is in an `epoll_wait` that has nothing to report. -/
def Blocked (s : State) : Prop := s.thread = .polling ∧ s.eq = true ∧ s.ready = []

end State

/-- Runs of the two threads. -/
abbrev Runs (s : State) : List (State × Action) → State → Prop :=
  Run (Fires State.step) s

namespace State

/-- The thread comes to its end by its own steps. -/
def CanExit (s : State) : Prop :=
  ∃ tr t, Runs s tr t ∧ (∀ p ∈ tr, ∃ act, p.2 = .thread act) ∧ t.thread = .ended

variable {s t : State}

/-! ## What a step does -/

theorem poll_cases (h : s.threadStep .poll = some t) :
    s.thread = .polling ∧ s.eq = true ∧
      ∃ batch ready, t = { s with thread := .entering batch, ready := ready } := by
  unfold threadStep at h
  dsimp only at h
  split at h
  · next hthread hready =>
      split_ifs at h with heq
      exact ⟨hthread, heq, _, _, (Option.some.inj h).symm⟩
  · cases h

theorem fail_cases (h : s.threadStep .fail = some t) :
    s.thread = .polling ∧ t = { s with thread := .ended } := by
  unfold threadStep at h
  dsimp only at h
  split at h
  · next hthread =>
      split_ifs at h
      exact ⟨hthread, (Option.some.inj h).symm⟩
  · cases h

theorem enter_cases (h : s.threadStep .enter = some t) :
    ∃ batch, s.thread = .entering batch ∧
      (s.d = true ∧ t = { s with thread := .asleep batch } ∨
        s.d = false ∧ s.destroyed = true ∧ t = { s with thread := .ended } ∨
        s.d = false ∧ s.destroyed = false ∧ t = { s with thread := .inside batch }) := by
  unfold threadStep at h
  dsimp only at h
  split at h
  · next batch hthread =>
      refine ⟨batch, hthread, ?_⟩
      split_ifs at h with hd hgone
      · exact .inl ⟨hd, (Option.some.inj h).symm⟩
      · exact .inr (.inl ⟨eq_false_of_ne_true hd, hgone, (Option.some.inj h).symm⟩)
      · exact .inr (.inr ⟨eq_false_of_ne_true hd, eq_false_of_ne_true hgone,
          (Option.some.inj h).symm⟩)
  · cases h

theorem work_cases (h : s.threadStep .work = some t) :
    ∃ batch shared, s.thread = .inside batch ∧ s.toState.collect batch = some shared ∧
      t = { s with toState := shared, d := true, thread := .polling } := by
  unfold threadStep at h
  dsimp only at h
  split at h
  · next batch hthread =>
      obtain ⟨shared, hcollect, ht⟩ := Option.bind_eq_some_iff.mp h
      exact ⟨batch, shared, hthread, hcollect, (Option.some.inj ht).symm⟩
  · cases h

theorem startWorker_teardown (s : State) (created : Bool) :
    (s.startWorker created).teardown = s.teardown := by
  unfold startWorker
  split
  · rfl
  · rfl

theorem construct_cases {a : SocketPtr} {registers : Option Bool} {created : Bool}
    (h : s.construct a registers created = some t) :
    s.toState.construct a registers = some t.toState ∧ t.teardown = s.teardown := by
  obtain ⟨shared, hshared, h⟩ := Option.bind_eq_some_iff.mp h
  dsimp only at h
  split at h
  · split at h
    · obtain rfl := Option.some.inj h
      exact ⟨hshared, startWorker_teardown s created⟩
    · cases h
  · obtain rfl := Option.some.inj h
    exact ⟨hshared, startWorker_teardown s created⟩

theorem destroy_cases {a : SocketPtr} (h : s.destroy a = some t) :
    (s.refCounter = 1 ∧ t = { s with teardown := some (.requesting a) }) ∨
      s.refCounter ≠ 1 ∧ s.toState.destroy a = some t.toState ∧ t.teardown = s.teardown := by
  obtain ⟨shared, hshared, h⟩ := Option.bind_eq_some_iff.mp h
  split at h
  · next hlast => exact .inl ⟨hlast, (Option.some.inj h).symm⟩
  · next hmore =>
      obtain rfl := Option.some.inj h
      exact .inr ⟨hmore, hshared, rfl⟩

theorem dispatch_cases (h : s.loopStep .dispatch = some t) :
    s.teardown = none ∧ ∃ shared, s.toState.dispatch = some shared ∧
      t = { s with toState := shared } := by
  unfold loopStep at h
  dsimp only at h
  split_ifs at h with hteardown
  obtain ⟨shared, hshared, ht⟩ := Option.map_eq_some_iff.mp h
  exact ⟨hteardown, shared, hshared, ht.symm⟩

theorem signal_toState (s : State) : s.signal.toState = s.toState := by
  unfold signal
  split
  · rfl
  · rfl

theorem signal_teardown (s : State) : s.signal.teardown = s.teardown := by
  unfold signal
  split
  · rfl
  · rfl

theorem turn_cases (h : s.loopStep .turn = some t) :
    s.teardown = none ∧ s.toState.turn = some t.toState ∧ t.teardown = none := by
  unfold loopStep at h
  dsimp only at h
  split_ifs at h with hteardown
  obtain ⟨shared, hshared, ht⟩ := Option.map_eq_some_iff.mp h
  rw [← ht]
  split
  · rw [signal_toState, signal_teardown]
    exact ⟨hteardown, hshared, hteardown⟩
  · exact ⟨hteardown, hshared, hteardown⟩

theorem ret_cases (h : s.loopStep .ret = some t) :
    s.teardown = none ∧ ∃ shared, s.toState.ret = some shared ∧
      t = { s with toState := shared } := by
  unfold loopStep at h
  dsimp only at h
  split_ifs at h with hteardown
  obtain ⟨shared, hshared, ht⟩ := Option.map_eq_some_iff.mp h
  exact ⟨hteardown, shared, hshared, ht.symm⟩

theorem loop_construct {a : SocketPtr} {registers : Option Bool} {created : Bool}
    (h : s.loopStep (.construct a registers created) = some t) :
    s.teardown = none ∧ s.construct a registers created = some t := by
  unfold loopStep at h
  dsimp only at h
  split_ifs at h with hteardown
  exact ⟨hteardown, h⟩

theorem loop_destroy {a : SocketPtr} (h : s.loopStep (.destroy a) = some t) :
    s.teardown = none ∧ s.destroy a = some t := by
  unfold loopStep at h
  dsimp only at h
  split_ifs at h with hteardown
  exact ⟨hteardown, h⟩

theorem settle_cases {a : SocketPtr} {bits : UInt32}
    (h : s.loopStep (.settle a bits) = some t) :
    s.teardown = none ∧ t = { s with ready := Shutdown.settle s.ready a bits } := by
  unfold loopStep at h
  dsimp only at h
  split_ifs at h with hfree
  exact ⟨hfree.1, (Option.some.inj h).symm⟩

theorem requestTermination_cases (h : s.loopStep .requestTermination = some t) :
    (∀ batch, s.thread ≠ .inside batch) ∧ ∃ a, s.teardown = some (.requesting a) ∧
      t = signal { s with destroyed := true, d := false, teardown := some (.joining a) } := by
  unfold loopStep at h
  dsimp only at h
  split at h
  · cases h
  · next a hteardown houtside =>
      exact ⟨houtside, a, hteardown, (Option.some.inj h).symm⟩
  · cases h

theorem join_cases (h : s.loopStep .join = some t) :
    s.thread = .ended ∧ t.teardown = none ∧
      ∃ a, s.teardown = some (.joining a) ∧ s.toState.destroy a = some t.toState := by
  unfold loopStep at h
  dsimp only at h
  split at h
  · next a hteardown hended =>
      obtain ⟨shared, hshared, ht⟩ := Option.bind_eq_some_iff.mp h
      obtain rfl := Option.some.inj ht
      exact ⟨hended, rfl, a, hteardown, hshared⟩
  · cases h

theorem arrive_cases {ev : EpollEvent} (h : s.step (.arrive ev) = some t) :
    t = { s with ready := Shutdown.arrive s.ready ev } := by
  unfold step at h
  dsimp only at h
  split_ifs at h
  exact (Option.some.inj h).symm

theorem interrupt_cases (h : s.step .interrupt = some t) :
    s.thread = .polling ∧ t = { s with thread := .ended } := by
  unfold step at h
  dsimp only at h
  split at h
  · next hthread =>
      split_ifs at h
      exact ⟨hthread, (Option.some.inj h).symm⟩
  · cases h

theorem wake_cases (h : s.step .wake = some t) :
    ∃ batch, s.thread = .asleep batch ∧ t = s.signal := by
  unfold step at h
  dsimp only at h
  split at h
  · next batch hthread => exact ⟨batch, hthread, (Option.some.inj h).symm⟩
  · cases h

/-! ## The worker and its thread, seen together -/

/-- The step of the pair of threads that an action here stands for. -/
def label (s : State) : Action → Option Epoll.Action
  | .thread .work =>
      match s.thread with
      | .inside batch => some (.collect batch)
      | _ => none
  | .loop .dispatch => some .dispatch
  | .loop .turn => some .turn
  | .loop .ret => some .ret
  | .loop (.construct a registers _) => some (.construct a registers)
  | .loop (.destroy a) => if s.refCounter = 1 then none else some (.destroy a)
  | .loop .join =>
      match s.teardown with
      | some (.joining a) => some (.destroy a)
      | _ => none
  | _ => none

theorem step_moves {act : Action} (hstep : s.step act = some t) :
    Moves (Fires Epoll.State.step) s.toState (s.label act) t.toState := by
  cases act with
  | thread act =>
      cases act with
      | poll =>
          obtain ⟨-, -, batch, ready, rfl⟩ := poll_cases hstep
          rfl
      | fail =>
          obtain ⟨-, rfl⟩ := fail_cases hstep
          rfl
      | enter =>
          obtain ⟨batch, -, ⟨-, rfl⟩ | ⟨-, -, rfl⟩ | ⟨-, -, rfl⟩⟩ := enter_cases hstep
          · rfl
          · rfl
          · rfl
      | work =>
          obtain ⟨batch, shared, hthread, hcollect, rfl⟩ := work_cases hstep
          simp only [label, hthread]
          exact hcollect
  | loop act =>
      cases act with
      | dispatch =>
          obtain ⟨-, shared, hshared, rfl⟩ := dispatch_cases hstep
          exact hshared
      | turn =>
          obtain ⟨-, hturn, -⟩ := turn_cases hstep
          exact hturn
      | ret =>
          obtain ⟨-, shared, hshared, rfl⟩ := ret_cases hstep
          exact hshared
      | construct a registers created =>
          exact (construct_cases (loop_construct hstep).2).1
      | destroy a =>
          rcases destroy_cases (loop_destroy hstep).2 with ⟨hlast, rfl⟩ | ⟨hmore, hdestroy, -⟩
          · simp [label, hlast, Moves]
          · simp only [label, if_neg hmore]
            exact hdestroy
      | settle a bits =>
          obtain ⟨-, rfl⟩ := settle_cases hstep
          rfl
      | requestTermination =>
          obtain ⟨-, a, -, rfl⟩ := requestTermination_cases hstep
          exact signal_toState _
      | join =>
          obtain ⟨-, -, a, hteardown, hdestroy⟩ := join_cases hstep
          simp only [label, hteardown]
          exact hdestroy
  | arrive ev =>
      obtain rfl := arrive_cases hstep
      rfl
  | interrupt =>
      obtain ⟨-, rfl⟩ := interrupt_cases hstep
      rfl
  | wake =>
      obtain ⟨batch, -, rfl⟩ := wake_cases hstep
      exact signal_toState s

/-- **A run here is a run of the socket worker**: its thread collects a batch when it gets
into the message, and the last socket is destroyed when the join is through. -/
theorem worker_run {tr : List (State × Action)} (hrun : Runs .init tr s) :
    Epoll.Runs .init (project State.toState label tr) s.toState :=
  hrun.refine (I := fun _ => True) (fun _ _ _ _ _ => trivial) (fun _ _ _ _ h => step_moves h)
    trivial

/-! ## A thread that has been told to end -/

/-- The request has taken effect, and the thread is on its way out: behind `epoll_wait`, or
in it with something there to report. -/
structure Leaving (s : State) : Prop where
  destroyed : s.destroyed = true
  quiet : s.d = false
  thread : (∃ batch, s.thread = .entering batch) ∨ s.thread = .ended ∨
    s.thread = .polling ∧ (s.eq = true → s.ready ≠ [])

theorem leaving_of_request (hfree : ¬ s.Blocked)
    (hstep : s.step (.loop .requestTermination) = some t) : t.Leaving := by
  obtain ⟨houtside, a, -, rfl⟩ := requestTermination_cases hstep
  unfold signal
  dsimp only
  cases hthread : s.thread with
  | polling =>
      refine ⟨rfl, rfl, .inr (.inr ⟨rfl, fun heq hready => ?_⟩)⟩
      exact hfree ⟨hthread, heq, hready⟩
  | entering batch => exact ⟨rfl, rfl, .inl ⟨batch, rfl⟩⟩
  | asleep batch => exact ⟨rfl, rfl, .inl ⟨batch, rfl⟩⟩
  | inside batch => exact absurd hthread (houtside batch)
  | ended => exact ⟨rfl, rfl, .inr (.inl rfl)⟩

theorem arrive_ne_nil {ready : List EpollEvent} (ev : EpollEvent) (h : ready ≠ []) :
    Shutdown.arrive ready ev ≠ [] := by
  unfold Shutdown.arrive
  split
  · simpa using h
  · simp

/-- It stays on its way out until the join is through. -/
theorem Leaving.step {act : Action} (h : s.Leaving) (hjoining : s.Joining)
    (hstep : s.step act = some t) (hjoin : act ≠ .loop .join) : t.Leaving := by
  obtain ⟨a, hteardown⟩ := hjoining
  have hbusy : s.teardown ≠ none := by rw [hteardown]; exact Option.some_ne_none _
  cases act with
  | thread act =>
      cases act with
      | poll =>
          obtain ⟨-, -, batch, ready, rfl⟩ := poll_cases hstep
          exact ⟨h.destroyed, h.quiet, .inl ⟨batch, rfl⟩⟩
      | fail =>
          obtain ⟨-, rfl⟩ := fail_cases hstep
          exact ⟨h.destroyed, h.quiet, .inr (.inl rfl)⟩
      | enter =>
          obtain ⟨batch, -, ⟨hd, -⟩ | ⟨-, -, rfl⟩ | ⟨-, hgone, -⟩⟩ := enter_cases hstep
          · exact absurd h.quiet (by simp [hd])
          · exact ⟨h.destroyed, h.quiet, .inr (.inl rfl)⟩
          · exact absurd h.destroyed (by simp [hgone])
      | work =>
          obtain ⟨batch, _, hinside, -⟩ := work_cases hstep
          have hthread := h.thread
          simp [hinside] at hthread
  | loop act =>
      cases act with
      | dispatch => exact absurd (dispatch_cases hstep).1 hbusy
      | turn => exact absurd (turn_cases hstep).1 hbusy
      | ret => exact absurd (ret_cases hstep).1 hbusy
      | construct a registers created => exact absurd (loop_construct hstep).1 hbusy
      | destroy a => exact absurd (loop_destroy hstep).1 hbusy
      | settle a bits => exact absurd (settle_cases hstep).1 hbusy
      | requestTermination =>
          obtain ⟨-, b, hrequesting, -⟩ := requestTermination_cases hstep
          rw [hteardown] at hrequesting
          cases hrequesting
      | join => exact absurd rfl hjoin
  | arrive ev =>
      obtain rfl := arrive_cases hstep
      refine ⟨h.destroyed, h.quiet, ?_⟩
      rcases h.thread with hthread | hthread | ⟨hthread, hready⟩
      · exact .inl hthread
      · exact .inr (.inl hthread)
      · exact .inr (.inr ⟨hthread, fun heq => arrive_ne_nil ev (hready heq)⟩)
  | interrupt =>
      obtain ⟨-, rfl⟩ := interrupt_cases hstep
      exact ⟨h.destroyed, h.quiet, .inr (.inl rfl)⟩
  | wake =>
      obtain ⟨batch, hasleep, -⟩ := wake_cases hstep
      have hthread := h.thread
      simp [hasleep] at hthread

/-- The thread ends by itself: at most `epoll_wait` and the constructor of `ActiveCall` are
before it. -/
theorem Leaving.canExit (h : s.Leaving) : s.CanExit := by
  have hexit : ∀ {s : State}, s.Leaving → ∀ batch, s.thread = .entering batch → s.CanExit := by
    intro s h batch hthread
    have hstep : s.step (.thread .enter) = some { s with thread := .ended } := by
      simp [State.step, threadStep, hthread, h.quiet, h.destroyed]
    exact ⟨_, _, .single hstep, by simp, rfl⟩
  rcases h.thread with ⟨batch, hthread⟩ | hthread | ⟨hthread, hready⟩
  · exact hexit h batch hthread
  · exact ⟨[], s, .nil, by simp, hthread⟩
  · cases heq : s.eq with
    | false =>
        have hstep : s.step (.thread .fail) = some { s with thread := .ended } := by
          simp [State.step, threadStep, hthread, heq]
        exact ⟨_, _, .single hstep, by simp, rfl⟩
    | true =>
        obtain ⟨ev, rest, hcons⟩ := List.exists_cons_of_ne_nil (hready heq)
        obtain ⟨t, ht⟩ : ∃ t, s.step (.thread .poll) = some t := by
          simp [State.step, threadStep, hthread, hcons, heq]
        obtain ⟨-, -, batch, ready, rfl⟩ := poll_cases ht
        have hleaving : State.Leaving { s with thread := .entering batch, ready := ready } :=
          ⟨h.destroyed, h.quiet, .inl ⟨batch, rfl⟩⟩
        obtain ⟨tr, u, hrun, hthreads, hended⟩ := hexit hleaving batch rfl
        refine ⟨(s, .thread .poll) :: tr, u, Run.cons_iff.mpr ⟨rfl, _, ht, hrun⟩, ?_, hended⟩
        simpa using hthreads

/-- A thread that can exit by itself has a step, if it has not ended. -/
theorem CanExit.not_hung (h : s.CanExit) : ¬ s.Hung := by
  rintro ⟨-, hlive, hstuck⟩
  obtain ⟨tr, t, hrun, hthreads, hended⟩ := h
  cases tr with
  | nil =>
      obtain rfl := Run.nil_iff.mp hrun
      exact hlive hended
  | cons p rest =>
      obtain ⟨hp, u, hstep, -⟩ := Run.cons_iff.mp hrun
      obtain ⟨act, hact⟩ := hthreads p List.mem_cons_self
      rw [hact] at hstep
      have hnone : s.threadStep act = some u := hstep
      rw [hstuck act] at hnone
      cases hnone

/-- The request does not reach a thread that has nothing to come back with. -/
theorem hung_of_blocked (hblocked : s.Blocked)
    (hstep : s.step (.loop .requestTermination) = some t) : t.Hung := by
  obtain ⟨hthread, heq, hready⟩ := hblocked
  obtain ⟨-, a, -, rfl⟩ := requestTermination_cases hstep
  have hsame : signal { s with
      destroyed := true, d := false, teardown := some (.joining a) } =
      { s with destroyed := true, d := false, teardown := some (.joining a) } := by
    simp [signal, hthread]
  rw [hsame]
  refine ⟨⟨a, rfl⟩, by simp [hthread], fun act => ?_⟩
  cases act <;> simp [threadStep, hthread, heq, hready]

/-- A request is not made while the thread is blocked. -/
def Reaches (s : State) (act : Action) : Prop :=
  act = .loop .requestTermination → ¬ s.Blocked

theorem threadStep_teardown {act : ThreadAction} (h : s.threadStep act = some t) :
    t.teardown = s.teardown := by
  cases act with
  | poll =>
      obtain ⟨-, -, batch, ready, rfl⟩ := poll_cases h
      rfl
  | fail =>
      obtain ⟨-, rfl⟩ := fail_cases h
      rfl
  | enter =>
      obtain ⟨batch, -, ⟨-, rfl⟩ | ⟨-, -, rfl⟩ | ⟨-, -, rfl⟩⟩ := enter_cases h
      · rfl
      · rfl
      · rfl
  | work =>
      obtain ⟨batch, shared, -, -, rfl⟩ := work_cases h
      rfl

/-- The loop thread is not in `waitTermination` after a step of its own, the request
apart. -/
theorem loopStep_not_joining {act : LoopAction} (h : s.loopStep act = some t)
    (hact : act ≠ .requestTermination) : ¬ t.Joining := by
  have hnone : t.teardown = none → ¬ t.Joining := by
    rintro hnone ⟨a, hjoining⟩
    rw [hnone] at hjoining
    cases hjoining
  cases act with
  | dispatch =>
      obtain ⟨hteardown, shared, -, rfl⟩ := dispatch_cases h
      exact hnone hteardown
  | turn => exact hnone (turn_cases h).2.2
  | ret =>
      obtain ⟨hteardown, shared, -, rfl⟩ := ret_cases h
      exact hnone hteardown
  | construct a registers created =>
      obtain ⟨hteardown, hconstruct⟩ := loop_construct h
      exact hnone ((construct_cases hconstruct).2.trans hteardown)
  | destroy a =>
      obtain ⟨hteardown, hdestroy⟩ := loop_destroy h
      rcases destroy_cases hdestroy with ⟨-, rfl⟩ | ⟨-, -, hsame⟩
      · rintro ⟨b, hjoining⟩
        cases hjoining
      · exact hnone (hsame.trans hteardown)
  | settle a bits =>
      obtain ⟨hteardown, rfl⟩ := settle_cases h
      exact hnone hteardown
  | requestTermination => exact absurd rfl hact
  | join => exact hnone (join_cases h).2.1

/-- The loop thread gets to `waitTermination` by the request alone. -/
theorem joining_step {act : Action} (hstep : s.step act = some t) (hafter : t.Joining) :
    act = .loop .requestTermination ∨ s.Joining ∧ act ≠ .loop .join := by
  have hsame : t.teardown = s.teardown → s.Joining := by
    intro hsame
    unfold Joining at hafter ⊢
    rwa [← hsame]
  cases act with
  | thread act => exact .inr ⟨hsame (threadStep_teardown hstep), Action.noConfusion⟩
  | loop act =>
      by_cases hact : act = .requestTermination
      · exact .inl (by rw [hact])
      · exact absurd hafter (loopStep_not_joining hstep hact)
  | arrive ev =>
      obtain rfl := arrive_cases hstep
      exact .inr ⟨hsame rfl, Action.noConfusion⟩
  | interrupt =>
      obtain ⟨-, rfl⟩ := interrupt_cases hstep
      exact .inr ⟨hsame rfl, Action.noConfusion⟩
  | wake =>
      obtain ⟨batch, -, rfl⟩ := wake_cases hstep
      exact .inr ⟨hsame (signal_teardown s), Action.noConfusion⟩

theorem leaving_step {act : Action} (h : s.Joining → s.Leaving) (hstep : s.step act = some t)
    (hgood : s.Reaches act) (hjoining : t.Joining) : t.Leaving := by
  rcases joining_step hstep hjoining with rfl | ⟨hbefore, hjoin⟩
  · exact leaving_of_request (hgood rfl) hstep
  · exact (h hbefore).step hbefore hstep hjoin

/-! ## The destructor -/

/-- **When the destructor hangs.**  In every run the loop thread hangs in no state, exactly
when every termination request of the run finds the thread somewhere else than in an
`epoll_wait` with nothing to report.  In such a run the thread can exit by its own steps
whenever it is joined. -/
theorem hangs_iff {tr : List (State × Action)} {s : State} (hrun : Runs .init tr s) :
    ((∀ x ∈ visited tr s, ¬ x.Hung) ↔ ∀ p ∈ tr, p.1.Reaches p.2) ∧
      ((∀ p ∈ tr, p.1.Reaches p.2) → ∀ x ∈ visited tr s, x.Joining → x.CanExit) := by
  have hinit : ¬ State.init.Joining := by
    rintro ⟨a, hjoining⟩
    cases hjoining
  constructor
  · refine Run.visited_iff_good (I := fun x => x.Joining → x.Leaving)
      (fun x act t h hstep (hgood : x.Reaches act) => leaving_step h hstep hgood)
      (fun x act t h hstep hbad hfine => ?_) (fun x h hhung => ?_) hrun
      (fun hjoining => absurd hjoining hinit)
    · unfold Reaches at hbad
      push Not at hbad
      obtain ⟨rfl, hblocked⟩ := hbad
      exact hfine (hung_of_blocked hblocked hstep)
    · exact (h hhung.1).canExit.not_hung hhung
  · intro hgood x hx hjoining
    have hleaving : ∀ x ∈ visited tr s, x.Joining → x.Leaving :=
      hrun.invariant_steps
        (fun x act t h hstep (hgood : x.Reaches act) => leaving_step h hstep hgood)
        (fun hjoining => absurd hjoining hinit) hgood
    exact (hleaving x hx hjoining).canExit

/-- A listening socket is destroyed when a client has just come. -/
theorem hangs_iff_example :
    ∃ tr s, Runs .init tr s ∧ s.Joining ∧ (∀ x ∈ visited tr s, ¬ x.Hung) ∧ s.CanExit := by
  let as : List Action :=
    [.loop (.construct 1 (some true) true), .arrive ⟨EPOLLIN, 1⟩, .loop (.destroy 1)]
  let s := (exec State.step .init as).get (by decide)
  have hs : exec State.step .init as = some s := (Option.some_get _).symm
  obtain ⟨hpre, hacts⟩ := exec_trace _ _ _ _ hs
  let t := (s.step (.loop .requestTermination)).get (by decide)
  have ht : s.step (.loop .requestTermination) = some t := (Option.some_get _).symm
  have hrun : Runs .init (trace State.step .init as ++ [(s, .loop .requestTermination)]) t :=
    hpre.snoc ht
  have hgood : ∀ p ∈ trace State.step .init as ++ [(s, Action.loop .requestTermination)],
      p.1.Reaches p.2 := by
    intro p hp hact
    rcases List.mem_append.mp hp with hp | hp
    · have hmem : p.2 ∈ as := hacts ▸ List.mem_map_of_mem hp
      rw [hact] at hmem
      simp [as] at hmem
    · obtain rfl := List.mem_singleton.mp hp
      rintro ⟨-, -, hready⟩
      have hsome : s.ready.isEmpty = false := by decide
      rw [hready] at hsome
      cases hsome
  obtain ⟨hiff, hexit⟩ := hangs_iff hrun
  have hjoining : t.Joining := ⟨1, rfl⟩
  exact ⟨_, t, hrun, hjoining, hiff.mpr hgood, hexit hgood t (by simp) hjoining⟩

/-- **The join waits for the network.**  A listening socket to which nobody has come is
destroyed: the thread is in `epoll_wait`. -/
theorem idle_socket_hangs :
    ∃ tr s, Runs .init tr s ∧ actions tr = [.loop (.construct 1 (some true) true),
        .loop (.destroy 1), .loop .requestTermination] ∧ s.Hung := by
  let as : List Action :=
    [.loop (.construct 1 (some true) true), .loop (.destroy 1), .loop .requestTermination]
  let s := (exec State.step .init as).get (by decide)
  have hs : exec State.step .init as = some s := (Option.some_get _).symm
  obtain ⟨hrun, hacts⟩ := exec_trace _ _ _ _ hs
  have hthread : s.thread = .polling := rfl
  refine ⟨_, s, hrun, hacts, ⟨1, rfl⟩, ?_, fun act => ?_⟩
  · rw [hthread]
    exact Position.noConfusion
  · cases act <;> rfl

end State

end Shutdown

end Epoll

end Craplib
