import Craplib.Resolver.Pool

/-!
# The end of a resolver worker

One worker of the pool, close up: its thread in `Worker::run`, the thread of the run loop,
and the two conditions they meet on, `has_work_or_quit` and the condition of the message
`thm.msg`.  `~Worker` asks for termination under the message's lock, takes the lock of
`has_work_or_quit`, sets it to true and joins the thread, all this time holding that lock.

* A step is what a thread does between two points where it may have to wait.
* `CondLock::set` signals: a thread in `Threads::wait` goes on to take the mutex again.  It
  may also do so without a signal (`wake`).
* `getaddrinfo` returns, sooner or later.  `RunLoop::enqueue` is part of `publish`: the
  lock of the run loop is never held for long.
* An exception that leaves `run`, like that of the constructor of `ActiveCall`, ends the
  thread.
-/

namespace Craplib

namespace Resolver

namespace Shutdown

/-- Who holds a mutex. -/
inductive Party
  | worker
  | loop
deriving DecidableEq

/-- Where the thread of the worker is in `run`. -/
inductive Position
  /-- It needs the mutex of `has_work_or_quit`, to pass `CondLock lock(…, true)`. -/
  | locking
  /-- In `Threads::wait`, there. -/
  | waiting
  /-- At `if( thm.msg.is_destroyed() )`. -/
  | locked
  /-- At `local_work = need_work.front()`. -/
  | checked
  /-- In `getaddrinfo`. -/
  | lookingUp (work : HostService)
  /-- It needs the mutex of the message, in the constructor of `ActiveCall`. -/
  | entering (work : HostService) (res : Option AddrInfoPtr)
  /-- In `Threads::wait`, there. -/
  | asleep (work : HostService) (res : Option AddrInfoPtr)
  /-- The constructor of `ActiveCall` has returned. -/
  | inside (work : HostService) (res : Option AddrInfoPtr)
  /-- `call.call()` has returned. -/
  | called
  | ended
deriving DecidableEq

/-- Where the thread of the run loop is. -/
inductive Control
  /-- Neither in `onCall` of the worker nor in its destructor. -/
  | idle
  | inCall
  /-- Behind `onCall`, where `RunLoop::run` needs the mutex of the message. -/
  | releasing
  /-- In `~Worker`, at `requestTermination`. -/
  | destroying
  /-- At `CondLock lock(has_work_or_quit)`. -/
  | requested
  /-- In `waitTermination`. -/
  | joining
  /-- `waitTermination` has returned. -/
  | joined
deriving DecidableEq

/-- A worker and the two threads. -/
structure State where
  position : Position := .locking
  control : Control := .idle
  addr : Option Addr := none
  needWork : List HostService := []
  res : Option AddrInfoPtr := none
  resWork : HostService := {}
  /-- `d_` of `has_work_or_quit`. -/
  hasWorkOrQuit : Bool := false
  /-- Who holds its mutex between two steps. -/
  workHolder : Option Party := none
  /-- `d_` of the message's condition. -/
  called : Bool := false
  /-- Who holds its mutex between two steps. -/
  msgHolder : Option Party := none
  destroyed : Bool := false
  /-- The message is in the queue of the run loop. -/
  queued : Bool := false
deriving DecidableEq

/-- What the thread of the worker can do. -/
inductive ThreadAction
  /-- `CondLock lock(has_work_or_quit, true)`: the mutex is free, and `d_` is tested. -/
  | lockWork
  /-- `if( thm.msg.is_destroyed() ) return;` -/
  | check
  /-- The first element of `need_work` is taken, and the lock let go. -/
  | take
  /-- `getaddrinfo` returns; a failure leaves `local_res` null. -/
  | lookup (res : Option AddrInfoPtr)
  /-- `ActiveCall call(thm.msg)`: the mutex is free, and `d_` is tested. -/
  | enter
  /-- `res` and `res_work` are set, and the message is called. -/
  | publish
  /-- `~ActiveCall` -/
  | leave

/-- What the thread of the run loop can do. -/
inductive LoopAction
  | startWork (addr : Addr) (hs : HostService)
  /-- The message is popped, and `onCall` called. -/
  | deliver
  /-- `onCall` returns. -/
  | ret
  /-- `CondLock l(processedMsg->c); l.set(false);` -/
  | release
  /-- `~Worker` is called. -/
  | destroy
  /-- `thm.requestTermination()` -/
  | requestTermination
  /-- `CondLock lock(has_work_or_quit); lock.set(true);` -/
  | quit
  /-- `thm.waitTermination()` returns. -/
  | join

/-- What can happen next. -/
inductive Action
  | thread (act : ThreadAction)
  | loop (act : LoopAction)
  /-- `Threads::wait` returns without a signal. -/
  | wake

namespace State

/-- A worker whose constructor has returned. -/
def init : State := {}

/-- The thread wakes up, if it waits on `has_work_or_quit`. -/
def signalWork (s : State) : State :=
  match s.position with
  | .waiting => { s with position := .locking }
  | _ => s

/-- The thread wakes up, if it waits on the message. -/
def signalMsg (s : State) : State :=
  match s.position with
  | .asleep work res => { s with position := .entering work res }
  | _ => s

/-- One step of `Worker::run`. -/
def threadStep (s : State) : ThreadAction → Option State
  | .lockWork =>
      match s.position with
      | .locking =>
          if s.workHolder = none then
            if s.hasWorkOrQuit then
              some { s with position := .locked, workHolder := some .worker }
            else some { s with position := .waiting }
          else none
      | _ => none
  | .check =>
      match s.position with
      | .locked =>
          if s.destroyed then some { s with position := .ended, workHolder := none }
          else some { s with position := .checked }
      | _ => none
  | .take =>
      match s.position, s.needWork with
      | .checked, hs :: rest =>
          some { s with
            position := .lookingUp hs
            needWork := rest
            hasWorkOrQuit := !rest.isEmpty
            workHolder := none }
      | _, _ => none
  | .lookup res =>
      match s.position with
      | .lookingUp work => some { s with position := .entering work res }
      | _ => none
  | .enter =>
      match s.position with
      | .entering work res =>
          if s.msgHolder = none then
            if s.called then some { s with position := .asleep work res }
            -- the constructor throws
            else if s.destroyed then some { s with position := .ended }
            else some { s with position := .inside work res, msgHolder := some .worker }
          else none
      | _ => none
  | .publish =>
      match s.position with
      | .inside work res =>
          some { s with
            position := .called
            res := res
            resWork := work
            called := true
            queued := true }
      | _ => none
  | .leave =>
      match s.position with
      | .called => some { s with position := .locking, msgHolder := none }
      | _ => none

/-- One step of the run loop's thread that has to do with the worker. -/
def loopStep (s : State) : LoopAction → Option State
  | .startWork addr hs =>
      if (s.control = .idle ∨ s.control = .inCall) ∧ s.workHolder = none then
        some { s with
          addr := some addr
          needWork := s.needWork ++ [hs]
          hasWorkOrQuit := true }.signalWork
      else none
  | .deliver =>
      if s.control = .idle ∧ s.queued then some { s with control := .inCall, queued := false }
      else none
  | .ret => if s.control = .inCall then some { s with control := .releasing } else none
  | .release =>
      if s.control = .releasing ∧ s.msgHolder = none then
        some { s with control := .idle, called := false }.signalMsg
      else none
  | .destroy =>
      if s.control = .idle ∨ s.control = .inCall then some { s with control := .destroying }
      else none
  | .requestTermination =>
      if s.control = .destroying ∧ s.msgHolder = none then
        some { s with control := .requested, destroyed := true, called := false }.signalMsg
      else none
  | .quit =>
      if s.control = .requested ∧ s.workHolder = none then
        some { s with
          control := .joining
          hasWorkOrQuit := true
          workHolder := some .loop }.signalWork
      else none
  | .join =>
      if s.control = .joining ∧ s.position = .ended then
        some { s with control := .joined, workHolder := none }
      else none

/-- One step of either thread. -/
def step (s : State) : Action → Option State
  | .thread act => s.threadStep act
  | .loop act => s.loopStep act
  | .wake =>
      match s.position with
      | .waiting => some s.signalWork
      | .asleep _ _ => some s.signalMsg
      | _ => none

/-- The worker as the pool knows it. -/
def worker (s : State) : Worker where
  addr := s.addr
  needWork := s.needWork
  localWork := match s.position with
    | .lookingUp work | .entering work _ | .asleep work _ | .inside work _ => some work
    | _ => none
  res := s.res
  resWork := s.resWork
  called := s.called

/-- The destructor waits for the thread: to let go of a mutex, or to end. -/
def Awaited (s : State) : Prop :=
  (s.control = .destroying ∧ s.msgHolder = some .worker) ∨
    (s.control = .requested ∧ s.workHolder = some .worker) ∨ s.control = .joining

/-- **A deadlock**: the destructor waits for the thread, which has not ended and can take
no step. -/
def Deadlocked (s : State) : Prop :=
  s.Awaited ∧ s.position ≠ .ended ∧ ∀ act, s.threadStep act = none

/-- The thread is past the lock of `has_work_or_quit`: it holds it, or has let go of it and
not come back. -/
def PastLock (s : State) : Prop := s.position ≠ .locking ∧ s.position ≠ .waiting

end State

/-- Runs of the two threads. -/
abbrev Runs (s : State) : List (State × Action) → State → Prop :=
  Machine.Run (Machine.Fires State.step) s

end Shutdown

end Resolver

end Craplib
