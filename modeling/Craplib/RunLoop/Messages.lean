import Mathlib.Logic.Function.Basic
import Craplib.Lib.Runs

/-!
# Messages from other threads on a run loop

An `ActiveMsg` hands data from a thread to the thread of a run loop.  Its condition `c` is
true between `call` and the end of `onCall`; an `ActiveCall` waits until it is false and
then holds its mutex.  `call` puts the message into the queue of the loop, whose own
condition is true when there may be something in the queue; `RunLoop::run` takes messages
out, calls them and makes their conditions false again.

A step is what a thread does between two accesses to something that another thread may
change in between.  `RunLoop::dequeue` takes no lock, so that another thread can put a message
into the queue between `std::remove` and `erase`: it takes two steps, and `RunLoop::enqueue`
takes four.  What `run` does while it holds the mutex of the loop is one step, because it only
touches what that mutex protects and what is never touched outside the loop's own thread.

The calls are numbered so that two calls of one message can be told apart; the code
compares the messages only.  The timers are those of `Timers`; here they are callbacks, and
whether there are any is left open.
-/

namespace Craplib

namespace Messages

/-- `ActiveMsg *` -/
abbrev MsgPtr := ℕ

abbrev ThreadId := ℕ

/-- An `ActiveMsg`. -/
structure ActiveMsg where
  /-- `c.d_` -/
  flag : Bool := false
  /-- Who holds `c.m_` between two steps. -/
  mutex : Option ThreadId := none
  destroyed : Bool := false
deriving DecidableEq

/-- An `ActiveMsg *` in the queue, with the number of the call that put it there. -/
structure Call where
  msg : MsgPtr
  number : ℕ
deriving DecidableEq

/-- How far a thread is with its `ActiveCall`. -/
inductive Stage
  /-- The constructor has returned. -/
  | constructed
  /-- `lock.set(true)` is done. -/
  | flagged
  /-- It holds the mutex of the loop in `RunLoop::enqueue`. -/
  | locked
  /-- `queue.push_back(msg)` is done. -/
  | pushed
  /-- `lock.set(!queue.empty())` is done. -/
  | signalled
  /-- `call` has returned. -/
  | called
deriving DecidableEq

/-- Where a thread is.  A thread with two `ActiveCall`s at once counts as two. -/
inductive Phase
  /-- Not in an `ActiveCall`. -/
  | out
  /-- In the constructor of an `ActiveCall` of this message. -/
  | entering (msg : MsgPtr)
  | inside (msg : MsgPtr) (stage : Stage)
  /-- The thread has ended and can be joined. -/
  | ended
deriving DecidableEq

/-- The message that a thread refers to. -/
def Phase.msg : Phase → Option MsgPtr
  | .entering msg | .inside msg _ => some msg
  | .out | .ended => none

/-- Where the thread of the run loop is. -/
inductive Control
  /-- Not in `run`. -/
  | outside
  /-- At the beginning of the body of the loop. -/
  | turn
  /-- It needs the mutex of the loop, to wait with or without a time limit; after a sleep it
  may have reached that limit. -/
  | locking (timed timedOut : Bool)
  /-- In `Threads::wait`. -/
  | asleep (timed : Bool)
  /-- At `if( processedMsg ) processedMsg->onCall()`. -/
  | popped
  /-- In `onCall`. -/
  | inCall
  /-- At the second `if( processedMsg )`. -/
  | called
  /-- In the loop over the due timers. -/
  | timers
  /-- In `onTimer`. -/
  | inTimer
deriving DecidableEq

/-- The thread is in code of the program. -/
def Control.inProgram : Control → Bool
  | .outside | .inCall | .inTimer => true
  | .turn | .locking _ _ | .asleep _ | .popped | .called | .timers => false

/-- A run loop, its messages and the threads that call them. -/
structure State where
  msgs : MsgPtr → Option ActiveMsg := fun _ => none
  queue : List Call := []
  processedMsg : Option Call := none
  /-- `c.d_` of the loop. -/
  flag : Bool := false
  /-- Which thread holds `c.m_` of the loop between two steps. -/
  mutex : Option ThreadId := none
  msgCnt : ℕ := 0
  running : Bool := false
  control : Control := .outside
  threads : List Phase := []
  /-- How many calls have been put into the queue. -/
  next : ℕ := 0
  /-- In `RunLoop::dequeue`, between `std::remove` and `erase`: how many elements of the queue
  are in front of the new end. -/
  newEnd : Option ℕ := none

/-- What a thread can do. -/
inductive ThreadAction
  /-- An `ActiveCall` of this message is declared. -/
  | begin (msg : MsgPtr)
  /-- `CondLock lock(am.c, 0)` is passed. -/
  | enter
  /-- `lock.set(true)` -/
  | setFlag
  /-- `CondLock lock(c)` in `RunLoop::enqueue` -/
  | lockLoop
  /-- `queue.push_back(msg)` -/
  | pushBack
  /-- `lock.set(!queue.empty())` -/
  | signal
  /-- The end of `RunLoop::enqueue`. -/
  | unlockLoop
  /-- `~ActiveCall` -/
  | leave
  /-- The thread ends. -/
  | exit

/-- What the thread of the run loop can do in `run`. -/
inductive LoopAction
  /-- `processedMsg = 0`, and on to the wait. -/
  | beginTurn (timed : Bool)
  /-- The mutex is free, and the condition is tested. -/
  | acquire
  /-- `Threads::wait` returns, without a signal. -/
  | wake (timedOut : Bool)
  /-- `if( processedMsg ) processedMsg->onCall()` -/
  | onCall
  /-- `if( processedMsg ) { CondLock l(processedMsg->c); l.set(false); }` -/
  | release
  | onTimer
  /-- `onCall` or `onTimer` returns. -/
  | ret
  /-- No timer is due. -/
  | endTurn (timersEmpty : Bool)

/-- What the program can do on the thread of the run loop, in a callback or outside `run`. -/
inductive HandlerAction
  | construct (msg : MsgPtr)
  | requestTermination (msg : MsgPtr)
  /-- `waitTermination` returns. -/
  | join (thread : ThreadId)
  /-- `~ActiveMsg`, up to `std::remove` in `RunLoop::dequeue`. -/
  | destroy (msg : MsgPtr)
  | stop
  /-- `run` is called, not from a callback. -/
  | run

/-- What can happen next. -/
inductive Action
  | thread (thread : ThreadId) (act : ThreadAction)
  | loop (act : LoopAction)
  | handler (act : HandlerAction)
  /-- `queue.erase` in `RunLoop::dequeue`, and the rest of `~ActiveMsg`. -/
  | erase

namespace State

/-- A run loop without messages, and this many threads. -/
def init (threads : ℕ) : State := { threads := List.replicate threads .out }

def setMsg (s : State) (msg : MsgPtr) (m : ActiveMsg) : State :=
  { s with msgs := Function.update s.msgs msg (some m) }

def setPhase (s : State) (thread : ThreadId) (phase : Phase) : State :=
  { s with threads := s.threads.set thread phase }

/-- `CondLock::set` on the condition of the loop, which wakes the loop if it sleeps. -/
def setFlag (s : State) (val : Bool) : State :=
  let control := match s.control with
    | .asleep timed => .locking timed false
    | control => control
  { s with flag := val, control := control }

/-- One step of a thread. -/
def threadStep (s : State) (t : ThreadId) (act : ThreadAction) : Option State :=
  match act, s.threads[t]? with
  | .begin msg, some .out =>
      if (s.msgs msg).isSome then some (s.setPhase t (.entering msg)) else none
  | .enter, some (.entering msg) =>
      match s.msgs msg with
      | some m =>
          if m.mutex = none ∧ m.flag = false then
            -- a message that is to terminate makes the constructor throw
            if m.destroyed then some (s.setPhase t .out)
            else some ((s.setMsg msg { m with mutex := some t }).setPhase t
              (.inside msg .constructed))
          else none
      | none => none
  | .setFlag, some (.inside msg .constructed) =>
      (s.msgs msg).map fun m =>
        (s.setMsg msg { m with flag := true }).setPhase t (.inside msg .flagged)
  | .lockLoop, some (.inside msg .flagged) =>
      if s.mutex = none then
        some ({ s with mutex := some t }.setPhase t (.inside msg .locked))
      else none
  | .pushBack, some (.inside msg .locked) =>
      let call : Call := { msg := msg, number := s.next }
      some ({ s with queue := s.queue ++ [call], next := s.next + 1 }.setPhase t
        (.inside msg .pushed))
  | .signal, some (.inside msg .pushed) =>
      some ((s.setFlag (!s.queue.isEmpty)).setPhase t (.inside msg .signalled))
  | .unlockLoop, some (.inside msg .signalled) =>
      some ({ s with mutex := none }.setPhase t (.inside msg .called))
  | .leave, some (.inside msg .constructed) | .leave, some (.inside msg .called) =>
      (s.msgs msg).map fun m => (s.setMsg msg { m with mutex := none }).setPhase t .out
  | .exit, some .out => some (s.setPhase t .ended)
  | _, _ => none

/-- What `run` does when it has waited long enough: take the first message of the queue. -/
def pop (s : State) : State :=
  match s.queue with
  | [] => { s with flag := false, control := .popped }
  | call :: rest =>
      { s with
        queue := rest
        processedMsg := some call
        flag := !rest.isEmpty
        control := .popped }

/-- One step of `RunLoop::run`. -/
def loopStep (s : State) (act : LoopAction) : Option State :=
  match act, s.control with
  | .beginTurn timed, .turn =>
      some { s with processedMsg := none, control := .locking timed false }
  | .acquire, .locking timed timedOut =>
      if s.mutex = none then
        if s.flag || timedOut then some s.pop else some { s with control := .asleep timed }
      else none
  | .wake timedOut, .asleep timed =>
      -- only a wait with a time limit can reach it
      if timedOut && !timed then none else some { s with control := .locking timed timedOut }
  | .onCall, .popped =>
      some { s with control := if s.processedMsg.isSome then .inCall else .called }
  | .ret, .inCall => some { s with control := .called }
  | .release, .called =>
      match s.processedMsg with
      | none => some { s with control := .timers }
      | some call =>
          match s.msgs call.msg with
          | some m =>
              if m.mutex = none then
                some { s.setMsg call.msg { m with flag := false } with control := .timers }
              else none
          | none => none
  | .onTimer, .timers => some { s with control := .inTimer }
  | .ret, .inTimer => some { s with control := .timers }
  | .endTurn timersEmpty, .timers =>
      let running := if timersEmpty ∧ s.msgCnt = 0 then false else s.running
      some { s with running := running, control := if running then .turn else .outside }
  | _, _ => none

/-- `RunLoop::dequeue(ActiveMsg*)`, up to `std::remove`.  What is left over behind the new end
is not in the list: nobody looks at it before it is erased. -/
def dequeue (s : State) (msg : MsgPtr) : State :=
  let queue := s.queue.filter (·.msg ≠ msg)
  { s with
    processedMsg := s.processedMsg.filter (·.msg ≠ msg)
    queue := queue
    newEnd := some queue.length }

/-- The rest of `RunLoop::dequeue`, and `RunLoop::deregisterMsg`.  Everything from the new end to
`queue.end()` is erased.  The compiler may evaluate that end after `std::remove`; then this is
also what has come in since. -/
def erase (s : State) : Option State :=
  s.newEnd.map fun newEnd =>
    { s with queue := s.queue.take newEnd, newEnd := none, msgCnt := s.msgCnt - 1 }

/-- The thread of the run loop is in code of the program, and not in `~ActiveMsg`. -/
def inHandler (s : State) : Bool := s.control.inProgram && s.newEnd.isNone

/-- What the program does on the thread of the run loop. -/
def handlerStep (s : State) : HandlerAction → Option State
  | .construct msg =>
      match s.msgs msg with
      | none => some { s.setMsg msg {} with msgCnt := s.msgCnt + 1 }
      | some _ => none
  | .requestTermination msg =>
      match s.msgs msg with
      | some m =>
          if m.mutex = none then
            some (s.setMsg msg { m with destroyed := true, flag := false })
          else none
      | none => none
  | .join t => if s.threads[t]? = some .ended then some s else none
  | .destroy msg =>
      -- the threads that call it have been joined, or are not in an `ActiveCall` of it
      if (s.msgs msg).isSome ∧ ∀ phase ∈ s.threads, phase.msg ≠ some msg then
        some { s.dequeue msg with msgs := Function.update s.msgs msg none }
      else none
  | .stop => some { s with running := false }
  | .run =>
      if s.control = .outside then some { s with running := true, control := .turn } else none

/-- One step of a thread, of the loop, or of the program's own code on the loop's thread. -/
def step (s : State) : Action → Option State
  | .thread t act => s.threadStep t act
  | .loop act => if s.newEnd.isNone then s.loopStep act else none
  | .handler act => if s.inHandler then s.handlerStep act else none
  | .erase => s.erase

theorem step_loop {s t : State} {act : LoopAction} (h : s.step (.loop act) = some t) :
    s.newEnd = none ∧ s.loopStep act = some t := by
  rw [step] at h
  split_ifs at h with hdone
  exact ⟨Option.isNone_iff_eq_none.mp hdone, h⟩

theorem step_handler {s t : State} {act : HandlerAction} (h : s.step (.handler act) = some t) :
    s.control.inProgram = true ∧ s.newEnd = none ∧ s.handlerStep act = some t := by
  rw [step] at h
  split_ifs at h with huser
  rw [inHandler, Bool.and_eq_true, Option.isNone_iff_eq_none] at huser
  exact ⟨huser.1, huser.2, h⟩

end State

/-- Runs of the loop and the threads. -/
abbrev Runs (s : State) : List (State × Action) → State → Prop :=
  Machine.Run (Machine.Fires State.step) s

end Messages

end Craplib
