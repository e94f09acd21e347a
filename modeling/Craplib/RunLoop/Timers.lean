import Mathlib.Algebra.GroupWithZero.Nat
import Mathlib.Data.Finset.Basic
import Mathlib.Logic.Function.Basic
import Craplib.Lib.LowerBound
import Craplib.Lib.Runs

/-!
# Timers on a run loop

The deque `RunLoop::timers` holds the timers that are set, by pointer; the fire time is a
field of the timer itself, and `PtrCmp` compares these fields.  `Timer::set` takes the
timer out of the deque, changes its fire time and puts it back at the lower bound;
`RunLoop::run` takes due timers from the front and calls them.

`State.step` interleaves the loop of `RunLoop::run` with what the program does on the same
thread: before `run`, in `onCall` of a message and in `onTimer`, it may construct, set,
cancel and destroy any timer, or call `run` itself.  The clock moves on between any two
steps.  Times are the values of an arbitrary linear order with an addition.
-/

namespace Craplib

namespace Timers

open LowerBound

universe u

/-- `Timer *` -/
abbrev TimerPtr := ℕ

/-- Where a call of `run` is. -/
inductive Frame
  /-- It waits for a message or for the first timer. -/
  | waiting
  /-- In `processedMsg->onCall()`. -/
  | inCall
  /-- At the condition of the loop over the due timers. -/
  | timerLoop
  /-- In `onTimer` of this timer. -/
  | inTimer (timer : TimerPtr)
deriving DecidableEq

/-- A run loop and the timers of its thread. -/
structure State (T : Type u) where
  /-- `Timing::currentTime()` -/
  clock : T
  /-- The field `fire` of each timer. -/
  fire : TimerPtr → T
  /-- The timers that have been constructed and not destroyed. -/
  alive : Finset TimerPtr := ∅
  timers : List TimerPtr := []
  running : Bool := false
  msgCnt : ℕ := 0
  /-- The calls of `run`, the innermost first: a callback may call `run` again. -/
  calls : List Frame := []

namespace State

variable {T : Type u}

/-- A run loop without timers. -/
def init [Zero T] (now : T) : State T := { clock := now, fire := fun _ => 0 }

/-- The thread is in code of the program. -/
def inUserCode (s : State T) : Bool :=
  match s.calls with
  | [] | .inCall :: _ | .inTimer _ :: _ => true
  | .waiting :: _ | .timerLoop :: _ => false

/-- `RunLoop::dequeue(Timer*)`: `erase` and `remove` take out every occurrence. -/
def dequeue (s : State T) (timer : TimerPtr) : State T :=
  { s with timers := s.timers.filter (· ≠ timer) }

section Order

variable [LinearOrder T]

/-- `RunLoop::enqueue(Timer*)`: insert at the lower bound in the order of `PtrCmp`. -/
def enqueue (s : State T) (timer : TimerPtr) : State T :=
  let bound := lowerBound (fun a => s.fire a < s.fire timer) s.timers
  { s with timers := insertAt s.timers bound timer }

/-- `Timer::set` -/
def set [Add T] (s : State T) (timer : TimerPtr) (time : T) : State T :=
  let s := s.dequeue timer
  let s := { s with fire := Function.update s.fire timer (s.clock + time) }
  s.enqueue timer

/-- The end of a turn of the loop of `run`, and its condition; `outer` are the calls of
`run` around this one. -/
def leaveTimerLoop (s : State T) (outer : List Frame) : State T :=
  let running := if s.timers = [] ∧ s.msgCnt = 0 then false else s.running
  { s with running := running, calls := if running then .waiting :: outer else outer }

/-- The condition of the loop over the due timers: the first timer is taken out and called
if its time has come. -/
def checkTimers (s : State T) (outer : List Frame) : State T :=
  match s.timers with
  | [] => s.leaveTimerLoop outer
  | timer :: rest =>
      if s.clock < s.fire timer then s.leaveTimerLoop outer
      else { s with timers := rest, calls := .inTimer timer :: outer }

end Order

end State

/-- What can happen next. -/
inductive Action (T : Type u)
  /-- Time passes. -/
  | tick (now : T)
  | construct (timer : TimerPtr)
  | set (timer : TimerPtr) (time : T)
  | cancel (timer : TimerPtr)
  | destroy (timer : TimerPtr)
  | registerMsg
  | deregisterMsg
  | stop
  /-- `run` is called. -/
  | run
  /-- The wait is over, with a message or without one. -/
  | wake (processedMsg : Bool)
  | checkTimers
  /-- `onCall` or `onTimer` returns. -/
  | ret

namespace State

variable {T : Type u} [LinearOrder T] [Add T] [Zero T]

/-- What the program does on the thread of the run loop, in a callback or outside `run`. -/
def userStep (s : State T) : Action T → Option (State T)
  | .construct timer =>
      if timer ∈ s.alive then none
      else some { s with alive := insert timer s.alive, fire := Function.update s.fire timer 0 }
  | .set timer time => if timer ∈ s.alive then some (s.set timer time) else none
  | .cancel timer => if timer ∈ s.alive then some (s.dequeue timer) else none
  | .destroy timer =>
      if timer ∈ s.alive then
        let s := s.dequeue timer
        some { s with alive := s.alive.erase timer }
      else none
  | .registerMsg => some { s with msgCnt := s.msgCnt + 1 }
  | .deregisterMsg => if s.msgCnt = 0 then none else some { s with msgCnt := s.msgCnt - 1 }
  | .stop => some { s with running := false }
  | .run => some { s with running := true, calls := .waiting :: s.calls }
  | _ => none

/-- One step of the run loop, of the program's own code, or of the clock. -/
def step (s : State T) (act : Action T) : Option (State T) :=
  match act, s.calls with
  | .tick now, _ => if s.clock ≤ now then some { s with clock := now } else none
  | .wake true, .waiting :: outer => some { s with calls := .inCall :: outer }
  | .wake false, .waiting :: outer => some { s with calls := .timerLoop :: outer }
  | .checkTimers, .timerLoop :: outer => some (s.checkTimers outer)
  | .ret, .inCall :: outer | .ret, .inTimer _ :: outer =>
      some { s with calls := .timerLoop :: outer }
  | act, _ => if s.inUserCode then s.userStep act else none

end State

/-- Runs of the loop. -/
abbrev Runs {T : Type u} [LinearOrder T] [Add T] [Zero T] (s : State T) :
    List (State T × Action T) → State T → Prop :=
  Machine.Run (Machine.Fires State.step) s

end Timers

end Craplib
