import Mathlib.Data.Finset.SDiff
import Craplib.Socket.EpollWorker

/-!
# The kqueue socket worker

On the systems with `kqueue` the worker is the same class over another kernel interface:
the members, the deques and the text of `onCall` are those of the epoll worker
(`Epoll.SocketWorker`, `Epoll.Control`), and what differs is modelled here.

* `run` sorts by flags and filter.  The kernel reports each filter of a descriptor by
  itself, so one closed connection may be in a batch twice.
* `registerSocket` adds a read and a write filter for the descriptor of the socket, and
  always enters the socket into `clients`.
* `deregisterSocket` deletes the two filters again, and for that it reads the descriptor
  through the pointer that it is given.  Of a socket that is gone it cannot: such a step
  does not exist, as no call through the pointer of a destroyed socket does.
-/

namespace Craplib

namespace Kqueue

open Epoll (SocketPtr Callback SocketWorker Control)

/-! ## Events -/

/-- The filters that `registerSocket` adds, and so those that `kevent` reports. -/
inductive Filter
  | EVFILT_READ
  | EVFILT_WRITE
deriving DecidableEq

def EV_ERROR : UInt16 := 0x4000
def EV_EOF : UInt16 := 0x8000

/-- `struct kevent`, with `udata` as `registerSocket` set it. -/
structure Kevent where
  filter : Filter
  flags : UInt16
  udata : SocketPtr

/-- `flags & bit`, as a condition. -/
def Kevent.has (ev : Kevent) (bit : UInt16) : Bool := ev.flags &&& bit != 0

/-- The conditions under which `run` puts the socket on `err`. -/
def Kevent.failed (ev : Kevent) : Bool := ev.has EV_ERROR || ev.has EV_EOF

/-- What `kevent` fills `kqEvents[1024]` with when it returns `n > 0`. -/
structure Batch where
  events : List Kevent
  pos : 0 < events.length
  le : events.length ≤ 1024

/-- The body of the loop in `run` over the events of a batch. -/
def classify (w : SocketWorker) (ev : Kevent) : SocketWorker :=
  if ev.has EV_ERROR then { w with err := w.err ++ [ev.udata] }
  else if ev.has EV_EOF then { w with err := w.err ++ [ev.udata] }
  else
    match ev.filter with
    | .EVFILT_READ => { w with read := w.read ++ [ev.udata] }
    | .EVFILT_WRITE => { w with write := w.write ++ [ev.udata] }

/-- One turn of `run` with a batch of events: classify them all, then `c.call()`. -/
def run (w : SocketWorker) (batch : Batch) : SocketWorker :=
  { batch.events.foldl classify w with called := true }

/-! ## The two threads -/

/-- The sockets, the worker they share, the filters in the kernel's queue, and where the
loop thread is. -/
structure State extends Epoll.State where
  /-- `s.getSock()` of every socket constructed so far, by its serial number. -/
  descriptor : ℕ → ℕ := fun _ => 0
  filters : Finset (ℕ × Filter) := ∅
  /-- The serial number of the socket that the last callback was made on.  The source keeps
  its address only. -/
  callee : ℕ := 0

/-- The read and the write filter of a descriptor. -/
def filtersOf (fd : ℕ) : Finset (ℕ × Filter) := {(fd, .EVFILT_READ), (fd, .EVFILT_WRITE)}

namespace State

/-- No socket yet. -/
def init : State := {}

/-- `registerSocket`, for the socket with this serial number. -/
def registerSocket (s : State) (impl : SocketPtr) (serial : ℕ) : State :=
  { s with
    filters := s.filters ∪ filtersOf (s.descriptor serial)
    sta := s.sta.map fun w => { w with clients := insert impl w.clients } }

/-- `deregisterSocket`, of a socket that lives. -/
def deregisterSocket (s : State) (impl : SocketPtr) : Option State := do
  let i ← s.sockets.serial impl
  some { s with
    filters := s.filters \ filtersOf (s.descriptor i)
    sta := s.sta.map fun w => w.deregisterSocket impl }

/-- A socket with the descriptor `fd` is constructed at `a`; its constructor may give up
before it gets to `registerSocket`. -/
def construct (s : State) (a : SocketPtr) (fd : ℕ) (registers : Bool) : Option State := do
  if s.inUserCode then
    let sockets ← s.sockets.construct a ()
    let t := { s with
      toState := { s.toState with sockets := sockets }.addRef
      descriptor := Function.update s.descriptor s.sockets.born fd }
    some (if registers then t.registerSocket a s.sockets.born else t)
  else none

/-- `~RWSocket` and `~LASocket`: deregister, then let go of the worker. -/
def destroy (s : State) (a : SocketPtr) : Option State := do
  if s.inUserCode then
    let _ ← s.sta
    let t ← s.deregisterSocket a
    some { t with toState := { t.toState with sockets := s.sockets.destroy a }.release }
  else none

/-- The worker's thread comes back from `kevent` and gets the lock of its message, which
it does not while the message is with the run loop. -/
def collect (s : State) (batch : Batch) : Option State := do
  let w ← s.sta
  if w.called then none else some { s with sta := some (run w batch) }

/-- The run loop takes the worker's message and calls `onCall`. -/
def dispatch (s : State) : Option State := do
  let t ← s.toState.dispatch
  some { s with toState := t }

/-- What is left of a turn of a loop of `onCall` after the call. -/
def afterCall (s : State) : Callback → SocketPtr → Option State
  | .onDisconnect, cur => s.deregisterSocket cur
  | _, _ => some s

/-- `onCall` at the condition of one of its loops: take the front of the deque and call
it if it is registered; at the end of the deque go on to the next loop, and after the
last one return. -/
def turn (s : State) : Option State :=
  match s.control with
  | .draining n loop => do
      let w ← s.worker? n
      match w.deque loop with
      | cur :: _ =>
          if cur ∈ w.clients then do
            let i ← s.sockets.serial cur
            some { s with sta := some (w.popFront loop), control := .calling n loop cur,
                          callee := i }
          else
            afterCall { s with sta := some (w.popFront loop) } loop cur
      | [] =>
          match loop.next with
          | some loop' => some { s with control := .draining n loop' }
          | none => some { s with sta := some { w with called := false }, control := .idle }
  | _ => none

/-- The callback returns to `onCall`. -/
def ret (s : State) : Option State :=
  match s.control with
  | .calling n loop cur => do
      let _ ← s.worker? n
      let t ← s.afterCall loop cur
      some { t with control := .draining n loop }
  | _ => none

end State

/-- What can happen next. -/
inductive Action
  | collect (batch : Batch)
  | dispatch
  | turn
  | ret
  | construct (a : SocketPtr) (fd : ℕ) (registers : Bool)
  | destroy (a : SocketPtr)

/-- One step of either thread. -/
def State.step (s : State) : Action → Option State
  | .collect batch => s.collect batch
  | .dispatch => s.dispatch
  | .turn => s.turn
  | .ret => s.ret
  | .construct a fd registers => s.construct a fd registers
  | .destroy a => s.destroy a

/-- Runs of the two threads. -/
abbrev Runs (s : State) : List (State × Action) → State → Prop :=
  Machine.Run (Machine.Fires State.step) s

end Kqueue

end Craplib
