import Mathlib.Data.Finset.Card
import Craplib.Lib.Arena
import Craplib.Lib.Runs

/-!
# The epoll socket worker

One `SocketWorker` serves every live `RWSocket` and `LASocket`.  Its own thread waits
in `epoll_wait`, sorts a batch of events into the deques `err`, `read` and `write`, and
hands its message to the run loop (`SocketWorker.run`).  The loop thread then makes the
callbacks from `SocketWorker::onCall`, one while loop after another.

`State.step` interleaves the two threads with whatever the user of the sockets does on
the loop thread, inside callbacks and outside of them: sockets are constructed and
destroyed at any address the allocator gives, which may be one that was used before.

* A turn of `run` is one step: the deques are touched with the message's condition lock
  held, and nobody else touches them until `onCall`.
* `onCall` takes one step for each turn of its loops and one when a callback returns, so
  that anything may happen while the callback runs.
* The worker belongs to `StaticRefCounted`: constructed with the first socket and deleted
  with the last.  A callback that returns into a worker that has been deleted has no step.
-/

namespace Craplib

namespace Epoll

/-! ## Events -/

/-- `SocketImpl*` as the kernel, the deques and `clients` keep it: a bare address. -/
abbrev SocketPtr := ℕ

def EPOLLIN : UInt32 := 0x001
def EPOLLPRI : UInt32 := 0x002
def EPOLLOUT : UInt32 := 0x004
def EPOLLERR : UInt32 := 0x008
def EPOLLHUP : UInt32 := 0x010
def EPOLLRDHUP : UInt32 := 0x2000

/-- `struct epoll_event`, with `data.ptr` as `registerSocket` set it. -/
structure EpollEvent where
  events : UInt32
  ptr : SocketPtr

/-- `events & bit`, as a condition. -/
def EpollEvent.has (ev : EpollEvent) (bit : UInt32) : Bool := ev.events &&& bit != 0

/-- The condition under which `run` puts the socket on `err`. -/
def EpollEvent.hangup (ev : EpollEvent) : Bool :=
  ev.has EPOLLERR || ev.has EPOLLRDHUP || ev.has EPOLLHUP

/-- What `epoll_wait` fills `eqEvents[1024]` with when it returns `n > 0`. -/
structure Batch where
  events : List EpollEvent
  pos : 0 < events.length
  le : events.length ≤ 1024

/-! ## The worker -/

/-- The member functions of `SocketImpl` that `onCall` calls.  Each has a while loop of
its own there. -/
inductive Callback
  | onDisconnect
  | onCanRead
  | onCanWrite
deriving DecidableEq

/-- The loop of `onCall` after the one that makes these callbacks. -/
def Callback.next : Callback → Option Callback
  | .onDisconnect => some .onCanRead
  | .onCanRead => some .onCanWrite
  | .onCanWrite => none

def MAX_CONNECTIONS : ℕ := 65000

/-- `SocketWorker`.  `serial` tells the workers of one run apart, and `called` says that
the worker's message is with the run loop: from `c.call()` until `onCall` has returned. -/
structure SocketWorker where
  serial : ℕ
  clients : Finset SocketPtr := ∅
  read : List SocketPtr := []
  write : List SocketPtr := []
  err : List SocketPtr := []
  called : Bool := false

namespace SocketWorker

/-- The deque that the loop making these callbacks drains. -/
def deque (w : SocketWorker) : Callback → List SocketPtr
  | .onDisconnect => w.err
  | .onCanRead => w.read
  | .onCanWrite => w.write

/-- `pop_front` on the deque of a loop. -/
def popFront (w : SocketWorker) : Callback → SocketWorker
  | .onDisconnect => { w with err := w.err.tail }
  | .onCanRead => { w with read := w.read.tail }
  | .onCanWrite => { w with write := w.write.tail }

/-- The body of the loop in `run` over the events of a batch. -/
def classify (w : SocketWorker) (ev : EpollEvent) : SocketWorker :=
  if ev.hangup then
    { w with err := w.err ++ [ev.ptr] }
  else
    let w := if ev.has EPOLLIN || ev.has EPOLLPRI then
      { w with read := w.read ++ [ev.ptr] } else w
    if ev.has EPOLLOUT then { w with write := w.write ++ [ev.ptr] } else w

/-- One turn of `run` with a batch of events: classify them all, then `c.call()`. -/
def run (w : SocketWorker) (batch : Batch) : SocketWorker :=
  { batch.events.foldl classify w with called := true }

/-- `registerSocket`; `added` is whether `epoll_ctl` takes the descriptor. -/
def registerSocket (w : SocketWorker) (impl : SocketPtr) (added : Bool) : SocketWorker :=
  if w.clients.card ≥ MAX_CONNECTIONS - 1 then w
  else if !added then w
  else { w with clients := insert impl w.clients }

def deregisterSocket (w : SocketWorker) (impl : SocketPtr) : SocketWorker :=
  { w with clients := w.clients.erase impl }

/-- What is left of a turn of a loop of `onCall` after the call: only the disconnect loop
does anything. -/
def afterCall (w : SocketWorker) : Callback → SocketPtr → SocketWorker
  | .onDisconnect, cur => w.deregisterSocket cur
  | _, _ => w

end SocketWorker

/-! ## The two threads -/

/-- Where the loop thread is. -/
inductive Control
  /-- Outside `onCall`. -/
  | idle
  /-- In `onCall` of this worker, at the condition of the loop that makes these calls. -/
  | draining (worker : ℕ) (loop : Callback)
  /-- In `cur->loop()`, called from there. -/
  | calling (worker : ℕ) (loop : Callback) (cur : SocketPtr)
deriving DecidableEq

/-- The sockets, the worker they share, and where the loop thread is. -/
structure State where
  /-- The live sockets. -/
  sockets : Arena SocketPtr Unit := .empty
  /-- `StaticRefCounted<SocketWorker>::ref_counter` -/
  refCounter : ℕ := 0
  /-- `StaticRefCounted<SocketWorker>::sta` -/
  sta : Option SocketWorker := none
  /-- How many workers have been constructed. -/
  workers : ℕ := 0
  control : Control := .idle

namespace State

/-- No socket yet. -/
def init : State := {}

/-- The loop thread runs the program's own code: outside `onCall`, or in a callback. -/
def inUserCode (s : State) : Bool :=
  match s.control with
  | .draining _ _ => false
  | _ => true

/-- `StaticRefCounted()` -/
def addRef (s : State) : State :=
  if s.refCounter + 1 = 1 then
    { s with refCounter := s.refCounter + 1, sta := some { serial := s.workers },
             workers := s.workers + 1 }
  else
    { s with refCounter := s.refCounter + 1 }

/-- `~StaticRefCounted()` -/
def release (s : State) : State :=
  if s.refCounter - 1 = 0 then
    { s with refCounter := s.refCounter - 1, sta := none }
  else
    { s with refCounter := s.refCounter - 1 }

/-- A socket is constructed at `a`.  Its constructor may give up before it gets to
`registerSocket` (`none`); if it gets there, `epoll_ctl` may refuse. -/
def construct (s : State) (a : SocketPtr) (registers : Option Bool) : Option State := do
  if s.inUserCode then
    let sockets ← s.sockets.construct a ()
    let s := { s with sockets := sockets }.addRef
    match registers with
    | none => some s
    | some added => do
        let w ← s.sta
        some { s with sta := some (w.registerSocket a added) }
  else none

/-- `~RWSocket` and `~LASocket`: deregister, then let go of the worker. -/
def destroy (s : State) (a : SocketPtr) : Option State := do
  if s.inUserCode then
    let _ ← s.sockets.serial a
    let w ← s.sta
    some { s with
      sockets := s.sockets.destroy a
      sta := some (w.deregisterSocket a) }.release
  else none

/-- The worker's thread comes back from `epoll_wait` and gets the lock of its message,
which it does not while the message is with the run loop. -/
def collect (s : State) (batch : Batch) : Option State := do
  let w ← s.sta
  if w.called then none else some { s with sta := some (w.run batch) }

/-- The run loop takes the worker's message and calls `onCall`. -/
def dispatch (s : State) : Option State := do
  let w ← s.sta
  if s.control = .idle ∧ w.called then
    some { s with control := .draining w.serial .onDisconnect }
  else none

/-- The worker whose `onCall` the loop thread is in, if it still exists. -/
def worker? (s : State) (serial : ℕ) : Option SocketWorker :=
  s.sta.filter (·.serial = serial)

/-- `onCall` at the condition of one of its loops: take the front of the deque and call
it if it is registered; at the end of the deque go on to the next loop, and after the
last one return. -/
def turn (s : State) : Option State :=
  match s.control with
  | .draining n loop => do
      let w ← s.worker? n
      match w.deque loop with
      | cur :: _ =>
          if cur ∈ w.clients then
            some { s with sta := some (w.popFront loop), control := .calling n loop cur }
          else
            some { s with sta := some ((w.popFront loop).afterCall loop cur) }
      | [] =>
          match loop.next with
          | some loop' => some { s with control := .draining n loop' }
          | none => some { s with sta := some { w with called := false }, control := .idle }
  | _ => none

/-- The callback returns to `onCall`. -/
def ret (s : State) : Option State :=
  match s.control with
  | .calling n loop cur => do
      let w ← s.worker? n
      some { s with sta := some (w.afterCall loop cur), control := .draining n loop }
  | _ => none

end State

/-- What can happen next. -/
inductive Action
  | collect (batch : Batch)
  | dispatch
  | turn
  | ret
  | construct (a : SocketPtr) (registers : Option Bool)
  | destroy (a : SocketPtr)

/-- One step of either thread. -/
def State.step (s : State) : Action → Option State
  | .collect batch => s.collect batch
  | .dispatch => s.dispatch
  | .turn => s.turn
  | .ret => s.ret
  | .construct a registers => s.construct a registers
  | .destroy a => s.destroy a

/-- Runs of the two threads. -/
abbrev Runs (s : State) : List (State × Action) → State → Prop :=
  Machine.Run (Machine.Fires State.step) s

end Epoll

end Craplib
