import Mathlib.Data.Finset.Card
import Craplib.Socket.EpollWorker

/-!
# The select socket worker

On the systems with neither `epoll` nor `kqueue` the worker keeps the sockets in a deque of its
own and asks `select` about their descriptors.  Its thread waits on a condition until there is
a client, builds the three sets, and hands what `select` left of them to the run loop, which
goes through the clients once more to find out whose bits are set (`handleChanges`).

Unlike its siblings this worker shares `clients` between the two threads, and `handleChanges`
makes its calls without looking whether the socket is still registered: `deregisterSocket` is
what takes a socket out of the deques.

* Whatever is done under the lock of `c` is one step, and so is the turn of the thread inside
  its `ActiveCall`: what they touch is touched under the same lock, or by nobody else until
  `onCall`.
* The code reads `getSock()` through the pointers in `clients`.  Where no socket lives at such
  an address the step does not exist.
* The destructor of the last socket deletes the worker, and its thread is joined; until then
  the loop thread does nothing else (`Teardown`).
-/

namespace Craplib

namespace Select

open Epoll (SocketPtr Callback Control)

/-! ## Descriptor sets -/

def FD_SETSIZE : ℤ := 1024

/-- `fd_set`.  A number outside of `0 … FD_SETSIZE - 1` would be written outside of the set;
here it is in it. -/
abbrev FdSet := Finset ℤ

/-- `readfd`, `writefd` and `errfd`, or their copies. -/
structure FdSets where
  readfd : FdSet := ∅
  writefd : FdSet := ∅
  errfd : FdSet := ∅
deriving DecidableEq

namespace FdSets

/-- `FD_SET`, on all three. -/
def fdSet (sets : FdSets) (sock : ℤ) : FdSets :=
  ⟨insert sock sets.readfd, insert sock sets.writefd, insert sock sets.errfd⟩

/-- The set whose bits lead to these calls. -/
def of (sets : FdSets) : Callback → FdSet
  | .onDisconnect => sets.errfd
  | .onCanRead => sets.readfd
  | .onCanWrite => sets.writefd

/-- The return value of a `select` that leaves these sets. -/
def count (sets : FdSets) : ℕ := sets.readfd.card + sets.writefd.card + sets.errfd.card

/-- `select(nfds, …)` may leave these sets of `asked`. -/
def LeftOf (sets asked : FdSets) (nfds : ℤ) : Prop :=
  (∀ sock ∈ sets.readfd, sock ∈ asked.readfd ∧ sock < nfds) ∧
  (∀ sock ∈ sets.writefd, sock ∈ asked.writefd ∧ sock < nfds) ∧
  ∀ sock ∈ sets.errfd, sock ∈ asked.errfd ∧ sock < nfds

instance (sets asked : FdSets) (nfds : ℤ) : Decidable (sets.LeftOf asked nfds) :=
  inferInstanceAs (Decidable (_ ∧ _ ∧ _))

end FdSets

/-! ## The worker -/

/-- Where the thread of the worker is in `run`. -/
inductive Position
  /-- It needs the mutex of `c`, to pass `CondLock lock(c, true)`. -/
  | locking
  /-- In `Threads::wait`, there. -/
  | waiting
  /-- In `select(nfds, …)`. -/
  | selecting (nfds : ℤ)
  /-- It needs the mutex of the message, in the constructor of `ActiveCall`. -/
  | entering
  /-- In `Threads::wait`, there. -/
  | asleep
  /-- The constructor of `ActiveCall` has returned; the thread holds the mutex. -/
  | inside
  | ended
deriving DecidableEq

inductive Message
  | IDLE
  | ONCHANGES
deriving DecidableEq

/-- `SocketWorker`.  `serial` tells the workers of one run apart. -/
structure SocketWorker where
  serial : ℕ
  /-- `d_` of `c`. -/
  d : Bool := false
  clients : List SocketPtr := []
  read : List SocketPtr := []
  write : List SocketPtr := []
  err : List SocketPtr := []
  message : Message := .IDLE
  sets : FdSets := {}
  copies : FdSets := {}
  thread : Position := .locking
  /-- `d_` of the message's condition: it is with the run loop. -/
  called : Bool := false
  /-- The message has been told to terminate. -/
  destroyed : Bool := false
deriving DecidableEq

/-- The loop of `handleChanges` after the one that makes these callbacks. -/
def next : Callback → Option Callback
  | .onCanRead => some .onCanWrite
  | .onCanWrite => some .onDisconnect
  | .onDisconnect => none

namespace SocketWorker

/-- The deque that the loop making these callbacks drains. -/
def deque (w : SocketWorker) : Callback → List SocketPtr
  | .onDisconnect => w.err
  | .onCanRead => w.read
  | .onCanWrite => w.write

/-- `pop_front` on the deque of a loop. -/
def popFront (w : SocketWorker) : Callback → SocketWorker
  | .onDisconnect => { w with err := w.err.tail }
  | .onCanRead => { w with read := w.read.tail }
  | .onCanWrite => { w with write := w.write.tail }

/-- `CondLock::set` on `c`, which wakes the thread if it waits there. -/
def set (w : SocketWorker) (val : Bool) : SocketWorker :=
  { w with d := val, thread := if w.thread = .waiting then .locking else w.thread }

/-- The thread wakes up, if it waits for the message to be free. -/
def signal (w : SocketWorker) : SocketWorker :=
  { w with thread := if w.thread = .asleep then .entering else w.thread }

/-- `registerSocket`, for a socket with this descriptor. -/
def registerSocket (w : SocketWorker) (impl : SocketPtr) (sock : ℤ) : SocketWorker :=
  if sock ≥ FD_SETSIZE then w
  else { w with clients := w.clients ++ [impl] }.set true

def deregisterSocket (w : SocketWorker) (impl : SocketPtr) : SocketWorker :=
  let w := { w with
    clients := w.clients.filter (· ≠ impl)
    read := w.read.filter (· ≠ impl)
    write := w.write.filter (· ≠ impl)
    err := w.err.filter (· ≠ impl) }
  w.set (!w.clients.isEmpty)

/-- The loop in `run` that fills the sets and finds `maxSock`; `getSock` reads the descriptor
through a pointer. -/
def fillSets (clients : List SocketPtr) (getSock : SocketPtr → Option ℤ) : Option (FdSets × ℤ) :=
  clients.foldlM (fun (sets, maxSock) cur => do
    let sock ← getSock cur
    some (sets.fdSet sock, if maxSock > sock then maxSock else sock)) ({}, 0)

/-- What `run` does with the lock of `c`, and the call of `select`. -/
def prepare (w : SocketWorker) (getSock : SocketPtr → Option ℤ) : Option SocketWorker := do
  let (sets, maxSock) ← fillSets w.clients getSock
  some { w with d := !w.clients.isEmpty, sets := sets, thread := .selecting (maxSock + 1) }

/-- The first loop of `handleChanges`. -/
def queueChanges (w : SocketWorker) (getSock : SocketPtr → Option ℤ) : Option SocketWorker :=
  w.clients.foldlM (fun w cur => do
    let sock ← getSock cur
    some { w with
      read := if sock ∈ w.copies.readfd then w.read ++ [cur] else w.read
      write := if sock ∈ w.copies.writefd then w.write ++ [cur] else w.write
      err := if sock ∈ w.copies.errfd then w.err ++ [cur] else w.err }) w

end SocketWorker

/-- What the thread of the worker can do. -/
inductive ThreadAction
  /-- `CondLock lock(c, true)`: the mutex is free, and `d_` is tested. -/
  | lock
  /-- `select` returns, with these sets left. -/
  | select (left : FdSets)
  /-- `select` fails. -/
  | fail
  /-- `ActiveCall c(t.msg)`: the mutex is free, and `d_` is tested. -/
  | enter
  /-- The sets are copied, `c.call()`, and the mutex let go. -/
  | work
  /-- `Threads::wait` returns without a signal. -/
  | wake
deriving DecidableEq

/-- One step of `SocketWorker::run`. -/
def SocketWorker.threadStep (w : SocketWorker) (getSock : SocketPtr → Option ℤ) :
    ThreadAction → Option SocketWorker
  | .lock =>
      match w.thread with
      | .locking => if w.d then w.prepare getSock else some { w with thread := .waiting }
      | _ => none
  | .select left =>
      match w.thread with
      | .selecting nfds =>
          if left.LeftOf w.sets nfds then
            some { w with sets := left, thread := if left.count > 0 then .entering else .locking }
          else none
      | _ => none
  | .fail =>
      match w.thread with
      | .selecting _ => some { w with thread := .locking }
      | _ => none
  | .enter =>
      match w.thread with
      | .entering =>
          if w.called then some { w with thread := .asleep }
          -- the constructor throws, and `Thread::execute` ends the thread
          else if w.destroyed then some { w with thread := .ended }
          else some { w with thread := .inside }
      | _ => none
  | .work =>
      match w.thread with
      | .inside =>
          some { w with message := .ONCHANGES, copies := w.sets, called := true,
                        thread := .locking }
      | _ => none
  | .wake =>
      match w.thread with
      | .waiting => some { w with thread := .locking }
      | .asleep => some w.signal
      | _ => none

/-! ## The two threads -/

/-- Where `~SocketWorker` is. -/
inductive Teardown
  /-- At `t.requestTermination()`. -/
  | requesting
  /-- At `t.waitTermination()`. -/
  | joining
deriving DecidableEq

/-- The sockets with their descriptors, the worker they share, and where the loop thread is. -/
structure State where
  sockets : Arena SocketPtr ℤ := .empty
  /-- `StaticRefCounted<SocketWorker>::ref_counter` -/
  refCounter : ℕ := 0
  /-- `StaticRefCounted<SocketWorker>::sta` -/
  sta : Option SocketWorker := none
  /-- How many workers have been constructed. -/
  workers : ℕ := 0
  control : Control := .idle
  teardown : Option Teardown := none

namespace State

/-- No socket yet. -/
def init : State := {}

/-- `impl->s.getSock()` -/
def getSock (s : State) (a : SocketPtr) : Option ℤ := (s.sockets.object a).map Prod.snd

/-- The loop thread runs the program's own code: outside `onCall`, or in a callback. -/
def inUserCode (s : State) : Bool :=
  match s.control, s.teardown with
  | .draining _ _, _ | _, some _ => false
  | _, none => true

/-- `StaticRefCounted()` -/
def addRef (s : State) : State :=
  if s.refCounter + 1 = 1 then
    { s with refCounter := s.refCounter + 1, sta := some { serial := s.workers },
             workers := s.workers + 1 }
  else
    { s with refCounter := s.refCounter + 1 }

/-- A socket with the descriptor `sock` is constructed at `a`; its constructor may give up
before it gets to `registerSocket`. -/
def construct (s : State) (a : SocketPtr) (sock : ℤ) (registers : Bool) : Option State := do
  if s.inUserCode then
    let sockets ← s.sockets.construct a sock
    let s := { s with sockets := sockets }.addRef
    if registers then
      let w ← s.sta
      some { s with sta := some (w.registerSocket a sock) }
    else some s
  else none

/-- `~RWSocket` and `~LASocket`: deregister, then let go of the worker.  For the last socket
this goes as far as `~SocketWorker`, and `join` does the rest. -/
def destroy (s : State) (a : SocketPtr) : Option State := do
  if s.inUserCode then
    let _ ← s.sockets.serial a
    let w ← s.sta
    some { s with
      sockets := s.sockets.destroy a
      sta := some (w.deregisterSocket a)
      refCounter := s.refCounter - 1
      teardown := if s.refCounter - 1 = 0 then some .requesting else none }
  else none

/-- The run loop takes the worker's message and calls `onCall`. -/
def dispatch (s : State) : Option State := do
  let w ← s.sta
  if s.control = .idle ∧ s.teardown = none ∧ w.called then
    match w.message with
    | .ONCHANGES => do
        let w ← w.queueChanges s.getSock
        some { s with sta := some w, control := .draining w.serial .onCanRead }
    | .IDLE => some { s with sta := some { w with called := false }.signal }
  else none

/-- The worker whose `onCall` the loop thread is in, if it still exists. -/
def worker? (s : State) (serial : ℕ) : Option SocketWorker :=
  s.sta.filter (·.serial = serial)

/-- `handleChanges` at the condition of one of its last three loops: call the front of the
deque; at the end of the deque go on to the next loop, and after the last one return.  Behind
`onCall` the run loop lets the message go. -/
def turn (s : State) : Option State :=
  match s.control with
  | .draining n loop => do
      let w ← s.worker? n
      match w.deque loop with
      | cur :: _ => some { s with sta := some (w.popFront loop), control := .calling n loop cur }
      | [] =>
          match next loop with
          | some loop' => some { s with control := .draining n loop' }
          | none => some { s with sta := some { w with called := false }.signal, control := .idle }
  | _ => none

/-- The callback returns to `handleChanges`. -/
def ret (s : State) : Option State :=
  match s.control, s.teardown with
  | .calling n loop _, none => do
      let _ ← s.worker? n
      some { s with control := .draining n loop }
  | _, _ => none

/-- `t.requestTermination()`, when the thread does not have the mutex. -/
def requestTermination (s : State) : Option State := do
  let w ← s.sta
  if s.teardown = some .requesting ∧ w.thread ≠ .inside then
    some { s with sta := some { w with destroyed := true, called := false }.signal,
                  teardown := some .joining }
  else none

/-- `t.waitTermination()` returns, and the worker is gone. -/
def join (s : State) : Option State := do
  let w ← s.sta
  if s.teardown = some .joining ∧ w.thread = .ended then
    some { s with sta := none, teardown := none }
  else none

end State

/-- What can happen next. -/
inductive Action
  | thread (act : ThreadAction)
  | dispatch
  | turn
  | ret
  | construct (a : SocketPtr) (sock : ℤ) (registers : Bool)
  | destroy (a : SocketPtr)
  | requestTermination
  | join

/-- One step of either thread. -/
def State.step (s : State) : Action → Option State
  | .thread act => do
      let w ← s.sta
      let w ← w.threadStep s.getSock act
      some { s with sta := some w }
  | .dispatch => s.dispatch
  | .turn => s.turn
  | .ret => s.ret
  | .construct a sock registers => s.construct a sock registers
  | .destroy a => s.destroy a
  | .requestTermination => s.requestTermination
  | .join => s.join

/-- Runs of the two threads. -/
abbrev Runs (s : State) : List (State × Action) → State → Prop :=
  Machine.Run (Machine.Fires State.step) s

end Select

end Craplib
