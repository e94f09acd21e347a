import Mathlib.Logic.Function.Basic
import Craplib.Lib.Arena
import Craplib.Lib.Runs

/-!
# The resolver's pool of workers

`AsyncAddrInfo::Impl` owns two workers, created when the first request comes.  A request
waits in `waiting_addrs` until `assign_work` gives it to a free worker; the worker's
thread makes the lookup and hands its message to the run loop; `Worker::onCall` compares
the result with the request the worker holds now and, if it is for that host and service,
makes the callback.

`State.step` interleaves the worker threads with the loop thread.  On the loop thread
`AsyncAddrInfo` objects are constructed and destroyed, at addresses that may have been
used before, inside `on_resolved` and outside of it.

* A worker's thread takes a step when it takes a lookup out of `need_work` and one when it
  publishes the result: with the lock of its message held, which it does not get while the
  message is with the run loop.
* `onCall` takes one step up to the delegate's `on_resolved`, and one when that returns.
* The `addr` of a worker may point to a request that has been destroyed, and `onCall` reads
  the host and the service through it all the same.  Whatever stands there then agrees with
  the result or does not: the step exists either way, and `stale` says which.
-/

namespace Craplib

namespace Resolver

/-- `AsyncAddrInfo *`, as the workers and `waiting_addrs` keep it: a bare address. -/
abbrev Addr := ℕ

/-- `addrinfo *`, as `getaddrinfo` hands it out. -/
abbrev AddrInfoPtr := ℕ

/-- `AsyncAddrInfo::HostService` -/
structure HostService where
  host : String := ""
  service : String := ""
deriving DecidableEq

/-- `AsyncAddrInfo::Impl::Worker`; a pointer that may be null is an `Option`. -/
structure Worker where
  addr : Option Addr := none
  /-- Protected by `has_work_or_quit`, whose flag is `!need_work.empty()`. -/
  needWork : List HostService := []
  /-- `local_work` of `run`, while the thread is looking it up. -/
  localWork : Option HostService := none
  /-- Protected by `thm.msg`. -/
  res : Option AddrInfoPtr := none
  /-- Protected by `thm.msg`. -/
  resWork : HostService := {}
  /-- The message `thm.msg` is with the run loop, from `call.call()` until `onCall` has
  returned. -/
  called : Bool := false

namespace Worker

def startWork (w : Worker) (addr : Addr) (hs : HostService) : Worker :=
  { w with addr := some addr, needWork := w.needWork ++ [hs] }

/-- `cancel_work`.  The assignment `addr = 0` in its body is to the parameter: the
member `this->addr` keeps its value. -/
def cancelWork (w : Worker) (addr : Addr) : Bool × Worker :=
  if some addr ≠ w.addr then (false, w)
  else (true, w)

end Worker

/-- Where the loop thread is. -/
inductive Control
  /-- Outside `onCall` of any worker. -/
  | idle
  /-- In `addr->delegate.on_resolved`, called from `onCall` of this worker. -/
  | resolving (worker : ℕ) (addr : Addr)
deriving DecidableEq

/-- `AsyncAddrInfo::Impl::static_impl`, the live requests, and the queue of the run loop. -/
structure State where
  /-- The live `AsyncAddrInfo` objects, with their `hs`. -/
  objects : Arena Addr HostService := .empty
  /-- The workers by number; those from `workers` on have not been created. -/
  worker : ℕ → Worker := fun _ => {}
  workers : ℕ := 0
  freeWorkers : List ℕ := []
  workingWorkers : List ℕ := []
  waitingAddrs : List Addr := []
  /-- The workers whose message waits in the run loop. -/
  queue : List ℕ := []
  control : Control := .idle

namespace State

/-- No request yet. -/
def init : State := {}

def setWorker (s : State) (k : ℕ) (w : Worker) : State :=
  { s with worker := Function.update s.worker k w }

/-- The loop of `return_worker_with`, from index `i` with `n` elements of
`working_workers` to go. -/
def returnFrom (addr : Addr) : ℕ → ℕ → State → State
  | 0, _, s => s
  | n + 1, i, s =>
      match s.workingWorkers[i]?, s.workingWorkers.getLast? with
      | some k, some back =>
          let (cancelled, w) := (s.worker k).cancelWork addr
          let s := s.setWorker k w
          if cancelled then
            returnFrom addr n i { s with
              freeWorkers := s.freeWorkers ++ [k]
              -- swap with `back()`, then `pop_back()`
              workingWorkers := (s.workingWorkers.set i back).dropLast }
          else
            returnFrom addr n (i + 1) s
      | _, _ => s

def returnWorkerWith (s : State) (addr : Addr) : State :=
  returnFrom addr s.workingWorkers.length 0 s

/-- The first two workers are created when there are none. -/
def createWorkers (s : State) : State :=
  if s.workingWorkers.length + s.freeWorkers.length = 0 then
    { s with workers := s.workers + 2
             freeWorkers := s.freeWorkers ++ [s.workers, s.workers + 1] }
  else s

/-- `assign_work`: the last free worker gets the first waiting request. -/
def assignWork (s : State) : Option State := do
  let s := s.createWorkers
  match s.freeWorkers.getLast?, s.waitingAddrs with
  | some k, addr :: waiting => do
      let object ← s.objects.object addr
      some { s with
        workingWorkers := s.workingWorkers ++ [k]
        freeWorkers := s.freeWorkers.dropLast
        waitingAddrs := waiting
        worker := Function.update s.worker k ((s.worker k).startWork addr object.2) }
  | _, _ => some s

def startResolve (s : State) (addr : Addr) : Option State :=
  assignWork { s with waitingAddrs := s.waitingAddrs ++ [addr] }

def cancelResolve (s : State) (addr : Addr) : State :=
  if addr ∈ s.waitingAddrs then
    { s with waitingAddrs := s.waitingAddrs.erase addr }
  else
    s.returnWorkerWith addr

/-- `AsyncAddrInfo(delegate, host, service)` -/
def construct (s : State) (addr : Addr) (hs : HostService) : Option State := do
  let objects ← s.objects.construct addr hs
  startResolve { s with objects := objects } addr

/-- `~AsyncAddrInfo()` -/
def destroy (s : State) (addr : Addr) : Option State := do
  let _ ← s.objects.serial addr
  let s := s.cancelResolve addr
  some { s with objects := s.objects.destroy addr }

/-- The thread of a worker takes a lookup out of `need_work`. -/
def take (s : State) (k : ℕ) : Option State :=
  match (s.worker k).localWork, (s.worker k).needWork with
  | none, hs :: rest =>
      some (s.setWorker k { s.worker k with localWork := some hs, needWork := rest })
  | _, _ => none

/-- The lookup has returned, and the thread publishes what it returned (null if it
failed) and calls its message. -/
def publish (s : State) (k : ℕ) (res : Option AddrInfoPtr) : Option State :=
  match (s.worker k).localWork with
  | some hs =>
      if (s.worker k).called then none
      else
        let s := s.setWorker k
          { s.worker k with localWork := none, res := res, resWork := hs, called := true }
        some { s with queue := s.queue ++ [k] }
  | none => none

/-- What comparing `addr->hs` with `res_work` gives. -/
def matched (s : State) (addr : Addr) (resWork : HostService) (stale : Bool) : Bool :=
  match s.objects.object addr with
  | some (_, hs) => hs.host = resWork.host ∧ hs.service = resWork.service
  | none => stale

/-- `onCall` of a worker, up to the delegate's callback if there is one. -/
def onCall (s : State) (k : ℕ) (stale : Bool) : State :=
  let released := s.setWorker k { s.worker k with called := false }
  match (s.worker k).addr with
  | none => released
  | some addr =>
      if s.matched addr (s.worker k).resWork stale then
        { s.returnWorkerWith addr with control := .resolving k addr }
      else
        released

/-- The run loop pops the first message and calls it. -/
def deliver (s : State) (stale : Bool) : Option State :=
  match s.control, s.queue with
  | .idle, k :: queue => some (onCall { s with queue := queue } k stale)
  | _, _ => none

/-- The delegate's `on_resolved` returns: `assign_work`, and the message is released. -/
def ret (s : State) : Option State :=
  match s.control with
  | .resolving k _ => do
      let s ← s.assignWork
      some { s.setWorker k { s.worker k with called := false } with control := .idle }
  | .idle => none

end State

/-- What can happen next. -/
inductive Action
  | construct (addr : Addr) (hs : HostService)
  | destroy (addr : Addr)
  | take (k : ℕ)
  | publish (k : ℕ) (res : Option AddrInfoPtr)
  /-- `stale` is what the comparison in `onCall` gives when the request is gone. -/
  | deliver (stale : Bool := false)
  | ret

/-- One step of the loop thread or of a worker's thread. -/
def State.step (s : State) : Action → Option State
  | .construct addr hs => s.construct addr hs
  | .destroy addr => s.destroy addr
  | .take k => s.take k
  | .publish k res => s.publish k res
  | .deliver stale => s.deliver stale
  | .ret => s.ret

/-- Runs of the pool. -/
abbrev Runs (s : State) : List (State × Action) → State → Prop :=
  Machine.Run (Machine.Fires State.step) s

end Resolver

end Craplib
