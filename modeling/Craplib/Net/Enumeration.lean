import Craplib.Net.Interface
import Craplib.RunLoop.Waits

/-!
# Enumerating the network interfaces

The thread of a `NetworkInterfaces` goes through the list of `getifaddrs`.  For each entry it
waits in the constructor of an `ActiveCall` until its message is free, assigns `curInterface`
and calls; on the run loop `onCall` compares the family with the filter and tells the delegate.
The constructor of `NetworkInterface` swaps the address out of the entry, and what was in the
storage of the new object into it; and it reads the family of the address first, which for an
entry without an address is a read through the null pointer.

The run loop, its other messages and the other threads are those of `Messages`; here a step of
theirs is one of the enumeration too, and `allowed` says what the thread can do next, and what
is left to the object itself.
-/

namespace Craplib

open Messages

/-! ## The list of `getifaddrs` -/

/-- The values of `sa_family`. -/
inductive SaFamily
  | AF_INET
  | AF_INET6
  | other (number : ℕ)
  deriving DecidableEq

/-- How the platform lays out a socket address, and what it writes for one. -/
structure Platform where
  saFamily : SockAddr → SaFamily
  /-- `inet_ntoa` -/
  inetNtoa : (Fin 4 → UInt8) → Str
  /-- `inet_ntop(AF_INET6, ...)` -/
  inetNtop : (Fin 16 → UInt8) → Str

/-- `struct ifaddrs`, without the link to the next entry. -/
structure IfAddrs where
  ifaName : Str
  /-- `none` is the null pointer. -/
  ifaAddr : Option SockAddr

/-- `sin_addr` -/
def sinAddr (addr : SockAddr) : Fin 4 → UInt8 := fun i => addr ⟨4 + i.val, by omega⟩

/-- `sin6_addr` -/
def sin6Addr (addr : SockAddr) : Fin 16 → UInt8 := fun i => addr ⟨8 + i.val, by omega⟩

namespace NetworkInterface

/-- `NetworkInterface(ifaddrs* inaddr)` in storage that held `garbage`: the new object, and what
has become of the entry.  `none` is a read through the null pointer. -/
def ofIfAddrs (pf : Platform) (garbage : SockAddr) (inaddr : IfAddrs) :
    Option (NetworkInterface × IfAddrs) :=
  match inaddr.ifaAddr with
  | none => none
  | some addr =>
      match pf.saFamily addr with
      | .AF_INET6 =>
          let (addr6, addr') := swapBytes sizeofAddr6 garbage addr
          some ({ ip := pf.inetNtop (sin6Addr addr), name := inaddr.ifaName, addr := addr6,
                  family := .IPv6 }, { inaddr with ifaAddr := some addr' })
      | .AF_INET =>
          let (addr4, addr') := swapBytes sizeofAddr garbage addr
          some ({ ip := pf.inetNtoa (sinAddr addr), name := inaddr.ifaName, addr := addr4,
                  family := .IPv4 }, { inaddr with ifaAddr := some addr' })
      | .other _ =>
          -- "Not interested"
          some ({ ip := [], name := inaddr.ifaName, addr := garbage, family := .UNKNOWN }, inaddr)

end NetworkInterface

/-! ## The object, its thread and the run loop -/

/-- What stays the same in a `NetworkInterfaces`: its filter, and the thread and the message of
its `ThreadWithMessage`. -/
structure NetworkInterfaces where
  filter : Family
  thread : ThreadId
  msg : MsgPtr

namespace NetworkInterfaces

/-- A `NetworkInterfaces`, its thread, and the run loop with all that is on it. -/
structure State where
  loop : Messages.State
  /-- The list of `getifaddrs`. -/
  addrs : List IfAddrs
  /-- How many entries are before `p`. -/
  p : ℕ
  /-- `curInterface` has been assigned for `p`. -/
  assigned : Bool := false
  /-- The constructor of an `ActiveCall` has thrown. -/
  thrown : Bool := false
  /-- The process has read through a null pointer. -/
  crashed : Bool := false
  curInterface : NetworkInterface
  /-- The interfaces that the delegate was told of. -/
  detected : List NetworkInterface := []

/-- What can happen next. -/
inductive Action
  /-- `curInterface = NetworkInterface(p)`, made in storage with these bytes. -/
  | assign (garbage : SockAddr)
  /-- The delegate copies the interface that it is told of, into storage with these bytes. -/
  | copy (garbage : SockAddr)
  /-- A step of the run loop, of a thread, or of the program. -/
  | base (act : Messages.Action)

/-- The test in `onCall`. -/
def Wanted (filter family : Family) : Prop :=
  filter = .ANY ∨ family = filter ∨ filter = .IP ∧ (family = .IPv4 ∨ family = .IPv6)

instance (filter family : Family) : Decidable (Wanted filter family) :=
  inferInstanceAs (Decidable (_ ∨ _ ∨ _ ∧ _))

variable (pf : Platform) (ni : NetworkInterfaces)

/-- `NetworkInterfaces::onCall`: what the delegate is told. -/
def onCall (curInterface : NetworkInterface) : List NetworkInterface :=
  if Wanted ni.filter curInterface.family then [curInterface] else []

/-- What the thread can do next in `run`, and what only the object itself does with its message:
the destructor waits for the thread before it destroys it. -/
def allowed (s : State) : Messages.Action → Bool
  | .thread i (.begin msg) =>
      if i = ni.thread then msg = ni.msg ∧ s.p < s.addrs.length ∧ s.thrown = false
      else msg ≠ ni.msg
  | .thread i .setFlag => i = ni.thread → s.assigned = true
  | .thread i .leave => i = ni.thread → s.loop.threads[i]? = some (.inside ni.msg .called)
  | .thread i .exit => i = ni.thread → s.addrs.length ≤ s.p ∨ s.thrown = true
  | .handler (.construct msg) => msg ≠ ni.msg
  | .handler (.destroy msg) => msg = ni.msg → s.loop.threads[ni.thread]? = some .ended
  | _ => true

/-- What a step of the run loop and the threads means for the enumeration. -/
def follow (s : State) (act : Messages.Action) (loop : Messages.State) : State :=
  match act with
  | .thread i .enter =>
      -- the exception leaves `run`
      if i = ni.thread ∧ loop.threads[i]? = some .out then { s with loop := loop, thrown := true }
      else { s with loop := loop }
  | .thread i .leave =>
      if i = ni.thread then { s with loop := loop, p := s.p + 1, assigned := false }
      else { s with loop := loop }
  | .loop .onCall =>
      if s.loop.processedMsg.map Call.msg = some ni.msg then
        { s with loop := loop, detected := s.detected ++ ni.onCall s.curInterface }
      else { s with loop := loop }
  | _ => { s with loop := loop }

/-- `curInterface = NetworkInterface(p)`, where this is the entry at `p`. -/
def assign (s : State) (garbage : SockAddr) (inaddr : IfAddrs) : State :=
  match NetworkInterface.ofIfAddrs pf garbage inaddr with
  | none => { s with crashed := true }
  | some (nif, inaddr) =>
      { s with addrs := s.addrs.set s.p inaddr, curInterface := nif, assigned := true }

/-- One step; nothing happens after a crash. -/
def step (s : State) (act : Action) : Option State :=
  if s.crashed then none
  else
    match act with
    | .assign garbage =>
        if s.loop.threads[ni.thread]? = some (.inside ni.msg .constructed) ∧
            s.assigned = false then
          (s.addrs[s.p]?).map (assign pf s garbage)
        else none
    | .copy garbage =>
        if s.loop.control = .inCall ∧ s.loop.newEnd = none ∧
            s.loop.processedMsg.map Call.msg = some ni.msg ∧
            Wanted ni.filter s.curInterface.family then
          some { s with curInterface := (NetworkInterface.mkCopy garbage s.curInterface).2 }
        else none
    | .base act =>
        if ni.allowed s act then (s.loop.step act).map (ni.follow s act) else none

/-- The constructor has returned: its message is new, and no other thread knows it. -/
structure Started (entries : List IfAddrs) (s : State) : Prop where
  loop : ∃ threads tr before, Messages.Runs (Messages.State.init threads) tr before ∧
    before.threads[ni.thread]? = some .out ∧
    (∀ phase ∈ before.threads, phase.msg ≠ some ni.msg) ∧
    before.step (.handler (.construct ni.msg)) = some s.loop
  addrs : s.addrs = entries
  p : s.p = 0
  assigned : s.assigned = false
  thrown : s.thrown = false
  crashed : s.crashed = false
  detected : s.detected = []

end NetworkInterfaces

end Craplib
