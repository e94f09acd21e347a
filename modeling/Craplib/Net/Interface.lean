import Mathlib.Algebra.Group.Nat.Defs
import Craplib.Http.Streams
import Craplib.Lib.Runs

/-!
# Copying a `NetworkInterface`

`AsyncNetInterface.h` keeps the socket address of an interface in a union of `sockaddr_in` and
`sockaddr_in6`.  The copy constructor fills the union of the new object by `std::swap` with
the union of its source: the new object has the address, and the source, which was passed as
`const`, has what the storage of the new one held before.  `LASocket` copies its interface
first and then reads the one that it was passed; and its socket is made for IPv4, whatever the
family of the interface.

`copies_iff` says when the copies of an interface leave all of them alike, and `binds_iff`
when `LASocket` binds to the address that it was given.
-/

namespace Craplib

open Machine

/-! ## The socket address -/

/-- The bytes of the union of `sockaddr_in` and `sockaddr_in6`. -/
abbrev SockAddr := Fin 28 → UInt8

/-- `std::swap` of the first `n` bytes. -/
def swapBytes (n : ℕ) (a b : SockAddr) : SockAddr × SockAddr :=
  (fun i => if i.val < n then b i else a i, fun i => if i.val < n then a i else b i)

/-- `NetworkInterface::Family` -/
inductive Family
  | UNKNOWN
  | ANY
  | IP
  | IPv4
  | IPv6
  deriving DecidableEq, Repr

/-- `NetworkInterface`, with the bytes of its union. -/
structure NetworkInterface where
  ip : Str
  name : Str
  addr : SockAddr
  family : Family

namespace NetworkInterface

/-- `sizeof(sockaddr_in)` -/
def sizeofAddr : ℕ := 16

/-- `sizeof(sockaddr_in6)` -/
def sizeofAddr6 : ℕ := 28

/-- `NetworkInterface(const NetworkInterface& other)` in storage that held `garbage`: the new
object, and what has become of `other`. -/
def mkCopy (garbage : SockAddr) (other : NetworkInterface) : NetworkInterface × NetworkInterface :=
  let self : NetworkInterface :=
    { ip := other.ip, name := other.name, addr := garbage, family := other.family }
  if self.family = .IPv4 then
    let (addr, otherAddr) := swapBytes sizeofAddr self.addr other.addr
    ({ self with addr }, { other with addr := otherAddr })
  else if self.family = .IPv6 then
    let (addr6, otherAddr6) := swapBytes sizeofAddr6 self.addr other.addr
    ({ self with addr := addr6 }, { other with addr := otherAddr6 })
  else (self, other)

/-- The bytes of the union that the family uses. -/
def addrSize : Family → ℕ
  | .IPv4 => sizeofAddr
  | .IPv6 => sizeofAddr6
  | _ => 0

/-- The bytes that the family uses are the same in both. -/
def SameBytes (family : Family) (a b : SockAddr) : Prop :=
  ∀ i, i.val < addrSize family → a i = b i

instance (family : Family) (a b : SockAddr) : Decidable (SameBytes family a b) :=
  inferInstanceAs (Decidable (∀ i : Fin 28, i.val < addrSize family → a i = b i))

/-- Two interfaces have the same `ip`, name, family and socket address. -/
structure Same (nif nif' : NetworkInterface) : Prop where
  ip : nif.ip = nif'.ip
  name : nif.name = nif'.name
  family : nif.family = nif'.family
  addr : SameBytes nif.family nif.addr nif'.addr

theorem mkCopy_eq (garbage : SockAddr) (other : NetworkInterface) :
    mkCopy garbage other =
      ({ other with addr := (swapBytes (addrSize other.family) garbage other.addr).1 },
       { other with addr := (swapBytes (addrSize other.family) garbage other.addr).2 }) := by
  obtain ⟨ip, name, addr, family⟩ := other
  cases family <;> rfl

theorem Same.refl (nif : NetworkInterface) : Same nif nif := ⟨rfl, rfl, rfl, fun _ _ => rfl⟩

/-- The new object is like its source was. -/
theorem Same.copy {nif other : NetworkInterface} (h : Same nif other) (garbage : SockAddr) :
    Same nif (mkCopy garbage other).1 := by
  rw [mkCopy_eq]
  refine ⟨h.ip, h.name, h.family, fun i hi => ?_⟩
  have hused : i.val < addrSize other.family := h.family ▸ hi
  simpa [swapBytes, hused] using h.addr i hi

/-- **The source** keeps its address exactly when the storage of the new object held it. -/
theorem Same.source_iff {nif other : NetworkInterface} (h : Same nif other) (garbage : SockAddr) :
    Same nif (mkCopy garbage other).2 ↔ SameBytes other.family garbage other.addr := by
  rw [mkCopy_eq]
  constructor
  · intro hkept i hi
    have hused : i.val < addrSize nif.family := h.family ▸ hi
    have hgarbage := hkept.addr i hused
    simp only [swapBytes, hi, if_true] at hgarbage
    rw [← hgarbage]
    exact h.addr i hused
  · intro hheld
    refine ⟨h.ip, h.name, h.family, fun i hi => ?_⟩
    have hused : i.val < addrSize other.family := h.family ▸ hi
    simp only [swapBytes, hused, if_true, hheld i hused]
    exact h.addr i hi

/-! ## Copies of copies -/

/-- One copy: of the object of that index, into storage with these bytes. -/
structure Copy where
  src : ℕ
  garbage : SockAddr

/-- The objects of a program: a copy adds the new one and changes its source. -/
def copyStep (s : List NetworkInterface) (a : Copy) : Option (List NetworkInterface) :=
  s[a.src]?.map fun other =>
    (s.set a.src (mkCopy a.garbage other).2) ++ [(mkCopy a.garbage other).1]

/-- The storage of the new object holds the address of its source. -/
def Held (s : List NetworkInterface) (a : Copy) : Prop :=
  ∀ other ∈ s[a.src]?, SameBytes other.family a.garbage other.addr

instance (s : List NetworkInterface) (a : Copy) : Decidable (Held s a) :=
  inferInstanceAs (Decidable (∀ other ∈ s[a.src]?, SameBytes other.family a.garbage other.addr))

/-- All objects are like the first one was. -/
def AllSame (nif : NetworkInterface) (s : List NetworkInterface) : Prop :=
  ∀ other ∈ s, Same nif other

variable {nif : NetworkInterface} {s t : List NetworkInterface} {a : Copy}

/-- **One copy** leaves all objects alike exactly when its storage held the address. -/
theorem AllSame.step_iff (h : AllSame nif s) (hstep : copyStep s a = some t) :
    AllSame nif t ↔ Held s a := by
  obtain ⟨other, hother, rfl⟩ := Option.map_eq_some_iff.mp hstep
  have hsame : Same nif other := h other (List.mem_of_getElem? hother)
  have hlt : a.src < s.length := (List.getElem?_eq_some_iff.mp hother).1
  have hheld : Held s a ↔ SameBytes other.family a.garbage other.addr := by
    simp [Held, hother]
  rw [hheld, ← hsame.source_iff]
  constructor
  · intro hall
    refine hall _ (List.mem_append_left _ ?_)
    exact List.mem_of_getElem? (List.getElem?_set_self hlt)
  · intro hsource o ho
    rcases List.mem_append.mp ho with ho | ho
    · rcases List.mem_or_eq_of_mem_set ho with ho | rfl
      · exact h o ho
      · exact hsource
    · obtain rfl := List.mem_singleton.mp ho
      exact hsame.copy a.garbage

/-- The copies of an interface, and their copies, are all like it was, exactly when the storage
of each held the address of its source before. -/
theorem copies_iff {tr : List (List NetworkInterface × Copy)}
    (h : Run (Fires copyStep) [nif] tr t) :
    (∀ s ∈ visited tr t, AllSame nif s) ↔ ∀ p ∈ tr, Held p.1 p.2 := by
  have keep : ∀ s a t, AllSame nif s → Fires copyStep s a t → Held s a → AllSame nif t :=
    fun _ _ _ hall hstep hheld => (hall.step_iff hstep).mpr hheld
  have blame : ∀ s a t, AllSame nif s → Fires copyStep s a t → ¬ Held s a → ¬ AllSame nif t :=
    fun _ _ _ hall hstep hbad => mt (hall.step_iff hstep).mp hbad
  refine h.visited_iff_good keep blame (fun _ hall => hall) fun other hother => ?_
  obtain rfl := List.mem_singleton.mp hother
  exact Same.refl other

end NetworkInterface

/-! ## `LASocket(Delegate* del, const NetworkInterface& nif, const std::string& service)` -/

namespace LASocket

open NetworkInterface

/-- The value that `strtol` reads, before it is cut to the range of `long`. -/
def strtol (s : Str) : ℤ :=
  let s := s.dropWhile isSpace
  let body := if s.head? = some 45 ∨ s.head? = some 43 then s.tail else s
  let v := IStream.digitsValue (body.takeWhile isDigit)
  if s.head? = some 45 then -v else v

/-- `atoi`: `strtol` stops at the ends of `long`, and `int` has the lower half of that. -/
def atoi (s : Str) : ℤ := Int.bmod (max (-2 ^ 63) (min (strtol s) (2 ^ 63 - 1))) (2 ^ 32)

/-- The port that `htons` is given. -/
def port (service : Str) : ℕ := (atoi service % 65536).toNat

/-- What `bind` is called with: the family, the port, and the bytes of the other fields at
their places in the union. -/
structure ServerAddress where
  family : Family
  port : ℕ
  addr : SockAddr

/-- The bytes of `sin_addr`, or of `sin6_flowinfo`, `sin6_addr` and `sin6_scope_id`. -/
def HostByte (family : Family) (i : Fin 28) : Prop :=
  if family = .IPv4 then 4 ≤ i.val ∧ i.val < 8 else 4 ≤ i.val

instance (family : Family) (i : Fin 28) : Decidable (HostByte family i) :=
  inferInstanceAs (Decidable (if family = .IPv4 then 4 ≤ i.val ∧ i.val < 8 else 4 ≤ i.val))

/-- The address of `nif` with the port of `service`. -/
def addressOf (nif : NetworkInterface) (service : Str) : ServerAddress where
  family := nif.family
  port := port service
  addr := fun i => if HostByte nif.family i then nif.addr i else 0

/-- The address that is filled in from `nif`.  On Linux the fields of `sockaddr_in6` are left
zero, its port too. -/
def serverAddress (linux : Bool) (nif : NetworkInterface) (service : Str) : ServerAddress :=
  if nif.family = .IPv4 then
    { family := .IPv4
      port := port service
      addr := fun i => if HostByte .IPv4 i then nif.addr i else 0 }
  else if linux then { family := .IPv6, port := 0, addr := fun _ => 0 }
  else
    { family := .IPv6
      port := port service
      addr := fun i => if HostByte .IPv6 i then nif.addr i else 0 }

/-- The family of the descriptor that `Socket()` makes, by `socket(AF_INET, …)`. -/
def sockFamily : Family := .IPv4

/-- `bind`: an address of another family than that of the descriptor is refused.  What else the
system asks of an address, that it is one of its own and the port is free, is `accepts`. -/
def bind (accepts : ServerAddress → Bool) (sock : Family) (address : ServerAddress) :
    Option ServerAddress :=
  if address.family = sock ∧ accepts address then some address else none

/-- The members are made in order, `iface` as a copy of `nif`; the body reads `nif`.  `iface`,
what has become of `nif`, and what the socket is bound to, unless `bind` has failed. -/
def construct (accepts : ServerAddress → Bool) (linux : Bool) (garbage : SockAddr)
    (nif : NetworkInterface) (service : Str) :
    NetworkInterface × NetworkInterface × Option ServerAddress :=
  let (iface, nif) := mkCopy garbage nif
  (iface, nif, bind accepts sockFamily (serverAddress linux nif service))

/-- The constructor binds its socket to the address and the port that it was given. -/
def BindsTo (accepts : ServerAddress → Bool) (linux : Bool) (garbage : SockAddr)
    (nif : NetworkInterface) (service : Str) : Prop :=
  (construct accepts linux garbage nif service).2.2 = some (addressOf nif service)

/-- The address can be bound, and the storage of `iface` held it. -/
structure Bindable (accepts : ServerAddress → Bool) (garbage : SockAddr)
    (nif : NetworkInterface) (service : Str) : Prop where
  family : nif.family = .IPv4
  held : ∀ i, HostByte .IPv4 i → garbage i = nif.addr i
  accepted : accepts (addressOf nif service) = true

/-- An IPv4 address is filled in with the bytes that the copy has left in `nif`: those of the
storage of `iface`. -/
theorem serverAddress_IPv4 (linux : Bool) (garbage : SockAddr) {nif : NetworkInterface}
    (service : Str) (hfamily : nif.family = .IPv4) :
    serverAddress linux (mkCopy garbage nif).2 service =
      { family := .IPv4, port := port service,
        addr := fun i => if HostByte .IPv4 i then garbage i else 0 } := by
  rw [mkCopy_eq]
  unfold serverAddress
  simp only [hfamily, if_true, ServerAddress.mk.injEq, true_and]
  funext i
  split_ifs with hi
  · -- the copy has put the first sixteen bytes of its storage into `nif`
    have hused : i.val < sizeofAddr :=
      Nat.lt_trans (show 4 ≤ i.val ∧ i.val < 8 from hi).2 (by decide)
    simp [swapBytes, addrSize, hused]
  · rfl

/-- The constructor of an IPv6 socket returns at "bind failed". -/
theorem construct_IPv6 (accepts : ServerAddress → Bool) (linux : Bool) (garbage : SockAddr)
    {nif : NetworkInterface} (service : Str) (hfamily : nif.family = .IPv6) :
    (construct accepts linux garbage nif service).2.2 = none := by
  have haddress : (serverAddress linux (mkCopy garbage nif).2 service).family = .IPv6 := by
    rw [mkCopy_eq]
    cases linux <;> simp [serverAddress, hfamily]
  unfold construct bind
  dsimp only
  rw [haddress]
  simp [sockFamily]

/-- **What `LASocket` binds to**: for IPv4 it reads the bytes that the copy has left in `nif`,
and for IPv6 it has the wrong socket. -/
theorem binds_iff (accepts : ServerAddress → Bool) (linux : Bool) (garbage : SockAddr)
    {nif : NetworkInterface} (service : Str) (hfamily : nif.family = .IPv4 ∨ nif.family = .IPv6) :
    BindsTo accepts linux garbage nif service ↔ Bindable accepts garbage nif service := by
  rcases hfamily with hfamily | hfamily
  · have hfilled : serverAddress linux (mkCopy garbage nif).2 service = addressOf nif service ↔
        ∀ i, HostByte .IPv4 i → garbage i = nif.addr i := by
      rw [serverAddress_IPv4 linux garbage service hfamily, addressOf, hfamily]
      simp only [ServerAddress.mk.injEq, true_and, funext_iff]
      refine forall_congr' fun i => ?_
      split_ifs with hi <;> simp [hi]
    unfold BindsTo construct bind
    dsimp only
    constructor
    · intro hbinds
      split_ifs at hbinds with hok
      have haddress := Option.some.inj hbinds
      exact ⟨hfamily, hfilled.mp haddress, haddress ▸ hok.2⟩
    · rintro ⟨-, hheld, haccepted⟩
      rw [hfilled.mpr hheld, if_pos ⟨hfamily, haccepted⟩]
  · refine iff_of_false ?_ fun hbindable => ?_
    · rw [BindsTo, construct_IPv6 accepts linux garbage service hfamily]
      exact fun h => nomatch h
    · exact absurd (hfamily.symm.trans hbindable.family) (by decide)

/-- **When copying is pure.**  All copies of an interface, in any order and into any storage,
are like it was, and so is every source, exactly when the storage of each copy held the address
of its source before; and `LASocket` binds to the address it was given exactly when this is an
IPv4 address that the system accepts, and the storage of `iface` held it. -/
theorem copies_pure_iff {nif : NetworkInterface} {tr : List (List NetworkInterface × Copy)}
    {last : List NetworkInterface} (h : Run (Fires copyStep) [nif] tr last)
    (accepts : ServerAddress → Bool) (linux : Bool) (garbage : SockAddr) (service : Str)
    (hfamily : nif.family = .IPv4 ∨ nif.family = .IPv6) :
    ((∀ s ∈ visited tr last, AllSame nif s) ↔ ∀ p ∈ tr, Held p.1 p.2) ∧
      (BindsTo accepts linux garbage nif service ↔ Bindable accepts garbage nif service) :=
  ⟨copies_iff h, binds_iff accepts linux garbage service hfamily⟩

/-- The loopback interface. -/
def loopback : NetworkInterface where
  ip := [49, 50, 55, 46, 48, 46, 48, 46, 49]
  name := [108, 111]
  addr := fun i => if i.val = 0 then 2 else if i.val = 4 then 127 else if i.val = 7 then 1 else 0
  family := .IPv4

/-- Copies into storage that an earlier interface with the same address has left. -/
theorem copies_pure_loopback :
    (∃ tr last, Run (Fires copyStep) [loopback] tr last ∧ last.length = 3 ∧
      ∀ s ∈ visited tr last, AllSame loopback s) ∧
    BindsTo (fun _ => true) true loopback.addr loopback [56, 48, 57, 48] := by
  let as : List Copy := [⟨0, loopback.addr⟩, ⟨1, loopback.addr⟩]
  let last := (exec copyStep [loopback] as).get (by rfl)
  have hlast : exec copyStep [loopback] as = some last := (Option.some_get _).symm
  obtain ⟨hrun, -⟩ := exec_trace _ _ _ _ hlast
  obtain ⟨hcopies, hbinds⟩ :=
    copies_pure_iff hrun (fun _ => true) true loopback.addr [56, 48, 57, 48] (Or.inl rfl)
  exact ⟨⟨_, _, hrun, rfl, hcopies.mpr (by decide)⟩, hbinds.mpr ⟨rfl, by decide, rfl⟩⟩

/-- A copy into storage of zeros: the interface that was copied has no address any more, and
`LASocket` is bound to all addresses of the machine. -/
theorem copy_takes_address :
    ¬ Same loopback (mkCopy (fun _ => 0) loopback).2 ∧
    (∃ bound, (construct (fun _ => true) true (fun _ => 0) loopback [56, 48, 57, 48]).2.2 =
        some bound ∧ bound.port = 8090 ∧ ∀ i, bound.addr i = 0) ∧
    ¬ BindsTo (fun _ => true) true (fun _ => 0) loopback [56, 48, 57, 48] := by
  refine ⟨fun hsame => ?_, ⟨_, rfl, by decide, by decide⟩, fun hbinds => ?_⟩
  · exact absurd (hsame.addr 4 (by decide)) (by decide)
  · have hbytes := congrArg ServerAddress.addr (Option.some.inj hbinds)
    exact absurd (congrFun hbytes 4) (by decide)

end LASocket

end Craplib
