import Mathlib.Data.List.TakeDrop
import Mathlib.Order.Nat
import Craplib.Lib.Effects
import Craplib.Memory.Pointers

/-!
# `Data.h` and `Data.cpp`: handles on shared byte buffers

A `Data` is a window, `position` and `size`, on a buffer that it shares with its
copies and slices through a `SharedPtr<Impl>`.  The model keeps the pointer layer
of `Memory.Pointers` below it: the counter blocks live in a `Heap`, and the
buffers in a table beside it, in the slot of the block made for them.

A function of the source is an `Eff` over that memory: it can throw
(`check_position`, or `new[]` of a negative size) and it can have no defined
behaviour (an access outside a buffer, or to a buffer that has been deleted).

A `const void *` is given as the bytes from that address to the end of the object
it points into, so reading is all that can be done with it; a pointer that is
written through is always `impl->data` plus an offset.
-/

namespace Craplib

open Memory Effects

/-- `unsigned char`. -/
abbrev Byte := UInt8

/-- The exceptions `Data.cpp` can throw. -/
inductive Thrown
  /-- `std::exception()`, from `check_position` -/
  | outOfRange
  /-- `new unsigned char[size]` with a negative size -/
  | badAlloc
  deriving DecidableEq, Repr

/-- `Data::Impl`: `size` bytes at `data`. -/
structure Impl where
  data : List Byte
  size : ℤ
  size_eq : (data.length : ℤ) = size
  deriving DecidableEq

/-- `Impl::Impl(int size)`.  The bytes are not initialized: `raw` is what the
memory happens to hold. -/
def Impl.make (size : ℤ) (raw : List Byte) : Except Thrown Impl :=
  if h : 0 ≤ size then
    .ok ⟨raw.takeD size.toNat 0, size, by rw [List.takeD_length, Int.toNat_of_nonneg h]⟩
  else
    .error .badAlloc

/-- The counter blocks and, in the slot of its block, every buffer made. -/
structure Mem where
  heap : Heap
  impls : Slots.Table Impl
  deriving DecidableEq

/-- The static counter block is there, no buffer. -/
def Mem.init : Mem := ⟨Heap.init, [none]⟩

/-- What a function of `Data.cpp` does to the memory. -/
abbrev DataM := Eff Mem Thrown

namespace Mem

/-- `*p`, for a `SharedPtr<Impl>`. -/
def deref (m : Mem) (p : SharedPtr) : Option Impl := do
  let obj ← p.ptr.pObj
  if obj ∈ m.heap.deleted then none else Slots.lookup m.impls obj

/-- Bytes `bs` of a buffer are replaced from `offset` on. -/
def overwrite (buf : List Byte) (offset : ℕ) (bs : List Byte) : List Byte :=
  buf.take offset ++ bs ++ buf.drop (offset + bs.length)

theorem length_overwrite {buf bs : List Byte} {offset : ℕ} (h : offset + bs.length ≤ buf.length) :
    (overwrite buf offset bs).length = buf.length := by
  simp only [overwrite, List.length_append, List.length_take, List.length_drop]
  omega

/-- Writing `bs` at `p->data + offset`; outside the buffer it is undefined. -/
def write (p : SharedPtr) (offset : ℤ) (bs : List Byte) (m : Mem) : Option Mem := do
  let obj ← p.ptr.pObj
  let b ← m.deref p
  if h : 0 ≤ offset ∧ offset.toNat + bs.length ≤ b.data.length then
    let b' : Impl := ⟨overwrite b.data offset.toNat bs, b.size, by
      rw [length_overwrite h.2, b.size_eq]⟩
    some { m with impls := Slots.put m.impls obj b' }
  else
    none

end Mem

/-- The first `n` bytes at an address; `n` is converted to `size_t`, so a negative
one reaches outside any object. -/
def bytesAt (src : List Byte) (n : ℤ) : Option (List Byte) :=
  if 0 ≤ n ∧ n.toNat ≤ src.length then some (src.take n.toNat) else none

/-- `memmove(p->data + offset, src, n)`. -/
def memmove (p : SharedPtr) (offset : ℤ) (src : List Byte) (n : ℤ) : DataM Unit :=
  .ofState fun m => do
    let bs ← bytesAt src n
    return ((), ← m.write p offset bs)

/-- The `unsigned char` that `memset` makes of its `int` argument. -/
def byteOf (value : ℤ) : Byte := .ofNat (value % 256).toNat

/-- `memset(p->data + offset, value, n)`. -/
def memset (p : SharedPtr) (offset value n : ℤ) : DataM Unit :=
  .ofState fun m =>
    if 0 ≤ n then (m.write p offset (List.replicate n.toNat (byteOf value))).map ((), ·) else none

/-- A function of the pointer layer; it throws nothing. -/
def onHeap {α : Type} (f : Heap → Option (α × Heap)) : DataM α :=
  .ofState fun m => (f m.heap).map fun (a, h) => (a, { m with heap := h })

/-- `SharedPtr<Impl> impl( new Impl(size) )`.  The buffer goes to the slot of the
block that is made for it. -/
def newImpl (size : ℤ) (raw : List Byte) : DataM SharedPtr := do
  match Impl.make size raw with
  | .error e => Eff.throw e
  | .ok b => .ofState fun m => do
      let (p, h) ← SharedPtr.ofPtr (some m.impls.length) m.heap
      return (p, { heap := h, impls := Slots.insert m.impls b })

/-- `check_position`. -/
def checkPosition (pos size : ℤ) : Except Thrown ℤ :=
  if pos < 0 ∨ pos > size then .error .outOfRange else .ok pos

/-- `Data`. -/
structure Data where
  impl : SharedPtr
  position : ℤ
  size : ℤ
  deriving DecidableEq, Repr

namespace Data

/-! ## Constructors and destructor -/

/-- `Data()`. -/
def mkDefault : DataM Data := do
  let impl ← newImpl 0 []
  return ⟨impl, 0, 0⟩

/-- `Data(int size)`. -/
def mkSize (size : ℤ) (raw : List Byte) : DataM Data := do
  let impl ← newImpl size raw
  return ⟨impl, 0, size⟩

/-- `Data(int size, const void * data)`. -/
def mkBytes (size : ℤ) (data : List Byte) : DataM Data := do
  let impl ← newImpl size []
  memmove impl 0 data size
  return ⟨impl, 0, size⟩

/-- `Data(const Data & data)`. -/
def mkCopy (data : Data) : DataM Data := do
  let impl ← onHeap (SharedPtr.mkCopy data.impl)
  return ⟨impl, data.position, data.size⟩

/-- `~Data()`. -/
def destroy (self : Data) : DataM Unit :=
  onHeap fun h => (self.impl.destroy h).map ((), ·)

/-- `Data(const Data & data, int pos, int si)`.  When `check_position` throws, the
member `impl` is already constructed and is destroyed again. -/
def mkSlice (data : Data) (pos si : ℤ) : DataM Data := do
  let impl ← onHeap (SharedPtr.mkCopy data.impl)
  match checkPosition pos data.size with
  | .error e => do
      onHeap fun h => (impl.destroy h).map ((), ·)
      Eff.throw e
  | .ok pos => return ⟨impl, data.position + pos, min si (data.size - pos)⟩

/-- `Data::operator=`: copy into a temporary, swap, and let the temporary go. -/
def assign (self data : Data) : DataM Data := do
  let temp ← mkCopy data
  let (self, temp) := (temp, self)
  temp.destroy
  return self

/-! ## Reading -/

/-- `Data::empty`. -/
def empty (self : Data) : Bool := self.size = 0

/-- `Data::getData`: the bytes from `impl->data + position` on. -/
def bytesFrom (m : Mem) (self : Data) : Option (List Byte) := do
  let b ← m.deref self.impl
  if 0 ≤ self.position ∧ self.position.toNat ≤ b.data.length then
    some (b.data.drop self.position.toNat)
  else
    none

/-- `Data::getData`. -/
def getData (self : Data) : DataM (List Byte) := .ofReader fun m => bytesFrom m self

/-- `Data::getByte`. -/
def getByte (self : Data) : DataM (Byte × Data) := do
  if self.empty then
    return (0, self)
  else
    let b ← .ofReader fun m => (bytesFrom m self).bind List.head?
    return (b, { self with size := self.size - 1, position := self.position + 1 })

/-! ## Writing in place -/

/-- `Data::lock`.  The pointer it returns is `impl->data` of the handle it leaves. -/
def lock (self : Data) : DataM Data := do
  let one ← .ofReader fun m => self.impl.isTheOne m.heap
  if one then
    return self
  else
    let da ← mkBytes self.size (← self.getData)
    let (self, da) := (da, self)
    da.destroy
    return self

/-- `Data::fill`. -/
def fill (self : Data) (value : ℤ) : DataM Data := do
  let self ← self.lock
  memset self.impl 0 value self.size
  return self

/-- `Data::copy`, with the size it returns.  `other` is `none` when the handle is
copied into itself: `lock` may have moved it by the time it is read. -/
def copy (self : Data) (pos : ℤ) (other : Option Data) : DataM (ℤ × Data) := do
  match checkPosition pos self.size with
  | .error e => Eff.throw e
  | .ok pos => do
      let si := min (self.size - pos) (other.getD self).size
      let self ← self.lock
      memmove self.impl pos (← (other.getD self).getData) si
      return (si, self)

/-- Stores through the pointer `lock` returns: byte `i` becomes `b`, for each
`(i, b)` in turn. -/
def stores (self : Data) : List (ℕ × Byte) → DataM Unit
  | [] => return ()
  | (i, b) :: rest => do
      .ofState fun m => (m.write self.impl i [b]).map ((), ·)
      self.stores rest

end Data

/-- `DataDeque`. -/
structure DataDeque where
  mData : List Data
  size : ℤ
  deriving DecidableEq, Repr

namespace DataDeque

/-- `DataDeque()`. -/
def mkDefault : DataDeque := ⟨[], 0⟩

/-- `DataDeque::write`. -/
def write (self : DataDeque) (data : Data) : DataM DataDeque := do
  let item ← Data.mkCopy data
  return ⟨self.mData ++ [item], self.size + data.size⟩

/-- `data = Data();`, what both forms of `read` do on an empty deque. -/
def readNothing (data : Data) : DataM Data := do
  let temp ← Data.mkDefault
  let data ← data.assign temp
  temp.destroy
  return data

/-- `data = m_data.front(); m_data.pop_front(); size -= data.getSize();`. -/
def readFront (fr : Data) (rest : List Data) (size : ℤ) (data : Data) :
    DataM (Data × DataDeque) := do
  let data ← data.assign fr
  fr.destroy
  return (data, ⟨rest, size - data.size⟩)

/-- `DataDeque::read(Data & data)`. -/
def read (self : DataDeque) (data : Data) : DataM (Data × DataDeque) :=
  match self.mData with
  | [] => do return (← readNothing data, self)
  | fr :: rest => readFront fr rest self.size data

/-- `DataDeque::read(Data & data, int max_size)`.  The third component is what the
second slice threw: by then `data` has been assigned. -/
def readMax (self : DataDeque) (data : Data) (maxSize : ℤ) :
    DataM (Data × DataDeque × Option Thrown) :=
  match self.mData with
  | [] => do return (← readNothing data, self, none)
  | fr :: rest => do
      if fr.size ≤ maxSize then
        let (data, self) ← readFront fr rest self.size data
        return (data, self, none)
      else
        let temp ← Data.mkSlice fr 0 maxSize
        let data ← data.assign temp
        temp.destroy
        match ← Eff.attempt (Data.mkSlice fr maxSize (fr.size - maxSize)) with
        | .error e => return (data, self, some e)
        | .ok temp => do
            let fr ← fr.assign temp
            temp.destroy
            return (data, ⟨fr :: rest, self.size - maxSize⟩, none)

/-- `~DataDeque`: the elements go, in order. -/
def destroyAll : List Data → DataM Unit
  | [] => return ()
  | d :: rest => do
      d.destroy
      destroyAll rest

end DataDeque

/-! ## A program that uses `Data` -/

/-- The memory, and every `Data` and `DataDeque` of the program. -/
structure Program where
  mem : Mem
  vars : Slots.Table Data
  deques : Slots.Table DataDeque
  deriving DecidableEq

/-- Nothing constructed yet. -/
def Program.init : Program := ⟨Mem.init, [], []⟩

/-- What a program does; the numbers are slots. -/
inductive DataOp
  /-- `Data d` -/
  | mkDefault
  /-- `Data d(size)`, on memory that holds `raw` -/
  | mkSize (size : ℤ) (raw : List Byte)
  /-- `Data d(size, data)` -/
  | mkBytes (size : ℤ) (data : List Byte)
  /-- `Data d(r)` -/
  | mkCopy (r : ℕ)
  /-- `Data d(r, pos, si)` -/
  | mkSlice (r : ℕ) (pos si : ℤ)
  /-- `l = r` -/
  | assign (l r : ℕ)
  /-- `a.swap(b)` -/
  | swap (a b : ℕ)
  /-- `~Data` -/
  | destroy (d : ℕ)
  /-- `d.getByte()` -/
  | getByte (d : ℕ)
  /-- `d.fill(value)` -/
  | fill (d : ℕ) (value : ℤ)
  /-- `d.copy(pos, other)` -/
  | copy (d : ℕ) (pos : ℤ) (other : ℕ)
  /-- `p = d.lock()`, then `p[i] = b` for each `(i, b)` in turn -/
  | stores (d : ℕ) (bs : List (ℕ × Byte))
  /-- `DataDeque q` -/
  | dequeNew
  /-- `q.write(d)` -/
  | dequeWrite (q d : ℕ)
  /-- `q.read(d)` -/
  | dequeRead (q d : ℕ)
  /-- `q.read(d, max_size)` -/
  | dequeReadMax (q d : ℕ) (maxSize : ℤ)
  /-- `~DataDeque` -/
  | dequeDestroy (q : ℕ)
  deriving DecidableEq, Repr

namespace Program

/-- Run `x`, and use what it returns in the memory it leaves; after an exception
only the memory has changed. -/
def run {α : Type} (s : Program) (x : DataM α) (k : α → Program → Program) : Option Program :=
  match x s.mem with
  | none => none
  | some (.ok a, m) => some (k a { s with mem := m })
  | some (.error _, m) => some { s with mem := m }

/-- A new `Data`, when its constructor returns. -/
def declare (s : Program) (x : DataM Data) : Option Program :=
  s.run x fun d s => { s with vars := Slots.insert s.vars d }

/-- One operation.  `none` when a slot it names is empty, when a store lies outside
the handle's size, or when the behaviour is undefined. -/
def step (s : Program) : DataOp → Option Program
  | .mkDefault => s.declare Data.mkDefault
  | .mkSize size raw => s.declare (Data.mkSize size raw)
  | .mkBytes size data => s.declare (Data.mkBytes size data)
  | .mkCopy r => do
      let r ← Slots.lookup s.vars r
      s.declare (Data.mkCopy r)
  | .mkSlice r pos si => do
      let r ← Slots.lookup s.vars r
      s.declare (Data.mkSlice r pos si)
  | .assign l r => do
      let self ← Slots.lookup s.vars l
      let data ← Slots.lookup s.vars r
      s.run (self.assign data) fun d s => { s with vars := Slots.put s.vars l d }
  | .swap a b => do
      let x ← Slots.lookup s.vars a
      let y ← Slots.lookup s.vars b
      return { s with vars := Slots.put (Slots.put s.vars a y) b x }
  | .destroy d => do
      let self ← Slots.lookup s.vars d
      s.run self.destroy fun _ s => { s with vars := Slots.remove s.vars d }
  | .getByte d => do
      let self ← Slots.lookup s.vars d
      s.run self.getByte fun (_, x) s => { s with vars := Slots.put s.vars d x }
  | .fill d value => do
      let self ← Slots.lookup s.vars d
      s.run (self.fill value) fun x s => { s with vars := Slots.put s.vars d x }
  | .copy d pos other => do
      let self ← Slots.lookup s.vars d
      let arg ← Slots.lookup s.vars other
      s.run (self.copy pos (if other = d then none else some arg))
        fun (_, x) s => { s with vars := Slots.put s.vars d x }
  | .stores d bs => do
      let self ← Slots.lookup s.vars d
      if ∀ p ∈ bs, (p.1 : ℤ) < self.size then
        s.run (do let self ← self.lock; self.stores bs; return self)
          fun x s => { s with vars := Slots.put s.vars d x }
      else
        none
  | .dequeNew => some { s with deques := Slots.insert s.deques DataDeque.mkDefault }
  | .dequeWrite q d => do
      let self ← Slots.lookup s.deques q
      let data ← Slots.lookup s.vars d
      s.run (self.write data) fun x s => { s with deques := Slots.put s.deques q x }
  | .dequeRead q d => do
      let self ← Slots.lookup s.deques q
      let data ← Slots.lookup s.vars d
      s.run (self.read data) fun (x, y) s =>
        { s with vars := Slots.put s.vars d x, deques := Slots.put s.deques q y }
  | .dequeReadMax q d maxSize => do
      let self ← Slots.lookup s.deques q
      let data ← Slots.lookup s.vars d
      s.run (self.readMax data maxSize) fun (x, y, _) s =>
        { s with vars := Slots.put s.vars d x, deques := Slots.put s.deques q y }
  | .dequeDestroy q => do
      let self ← Slots.lookup s.deques q
      s.run (DataDeque.destroyAll self.mData)
        fun _ s => { s with deques := Slots.remove s.deques q }

end Program

end Craplib
