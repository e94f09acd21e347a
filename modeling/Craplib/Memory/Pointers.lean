import Mathlib.Algebra.Group.Nat.Defs
import Craplib.Lib.Slots

/-!
# `WeakPtr.h` and `SharedPtr.h`

The two counted pointers, function by function.  A handle is a value: the
pointer to the managed object and the pointer to the counter block.  What the
handles share lives in a `Heap`, the counter blocks and the objects deleted so
far; every function of the source takes the heap and returns it.

`none` is undefined behaviour: reading or writing a counter block that has been
freed, or `delete` of the static block.  A managed object is named by the
counter block made for it, which is distinct for distinct `new T`, so the null
pointer is the only pointer two blocks may share.
-/

namespace Craplib.Memory

/-- `Threads::counter`. -/
abbrev Counter := UInt32

/-- `Threads::interlocked_increment`, the value `__sync_add_and_fetch(c, 1)`
leaves and returns. -/
def interlockedIncrement (c : Counter) : Counter := c + 1

/-- `Threads::interlocked_decrement`. -/
def interlockedDecrement (c : Counter) : Counter := c - 1

/-- `WeakPtr<T>::Counters`. -/
structure Counters where
  sc : Counter
  wc : Counter
  deriving DecidableEq, Repr

/-- `Counters *`: the index of the block in the heap. -/
abbrev CountersPtr := ℕ

/-- `&WeakPtr<T>::forNulls`. -/
def forNulls : CountersPtr := 0

/-- The counter blocks, `none` once freed, and the objects deleted, in order. -/
structure Heap where
  blocks : List (Option Counters)
  deleted : List ℕ
  deriving DecidableEq, Repr

namespace Heap

/-- `forNulls = {1,1}` is there before anything runs. -/
def init : Heap := ⟨[some ⟨1, 1⟩], []⟩

/-- `*cnt`. -/
def deref (h : Heap) (cnt : CountersPtr) : Option Counters := Slots.lookup h.blocks cnt

/-- `*cnt = c`. -/
def store (h : Heap) (cnt : CountersPtr) (c : Counters) : Heap :=
  { h with blocks := Slots.put h.blocks cnt c }

/-- `new Counters`, with both fields set to zero. -/
def newCounters (h : Heap) : CountersPtr × Heap :=
  (h.blocks.length, { h with blocks := Slots.insert h.blocks ⟨0, 0⟩ })

/-- `delete cnt`.  The static block is not from `new`. -/
def deleteCounters (h : Heap) (cnt : CountersPtr) : Option Heap :=
  if cnt = forNulls then none else some { h with blocks := Slots.remove h.blocks cnt }

/-- `delete pObj`, which does nothing for the null pointer. -/
def deleteObject (h : Heap) (pObj : Option ℕ) : Heap :=
  { h with deleted := h.deleted ++ pObj.toList }

end Heap

/-! ## `WeakPtr` -/

/-- `WeakPtr<T>`. -/
structure WeakPtr where
  pObj : Option ℕ
  cnt : CountersPtr
  deriving DecidableEq, Repr

namespace WeakPtr

/-- `WeakPtr::attach`. -/
def attach (w : WeakPtr) (h : Heap) : Option Heap := do
  let c ← h.deref w.cnt
  return h.store w.cnt { c with wc := interlockedIncrement c.wc }

/-- `WeakPtr::detach`. -/
def detach (w : WeakPtr) (h : Heap) : Option Heap := do
  let c ← h.deref w.cnt
  let h := h.store w.cnt { c with wc := interlockedDecrement c.wc }
  if interlockedDecrement c.wc = 0 then h.deleteCounters w.cnt else return h

/-- `WeakPtr(T* p)`, used by `SharedPtr` only. -/
def ofPtr (p : Option ℕ) (h : Heap) : Option (WeakPtr × Heap) := do
  let (cnt, h) := h.newCounters
  let w : WeakPtr := ⟨p, cnt⟩
  return (w, ← w.attach h)

/-- `WeakPtr()`. -/
def mkDefault (h : Heap) : Option (WeakPtr × Heap) := do
  let w : WeakPtr := ⟨none, forNulls⟩
  return (w, ← w.attach h)

/-- `WeakPtr(const WeakPtr<T>& r)`. -/
def mkCopy (r : WeakPtr) (h : Heap) : Option (WeakPtr × Heap) := do
  let w : WeakPtr := ⟨r.pObj, r.cnt⟩
  return (w, ← w.attach h)

/-- `~WeakPtr()`. -/
def destroy (w : WeakPtr) (h : Heap) : Option Heap := w.detach h

/-- `WeakPtr::operator=`: copy into a temporary, swap, and let the temporary go. -/
def assign (self r : WeakPtr) (h : Heap) : Option (WeakPtr × Heap) := do
  let (temp, h) ← mkCopy r h
  let (self, temp) := (temp, self)
  return (self, ← temp.destroy h)

end WeakPtr

/-! ## `SharedPtr` -/

/-- `SharedPtr<T>`, which embeds a `WeakPtr<T>`. -/
structure SharedPtr where
  ptr : WeakPtr
  deriving DecidableEq, Repr

namespace SharedPtr

/-- `SharedPtr::attach`. -/
def attach (p : SharedPtr) (h : Heap) : Option Heap := do
  let c ← h.deref p.ptr.cnt
  return h.store p.ptr.cnt { c with sc := interlockedIncrement c.sc }

/-- `SharedPtr::detach`.  The handle it runs on is going away, so clearing its
`pObj` is not seen by anyone. -/
def detach (p : SharedPtr) (h : Heap) : Option Heap := do
  let c ← h.deref p.ptr.cnt
  let h := h.store p.ptr.cnt { c with sc := interlockedDecrement c.sc }
  if interlockedDecrement c.sc = 0 then return h.deleteObject p.ptr.pObj else return h

/-- The private `SharedPtr(T* p, Counters * c)`: `ptr` is default-constructed
first, and its two fields are then overwritten. -/
def ofCounters (p : Option ℕ) (c : CountersPtr) (h : Heap) : Option (SharedPtr × Heap) := do
  let (_, h) ← WeakPtr.mkDefault h
  let self : SharedPtr := ⟨⟨p, c⟩⟩
  return (self, ← self.attach h)

/-- `SharedPtr()`. -/
def mkDefault (h : Heap) : Option (SharedPtr × Heap) := do
  let (ptr, h) ← WeakPtr.mkDefault h
  let self : SharedPtr := ⟨ptr⟩
  return (self, ← self.attach h)

/-- `explicit SharedPtr(T* p)`. -/
def ofPtr (p : Option ℕ) (h : Heap) : Option (SharedPtr × Heap) := do
  let (ptr, h) ← WeakPtr.ofPtr p h
  let self : SharedPtr := ⟨ptr⟩
  return (self, ← self.attach h)

/-- `SharedPtr(const SharedPtr<T>& r)`. -/
def mkCopy (r : SharedPtr) (h : Heap) : Option (SharedPtr × Heap) := do
  let (ptr, h) ← WeakPtr.mkCopy r.ptr h
  let self : SharedPtr := ⟨ptr⟩
  return (self, ← self.attach h)

/-- `~SharedPtr()`: its body, then the destructor of the member `ptr`. -/
def destroy (p : SharedPtr) (h : Heap) : Option Heap := do
  let h ← p.detach h
  p.ptr.destroy h

/-- `SharedPtr::operator=`. -/
def assign (self r : SharedPtr) (h : Heap) : Option (SharedPtr × Heap) := do
  let (temp, h) ← mkCopy r h
  let (self, temp) := (temp, self)
  return (self, ← temp.destroy h)

/-- `SharedPtr::isTheOne`: the `bool` that `ptr.cnt->sc` converts to. -/
def isTheOne (p : SharedPtr) (h : Heap) : Option Bool := do
  let c ← h.deref p.ptr.cnt
  return c.sc ≠ 0

end SharedPtr

/-- `WeakPtr(SharedPtr<T>& p)`. -/
def WeakPtr.ofShared (p : SharedPtr) (h : Heap) : Option (WeakPtr × Heap) := do
  let w : WeakPtr := ⟨p.ptr.pObj, p.ptr.cnt⟩
  return (w, ← w.attach h)

/-- `result = SharedPtr<T>(pObj, cnt);`, the statement of `lock` that is run when
the object is alive: the temporary is assigned and then destroyed. -/
def WeakPtr.assignLocked (w : WeakPtr) (result : SharedPtr) (h : Heap) :
    Option (SharedPtr × Heap) := do
  let (temp, h) ← SharedPtr.ofCounters w.pObj w.cnt h
  let (result, h) ← result.assign temp h
  return (result, ← temp.destroy h)

/-- `WeakPtr::lock`; `result` is returned in place. -/
def WeakPtr.lock (w : WeakPtr) (h : Heap) : Option (SharedPtr × Heap) := do
  let c ← h.deref w.cnt
  let h := h.store w.cnt { c with sc := interlockedIncrement c.sc }
  let (result, h) ← SharedPtr.mkDefault h
  let (result, h) ←
    (if interlockedIncrement c.sc ≠ 1 then w.assignLocked result h else some (result, h))
  let c ← h.deref w.cnt
  return (result, h.store w.cnt { c with sc := interlockedDecrement c.sc })

/-! ## The handles of a program -/

/-- The heap, and every `SharedPtr<T>` and `WeakPtr<T>` of the program. -/
structure Store where
  heap : Heap
  shared : Slots.Table SharedPtr
  weak : Slots.Table WeakPtr
  deriving DecidableEq, Repr

/-- Nothing constructed yet. -/
def Store.init : Store := ⟨Heap.init, [], []⟩

/-- What a program does with its handles; the numbers are slots. -/
inductive Op
  /-- `SharedPtr<T> p(new T)` -/
  | sharedNew
  /-- `SharedPtr<T> p` -/
  | sharedDefault
  /-- `SharedPtr<T> p(r)` -/
  | sharedCopy (r : ℕ)
  /-- `l = r` -/
  | sharedAssign (l r : ℕ)
  /-- `a.swap(b)` -/
  | sharedSwap (a b : ℕ)
  /-- `~SharedPtr` -/
  | sharedDestroy (p : ℕ)
  /-- `WeakPtr<T> w` -/
  | weakDefault
  /-- `WeakPtr<T> w(r)` -/
  | weakCopy (r : ℕ)
  /-- `WeakPtr<T> w(p)` for a `SharedPtr` `p` -/
  | weakOfShared (p : ℕ)
  /-- `l = r` -/
  | weakAssign (l r : ℕ)
  /-- `a.swap(b)` -/
  | weakSwap (a b : ℕ)
  /-- `~WeakPtr` -/
  | weakDestroy (w : ℕ)
  /-- `SharedPtr<T> p = w.lock()` -/
  | lock (w : ℕ)
  deriving DecidableEq, Repr

namespace Store

/-- One operation on the handles.  `none` when a slot it names is empty, or when
the code runs into undefined behaviour. -/
def step (s : Store) : Op → Option Store
  | .sharedNew => do
      -- the object is named by the block made for it
      let (p, h) ← SharedPtr.ofPtr (some s.heap.blocks.length) s.heap
      return { s with heap := h, shared := Slots.insert s.shared p }
  | .sharedDefault => do
      let (p, h) ← SharedPtr.mkDefault s.heap
      return { s with heap := h, shared := Slots.insert s.shared p }
  | .sharedCopy r => do
      let r ← Slots.lookup s.shared r
      let (p, h) ← SharedPtr.mkCopy r s.heap
      return { s with heap := h, shared := Slots.insert s.shared p }
  | .sharedAssign l r => do
      let self ← Slots.lookup s.shared l
      let r ← Slots.lookup s.shared r
      let (self, h) ← self.assign r s.heap
      return { s with heap := h, shared := Slots.put s.shared l self }
  | .sharedSwap a b => do
      let x ← Slots.lookup s.shared a
      let y ← Slots.lookup s.shared b
      return { s with shared := Slots.put (Slots.put s.shared a y) b x }
  | .sharedDestroy p => do
      let self ← Slots.lookup s.shared p
      let h ← self.destroy s.heap
      return { s with heap := h, shared := Slots.remove s.shared p }
  | .weakDefault => do
      let (w, h) ← WeakPtr.mkDefault s.heap
      return { s with heap := h, weak := Slots.insert s.weak w }
  | .weakCopy r => do
      let r ← Slots.lookup s.weak r
      let (w, h) ← WeakPtr.mkCopy r s.heap
      return { s with heap := h, weak := Slots.insert s.weak w }
  | .weakOfShared p => do
      let p ← Slots.lookup s.shared p
      let (w, h) ← WeakPtr.ofShared p s.heap
      return { s with heap := h, weak := Slots.insert s.weak w }
  | .weakAssign l r => do
      let self ← Slots.lookup s.weak l
      let r ← Slots.lookup s.weak r
      let (self, h) ← self.assign r s.heap
      return { s with heap := h, weak := Slots.put s.weak l self }
  | .weakSwap a b => do
      let x ← Slots.lookup s.weak a
      let y ← Slots.lookup s.weak b
      return { s with weak := Slots.put (Slots.put s.weak a y) b x }
  | .weakDestroy w => do
      let self ← Slots.lookup s.weak w
      let h ← self.destroy s.heap
      return { s with heap := h, weak := Slots.remove s.weak w }
  | .lock w => do
      let w ← Slots.lookup s.weak w
      let (p, h) ← w.lock s.heap
      return { s with heap := h, shared := Slots.insert s.shared p }

/-- The number of live `SharedPtr`s that use a counter block. -/
def sharedUsing (s : Store) (cnt : CountersPtr) : ℕ :=
  Slots.held (fun p => decide (p.ptr.cnt = cnt)) s.shared

/-- The number of live `WeakPtr`s that use a counter block. -/
def weakUsing (s : Store) (cnt : CountersPtr) : ℕ :=
  Slots.held (fun w => decide (w.cnt = cnt)) s.weak

end Store

end Craplib.Memory
