import Craplib.Data.InPlace

/-!
# A buffer that was just made

A function that makes a `Data`, fills it and returns a part of it works on the last counter
block and the last buffer of the memory.  `m.push c b` is the memory with these two behind
those of `m`, and `m.top` is the pointer to them: the pointer layer moves the two counters of
`c`, a store replaces bytes of `b`, and nothing of `m` is touched.
-/

namespace Craplib

open Memory Effects

namespace Mem

variable {m : Mem} {c : Counters} {b : Impl}

/-- The memory with one more counter block and one more buffer. -/
def push (m : Mem) (c : Counters) (b : Impl) : Mem :=
  ⟨{ m.heap with blocks := Slots.insert m.heap.blocks c }, Slots.insert m.impls b⟩

/-- The pointer to them. -/
def top (m : Mem) : SharedPtr := ⟨⟨some m.impls.length, m.heap.blocks.length⟩⟩

/-- The buffer that is made next is not one that has been deleted. -/
def Fresh (m : Mem) : Prop := m.impls.length ∉ m.heap.deleted

instance (m : Mem) : Decidable m.Fresh := inferInstanceAs (Decidable (¬ _))

@[simp] theorem deref_push : (m.push c b).heap.deref m.heap.blocks.length = some c :=
  Slots.lookup_insert_self _ _

@[simp] theorem store_push (c' : Counters) :
    (m.push c b).heap.store m.heap.blocks.length c' = (m.push c' b).heap := by
  simp [push, Heap.store, Slots.put, Slots.insert]

/-- A new `SharedPtr` makes the block. -/
theorem ofPtr_top (b : Impl) :
    SharedPtr.ofPtr (some m.impls.length) m.heap = some (m.top, (m.push ⟨1, 1⟩ b).heap) := by
  have hblock : m.heap.newCounters = (m.heap.blocks.length, (m.push ⟨0, 0⟩ b).heap) := rfl
  simp [SharedPtr.ofPtr, WeakPtr.ofPtr, hblock, WeakPtr.attach, SharedPtr.attach,
    interlockedIncrement, top]

theorem mkCopy_top : SharedPtr.mkCopy m.top (m.push c b).heap =
    some (m.top, (m.push ⟨interlockedIncrement c.sc, interlockedIncrement c.wc⟩ b).heap) := by
  simp [SharedPtr.mkCopy, WeakPtr.mkCopy, WeakPtr.attach, SharedPtr.attach, top]

/-- A handle that is not the last one goes. -/
theorem destroy_top (hs : interlockedDecrement c.sc ≠ 0) (hw : interlockedDecrement c.wc ≠ 0) :
    m.top.destroy (m.push c b).heap =
      some (m.push ⟨interlockedDecrement c.sc, interlockedDecrement c.wc⟩ b).heap := by
  simp [SharedPtr.destroy, SharedPtr.detach, WeakPtr.destroy, WeakPtr.detach, top, hs, hw]

theorem deref_top (hm : m.Fresh) : (m.push c b).deref m.top = some b :=
  deref_eq_some.mpr ⟨_, rfl, hm, Slots.lookup_insert_self _ _⟩

/-- A store from the beginning of the buffer. -/
theorem write_top (hm : m.Fresh) (bs : List Byte) (hle : bs.length ≤ b.data.length) :
    ∃ b' : Impl, (m.push c b).write m.top 0 bs = some (m.push c b') ∧ b'.size = b.size ∧
      b'.data = overwrite b.data 0 bs := by
  refine ⟨⟨overwrite b.data 0 bs, b.size, ?_⟩, ?_, rfl, rfl⟩
  · rw [length_overwrite (by omega), b.size_eq]
  · have hobj : m.top.ptr.pObj = some m.impls.length := rfl
    unfold write
    simp only [hobj, deref_top hm, Option.bind_eq_bind, Option.bind_some]
    rw [dif_pos ⟨Int.le_refl 0, by simpa using hle⟩]
    simp [push, Slots.put, Slots.insert]

end Mem

namespace Data

variable {m : Mem} {c : Counters} {b : Impl}

/-- `Data(int size)`. -/
theorem mkSize_eq (m : Mem) {size : ℤ} (hsize : 0 ≤ size) (raw : List Byte) :
    ∃ b : Impl, b.size = size ∧
      mkSize size raw m = some (.ok ⟨m.top, 0, size⟩, m.push ⟨1, 1⟩ b) := by
  let b : Impl := ⟨raw.takeD size.toNat 0, size, by
    rw [List.takeD_length, Int.toNat_of_nonneg hsize]⟩
  have hmake : Impl.make size raw = .ok b := dif_pos hsize
  refine ⟨b, rfl, ?_⟩
  have hnew : newImpl size raw m = some (.ok m.top, m.push ⟨1, 1⟩ b) := by
    unfold newImpl
    rw [hmake]
    refine Eff.ofState_eq_some.mpr ⟨m.top, ?_, rfl⟩
    rw [Mem.ofPtr_top b]
    rfl
  exact Eff.bind_eq_some.mpr (Or.inr ⟨_, _, hnew, rfl⟩)

/-- A negative size is refused, and nothing has changed. -/
theorem mkSize_negative (m : Mem) {size : ℤ} (hsize : size < 0) (raw : List Byte) :
    mkSize size raw m = some (.error .badAlloc, m) := by
  have hmake : Impl.make size raw = .error .badAlloc := dif_neg (Int.not_le.mpr hsize)
  have hnew : newImpl size raw m = some (.error .badAlloc, m) := by
    unfold newImpl
    rw [hmake]
    rfl
  exact Eff.bind_eq_some.mpr (Or.inl ⟨_, hnew, rfl⟩)

/-- `lock` has nothing to copy. -/
theorem lock_top {position size : ℤ} (hc : c.sc ≠ 0) :
    lock ⟨m.top, position, size⟩ (m.push c b) = some (.ok ⟨m.top, position, size⟩, m.push c b) := by
  refine Eff.bind_ofReader_eq_some.mpr ⟨true, ?_, rfl⟩
  simp [SharedPtr.isTheOne, Mem.top, hc]

/-- A function of the pointer layer that moves the counters. -/
theorem onHeap_push {α : Type} {f : Heap → Option (α × Heap)} {a : α} {c' : Counters}
    (h : f (m.push c b).heap = some (a, (m.push c' b).heap)) :
    onHeap f (m.push c b) = some (.ok a, m.push c' b) := by
  refine Eff.ofState_eq_some.mpr ⟨a, ?_, rfl⟩
  rw [h]
  rfl

/-- A slice from the beginning shares the buffer. -/
theorem mkSlice_top {size : ℤ} (si : ℤ) (hsize : 0 ≤ size) :
    mkSlice ⟨m.top, 0, size⟩ 0 si (m.push c b) = some (.ok ⟨m.top, 0, min si size⟩,
      m.push ⟨interlockedIncrement c.sc, interlockedIncrement c.wc⟩ b) := by
  have hin : ¬ ((0 : ℤ) < 0 ∨ (0 : ℤ) > size) := by omega
  unfold mkSlice checkPosition
  rw [if_neg hin]
  refine Eff.bind_eq_some.mpr (Or.inr ⟨m.top, _, onHeap_push Mem.mkCopy_top, ?_⟩)
  refine Eff.pure_eq_some.mpr ⟨?_, rfl⟩
  rw [Int.sub_zero, Int.add_zero]

/-- A handle that is not the last one is destroyed. -/
theorem destroy_top {d : Data} (hd : d.impl = m.top) (hs : interlockedDecrement c.sc ≠ 0)
    (hw : interlockedDecrement c.wc ≠ 0) : d.destroy (m.push c b) =
      some (.ok (), m.push ⟨interlockedDecrement c.sc, interlockedDecrement c.wc⟩ b) := by
  refine onHeap_push ?_
  rw [hd, Mem.destroy_top hs hw, Option.map_some]

theorem shown_top (hm : m.Fresh) {n : ℤ} (hlo : 0 ≤ n) (hhi : n ≤ b.size) :
    shown (m.push c b) ⟨m.top, 0, n⟩ = some (b.data.take n.toNat) := by
  have hsize := b.size_eq
  refine shown_eq_some.mpr ⟨b, Mem.deref_top hm, Int.le_refl 0, hlo, ?_, rfl⟩
  simp only [Int.toNat_zero]
  omega

/-- Bytes are stored from the beginning of the buffer. -/
theorem memmove_top (hm : m.Fresh) {bs : List Byte} (hle : bs.length ≤ b.size) :
    ∃ b' : Impl, memmove m.top 0 bs bs.length (m.push c b) = some (.ok (), m.push c b') ∧
      b'.size = b.size ∧ b'.data.take bs.length = bs := by
  have hsize := b.size_eq
  obtain ⟨b', hw, hbsize, hdata⟩ := Mem.write_top (c := c) (b := b) hm bs (by omega)
  refine ⟨b', Eff.ofState_eq_some.mpr ⟨(), ?_, rfl⟩, hbsize, ?_⟩
  · have hbytes : bytesAt bs bs.length = some bs := by
      rw [bytesAt, if_pos ⟨by omega, by simp⟩, Int.toNat_natCast, List.take_length]
    simp [hbytes, hw]
  · simp [hdata, Mem.overwrite]

end Data

end Craplib
