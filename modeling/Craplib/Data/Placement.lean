import Craplib.Memory.Ledger
import Craplib.Data.Handles

/-!
# Every window lies inside its buffer

The invariant of a whole program that every other fact about `Data` starts from:
in every state each handle, a variable or an element of a deque, names a buffer
that was made, its `position` lies inside that buffer, and so does the end of its
window (`Program.Placed`).

`Safe m x good` is the form every function's lemma takes: from memory that keeps
the buffers of `m`, `x` leaves memory that keeps them too, and what it returns is
`good` in that memory.  Exceptions are covered: they leave the buffers and make
nothing.
-/

namespace Craplib

open Memory Effects

/-- A handle of a program: a variable, or an element of a deque. -/
inductive Handle
  | var (d : ℕ)
  | elem (q i : ℕ)
  deriving DecidableEq, Repr

namespace Program

/-- The `Data` a handle is. -/
def handle (s : Program) : Handle → Option Data
  | .var d => Slots.lookup s.vars d
  | .elem q i => (Slots.lookup s.deques q).bind fun x => x.mData[i]?

end Program

/-! ## Buffers stay where they are -/

/-- Every buffer of `m` is in `m'`, with the size it has. -/
def Mem.Keeps (m m' : Mem) : Prop :=
  ∀ n b, Slots.lookup m.impls n = some b →
    ∃ b', Slots.lookup m'.impls n = some b' ∧ b'.size = b.size

/-- The handle names a buffer that was made, and its window ends inside it. -/
def Data.Placed (m : Mem) (d : Data) : Prop :=
  ∃ n b, d.impl.ptr.pObj = some n ∧ Slots.lookup m.impls n = some b ∧
    0 ≤ d.position ∧ d.position ≤ b.size ∧ d.position + d.size ≤ b.size

namespace Mem.Keeps

variable {m m' m'' : Mem}

theorem refl (m : Mem) : m.Keeps m := fun _ b hb => ⟨b, hb, rfl⟩

theorem trans (h : m.Keeps m') (h' : m'.Keeps m'') : m.Keeps m'' := by
  intro n b hb
  obtain ⟨b', hb', hsize⟩ := h n b hb
  obtain ⟨b'', hb'', hsize'⟩ := h' n b' hb'
  exact ⟨b'', hb'', hsize'.trans hsize⟩

theorem placed (h : m.Keeps m') {d : Data} (hd : d.Placed m) : d.Placed m' := by
  obtain ⟨n, b, hn, hb, hpos, hle, hend⟩ := hd
  obtain ⟨b', hb', hsize⟩ := h n b hb
  refine ⟨n, b', hn, hb', hpos, ?_, ?_⟩ <;> omega

/-- A new buffer takes a new slot. -/
theorem insert (m : Mem) (h : Heap) (b : Impl) :
    m.Keeps { heap := h, impls := Slots.insert m.impls b } := by
  intro n b' hb'
  exact ⟨b', (Slots.lookup_insert_of_lt b (Slots.lookup_lt hb')).trans hb', rfl⟩

end Mem.Keeps

namespace Mem

theorem deref_eq_some {m : Mem} {p : SharedPtr} {b : Impl} :
    m.deref p = some b ↔
      ∃ n, p.ptr.pObj = some n ∧ n ∉ m.heap.deleted ∧ Slots.lookup m.impls n = some b := by
  unfold deref
  rcases p.ptr.pObj with _ | n
  · simp
  · simp only [Option.bind_eq_bind, Option.bind_some, Option.some.injEq, exists_eq_left']
    split
    · next hd => simp [hd]
    · next hd => simp [hd]

/-- The object that was read is there, and has not been deleted. -/
theorem alive_of_deref {m : Mem} {p : SharedPtr} {b : Impl} {n : ℕ} (hb : m.deref p = some b)
    (hn : p.ptr.pObj = some n) : n ∉ m.heap.deleted ∧ Slots.lookup m.impls n = some b := by
  obtain ⟨n', hn', halive, hlookup⟩ := deref_eq_some.mp hb
  obtain rfl : n = n' := Option.some.inj (hn.symm.trans hn')
  exact ⟨halive, hlookup⟩

/-- What a write inside a buffer does: the buffer is there, is long enough, and only
its bytes change. -/
theorem write_eq_some {m m' : Mem} {p : SharedPtr} {offset : ℤ} {bs : List Byte}
    (h : m.write p offset bs = some m') :
    ∃ n b b', p.ptr.pObj = some n ∧ m.deref p = some b ∧ Slots.lookup m.impls n = some b ∧
      0 ≤ offset ∧ offset.toNat + bs.length ≤ b.data.length ∧
      b'.data = overwrite b.data offset.toNat bs ∧ b'.size = b.size ∧
      m' = { m with impls := Slots.put m.impls n b' } := by
  unfold write at h
  rcases hn : p.ptr.pObj with _ | n
  · simp [hn] at h
  · rcases hb : m.deref p with _ | b
    · simp [hn, hb] at h
    · simp only [hn, hb, Option.bind_eq_bind, Option.bind_some] at h
      split at h
      · next hin =>
          exact ⟨n, b, ⟨overwrite b.data offset.toNat bs, b.size, by
            rw [length_overwrite hin.2, b.size_eq]⟩, rfl, rfl, (alive_of_deref hb hn).2, hin.1,
            hin.2, rfl, rfl, (Option.some.inj h).symm⟩
      · simp at h

theorem write_keeps {m m' : Mem} {p : SharedPtr} {offset : ℤ} {bs : List Byte}
    (h : m.write p offset bs = some m') : m.Keeps m' := by
  obtain ⟨n, b, b', -, -, hb, -, -, -, hsize, rfl⟩ := write_eq_some h
  intro x c hc
  by_cases hx : x = n
  · subst hx
    obtain rfl : b = c := Option.some.inj (hb.symm.trans hc)
    exact ⟨b', Slots.lookup_put_self b' hb, hsize⟩
  · exact ⟨c, (Slots.lookup_put_ne b' hx).trans hc, rfl⟩

end Mem

/-! ## What each function makes -/

/-- From memory that keeps the buffers of `m`, to memory that keeps them. -/
def Safe (m : Mem) {α : Type} (x : DataM α) (good : α → Mem → Prop) : Prop :=
  Triple m.Keeps x fun r m' => m.Keeps m' ∧ ∀ a, r = .ok a → good a m'

namespace Safe

variable {m : Mem} {α β : Type}

theorem pure {a : α} {good : α → Mem → Prop} (h : ∀ m', m.Keeps m' → good a m') :
    Safe m (Pure.pure a) good :=
  Triple.pure fun m' hm => ⟨hm, fun _ ha => Except.ok.inj ha ▸ h m' hm⟩

theorem throw {e : Thrown} {good : α → Mem → Prop} : Safe m (Eff.throw e) good :=
  Triple.throw fun _ hm => ⟨hm, fun _ ha => by simp at ha⟩

/-- Sequencing.  What the first part made is there in all memory that follows. -/
theorem bind {x : DataM α} {f : α → DataM β} {mid : α → Mem → Prop} {good : β → Mem → Prop}
    (hx : Safe m x mid) (hf : ∀ a m₁, m.Keeps m₁ → mid a m₁ → Safe m₁ (f a) good) :
    Safe m (x >>= f) good := by
  intro s r t hs hrun
  rcases Eff.bind_eq_some.mp hrun with ⟨e, hfst, rfl⟩ | ⟨a, u, hfst, hsnd⟩
  · exact ⟨(hx s _ t hs hfst).1, fun _ ha => by simp at ha⟩
  · obtain ⟨hu, hmid⟩ := hx s _ u hs hfst
    obtain ⟨ht, hgood⟩ := hf a u hu (hmid a rfl) u r t (.refl u) hsnd
    exact ⟨hu.trans ht, hgood⟩

theorem weaken {x : DataM α} {good good' : α → Mem → Prop} (h : Safe m x good)
    (hg : ∀ a m', m.Keeps m' → good a m' → good' a m') : Safe m x good' :=
  Triple.weaken h (fun _ h => h) fun _ m' hm =>
    ⟨hm.1, fun a ha => hg a m' hm.1 (hm.2 a ha)⟩

theorem attempt {x : DataM α} {good : α → Mem → Prop} (h : Safe m x good) :
    Safe m (Eff.attempt x) fun r m' => ∀ a, r = .ok a → good a m' := by
  refine Triple.weaken (Triple.attempt h) (fun _ h => h) ?_
  rintro r m' ⟨r', rfl, hm, hgood⟩
  exact ⟨hm, fun a ha => Except.ok.inj ha ▸ hgood⟩

theorem ofReader {f : Mem → Option α} {good : α → Mem → Prop}
    (h : ∀ m' a, m.Keeps m' → f m' = some a → good a m') : Safe m (.ofReader f) good :=
  Triple.ofReader fun m' a hm ha => ⟨hm, fun _ hb => Except.ok.inj hb ▸ h m' a hm ha⟩

/-- The pointer layer does not touch the buffers. -/
theorem onHeap {f : Heap → Option (α × Heap)} {good : α → Prop}
    (h : ∀ hp a hp', f hp = some (a, hp') → good a) :
    Safe m (Craplib.onHeap f) fun a _ => good a := by
  refine Triple.ofState fun s a t hs hf => ?_
  obtain ⟨⟨a', h'⟩, hf', heq⟩ := Option.map_eq_some_iff.mp hf
  obtain ⟨rfl, rfl⟩ := Prod.mk.inj heq
  exact ⟨hs, fun _ hb => Except.ok.inj hb ▸ h _ _ _ hf'⟩

end Safe

/-- The pointer names a buffer of `size` bytes. -/
def Points (p : SharedPtr) (size : ℤ) (m : Mem) : Prop :=
  ∃ n b, p.ptr.pObj = some n ∧ Slots.lookup m.impls n = some b ∧ b.size = size

namespace Data

variable {m : Mem}

theorem safe_newImpl (size : ℤ) (raw : List Byte) :
    Safe m (newImpl size raw) fun p m' => 0 ≤ size ∧ Points p size m' := by
  unfold newImpl Impl.make
  split
  · next e he => exact Safe.throw
  · next b hb =>
      split at hb
      · next hsize =>
          obtain rfl := Except.ok.inj hb
          refine Triple.ofState fun s p t hs hf => ?_
          obtain ⟨⟨q, h⟩, hq, heq⟩ := Option.bind_eq_some_iff.mp hf
          obtain ⟨rfl, rfl⟩ := Prod.mk.inj (Option.some.inj heq)
          refine ⟨hs.trans (Mem.Keeps.insert s h _), fun a ha => ?_⟩
          obtain rfl := Except.ok.inj ha
          exact ⟨hsize, s.impls.length, _, (SharedPtr.ofPtr_obj hq).1,
            Slots.lookup_insert_self _ _, rfl⟩
      · simp at hb

/-- A handle on the whole of a buffer. -/
theorem placed_of_points {p : SharedPtr} {size : ℤ} (h : 0 ≤ size) (hp : Points p size m) :
    Placed m ⟨p, 0, size⟩ := by
  obtain ⟨n, b, hn, hb, hsize⟩ := hp
  refine ⟨n, b, hn, hb, ?_, ?_, ?_⟩ <;> simp only <;> omega

theorem safe_mkDefault : Safe m mkDefault fun d m' => d.Placed m' := by
  unfold mkDefault
  refine Safe.bind (safe_newImpl 0 []) fun p m₁ _ hp => Safe.pure fun m' hm' => ?_
  exact hm'.placed (placed_of_points hp.1 hp.2)

theorem safe_mkSize (size : ℤ) (raw : List Byte) :
    Safe m (mkSize size raw) fun d m' => d.Placed m' := by
  unfold mkSize
  refine Safe.bind (safe_newImpl size raw) fun p m₁ _ hp => Safe.pure fun m' hm' => ?_
  exact hm'.placed (placed_of_points hp.1 hp.2)

theorem safe_memmove (p : SharedPtr) (offset : ℤ) (src : List Byte) (n : ℤ) :
    Safe m (memmove p offset src n) fun _ _ => True := by
  refine Triple.ofState fun s a t hs hf => ⟨?_, fun _ _ => trivial⟩
  obtain ⟨bs, -, hf⟩ := Option.bind_eq_some_iff.mp hf
  obtain ⟨t', hw, heq⟩ := Option.bind_eq_some_iff.mp hf
  obtain ⟨-, rfl⟩ := Prod.mk.inj (Option.some.inj heq)
  exact hs.trans (Mem.write_keeps hw)

theorem safe_memset (p : SharedPtr) (offset value n : ℤ) :
    Safe m (memset p offset value n) fun _ _ => True := by
  refine Triple.ofState fun s a t hs hf => ⟨?_, fun _ _ => trivial⟩
  split at hf
  · obtain ⟨t', hw, heq⟩ := Option.map_eq_some_iff.mp hf
    obtain ⟨-, rfl⟩ := Prod.mk.inj heq
    exact hs.trans (Mem.write_keeps hw)
  · simp at hf

theorem safe_mkBytes (size : ℤ) (data : List Byte) :
    Safe m (mkBytes size data) fun d m' => d.Placed m' := by
  unfold mkBytes
  refine Safe.bind (safe_newImpl size []) fun p m₁ _ hp => ?_
  refine Safe.bind (safe_memmove p 0 data size) fun _ m₂ hm₂ _ => Safe.pure fun m' hm' => ?_
  exact (hm₂.trans hm').placed (placed_of_points hp.1 hp.2)

theorem safe_mkCopy {d : Data} (hd : d.Placed m) :
    Safe m (mkCopy d) fun x m' => x.Placed m' := by
  unfold mkCopy
  have hcopy : Safe m (onHeap (SharedPtr.mkCopy d.impl)) fun p _ => p = d.impl :=
    Safe.onHeap fun _ _ _ h => SharedPtr.mkCopy_fst h
  refine Safe.bind hcopy fun p m₁ hm₁ hp => Safe.pure fun m' hm' => ?_
  subst hp
  exact (hm₁.trans hm').placed hd

theorem safe_destroy (d : Data) : Safe m d.destroy fun _ _ => True :=
  (Safe.onHeap fun _ _ _ _ => trivial).weaken fun _ _ _ _ => trivial

theorem safe_mkSlice {d : Data} (hd : d.Placed m) (pos si : ℤ) :
    Safe m (mkSlice d pos si) fun x m' => x.Placed m' := by
  unfold mkSlice
  have hcopy : Safe m (onHeap (SharedPtr.mkCopy d.impl)) fun p _ => p = d.impl :=
    Safe.onHeap fun _ _ _ h => SharedPtr.mkCopy_fst h
  refine Safe.bind hcopy fun p m₁ hm₁ hp => ?_
  subst hp
  split
  · next e _ =>
      have hdrop : Safe m₁ (onHeap fun h => (d.impl.destroy h).map ((), ·))
          fun (_ : Unit) _ => True := Safe.onHeap fun _ _ _ _ => trivial
      exact Safe.bind hdrop fun _ _ _ _ => Safe.throw
  · next pos' hcheck =>
      refine Safe.pure fun m' hm' => ?_
      -- the position was checked against the size; the new size is cut to what is left
      obtain ⟨n, b, hn, hb, hpos, hle, hend⟩ := (hm₁.trans hm').placed hd
      simp only [checkPosition] at hcheck
      split at hcheck
      · simp at hcheck
      · next hrange =>
          obtain rfl := Except.ok.inj hcheck
          refine ⟨n, b, hn, hb, ?_, ?_, ?_⟩ <;> simp only <;> omega

theorem safe_assign (self : Data) {d : Data} (hd : d.Placed m) :
    Safe m (self.assign d) fun x m' => x.Placed m' := by
  unfold assign
  refine Safe.bind (safe_mkCopy hd) fun x m₁ _ hx => ?_
  refine Safe.bind (safe_destroy self) fun _ m₂ hm₂ _ => Safe.pure fun m' hm' => ?_
  exact (hm₂.trans hm').placed hx

theorem bytesFrom_eq_some {d : Data} {bs : List Byte} :
    bytesFrom m d = some bs ↔ ∃ b, m.deref d.impl = some b ∧ 0 ≤ d.position ∧
      d.position.toNat ≤ b.data.length ∧ bs = b.data.drop d.position.toNat := by
  unfold bytesFrom
  rcases m.deref d.impl with _ | b
  · simp
  · simp only [Option.bind_eq_bind, Option.bind_some, Option.some.injEq, exists_eq_left']
    split
    · next h => simp [h, eq_comm]
    · next h =>
        simp only [reduceCtorEq, false_iff]
        rintro ⟨hpos, hle, -⟩
        exact h ⟨hpos, hle⟩

theorem safe_getByte {d : Data} (hd : d.Placed m) :
    Safe m d.getByte fun r m' => r.2.Placed m' := by
  unfold getByte
  split
  · exact Safe.pure fun m' hm' => hm'.placed hd
  · -- the byte that was read is inside the buffer, so the window can move past it
    have hread : Safe m (.ofReader fun m => (bytesFrom m d).bind List.head?)
        fun _ m' => Placed m' { d with size := d.size - 1, position := d.position + 1 } := by
      refine Safe.ofReader fun m' a hm' ha => ?_
      obtain ⟨bs, hbs, hhead⟩ := Option.bind_eq_some_iff.mp ha
      obtain ⟨b, hderef, -, -, rfl⟩ := bytesFrom_eq_some.mp hbs
      obtain ⟨n, hn, -, hlookup⟩ := Mem.deref_eq_some.mp hderef
      obtain ⟨n', b', hn', hb', hpos, hle, hend⟩ := hm'.placed hd
      obtain rfl : n = n' := Option.some.inj (hn.symm.trans hn')
      obtain rfl : b = b' := Option.some.inj (hlookup.symm.trans hb')
      have hlt : d.position.toNat < b.data.length := by
        by_contra hge
        simp [List.drop_of_length_le (Nat.le_of_not_lt hge)] at hhead
      have hsize := b.size_eq
      refine ⟨n, b, hn, hlookup, ?_, ?_, ?_⟩ <;> simp only <;> omega
    exact Safe.bind hread fun a m₁ _ h => Safe.pure fun m' hm' => hm'.placed h

theorem safe_getData (d : Data) : Safe m d.getData fun _ _ => True :=
  Safe.ofReader fun _ _ _ _ => trivial

/-- The handle `lock` leaves has the size it had. -/
theorem safe_lock {d : Data} (hd : d.Placed m) : Safe m d.lock fun x m' => x.Placed m' := by
  unfold lock
  have hone : Safe m (.ofReader fun m => d.impl.isTheOne m.heap) fun _ _ => True :=
    Safe.ofReader fun _ _ _ _ => trivial
  refine Safe.bind hone fun one m₁ hm₁ _ => ?_
  split
  · exact Safe.pure fun m' hm' => (hm₁.trans hm').placed hd
  · refine Safe.bind (safe_getData d) fun bs m₂ hm₂ _ => ?_
    refine Safe.bind (safe_mkBytes d.size bs) fun da m₃ hm₃ hda => ?_
    exact Safe.bind (safe_destroy d) fun _ m₄ hm₄ _ =>
      Safe.pure fun m' hm' => (hm₄.trans hm').placed hda

theorem safe_fill {d : Data} (hd : d.Placed m) (value : ℤ) :
    Safe m (d.fill value) fun x m' => x.Placed m' := by
  unfold fill
  refine Safe.bind (safe_lock hd) fun x m₁ _ hx => ?_
  exact Safe.bind (safe_memset x.impl 0 value x.size) fun _ m₂ hm₂ _ =>
    Safe.pure fun m' hm' => (hm₂.trans hm').placed hx

theorem safe_copy {d : Data} (hd : d.Placed m) (pos : ℤ) (other : Option Data) :
    Safe m (d.copy pos other) fun r m' => r.2.Placed m' := by
  unfold copy
  split
  · exact Safe.throw
  · next pos' _ =>
      refine Safe.bind (safe_lock hd) fun x m₁ _ hx => ?_
      refine Safe.bind (safe_getData (other.getD x)) fun bs m₂ hm₂ _ => ?_
      exact Safe.bind (safe_memmove x.impl pos' bs _) fun _ m₃ hm₃ _ =>
        Safe.pure fun m' hm' => ((hm₂.trans hm₃).trans hm').placed hx

theorem safe_stores (d : Data) (bs : List (ℕ × Byte)) :
    Safe m (d.stores bs) fun _ _ => True := by
  induction bs generalizing m with
  | nil => exact Safe.pure fun _ _ => trivial
  | cons p rest ih =>
      have hone : Safe m (.ofState fun m => (m.write d.impl p.1 [p.2]).map ((), ·))
          fun (_ : Unit) _ => True := by
        refine Triple.ofState fun s a t hs hf => ⟨?_, fun _ _ => trivial⟩
        obtain ⟨t', hw, heq⟩ := Option.map_eq_some_iff.mp hf
        obtain ⟨-, rfl⟩ := Prod.mk.inj heq
        exact hs.trans (Mem.write_keeps hw)
      exact Safe.bind hone fun _ _ _ _ => ih

end Data

namespace DataDeque

variable {m : Mem}

/-- Every element of the deque is placed. -/
def Placed (m : Mem) (q : DataDeque) : Prop := ∀ d ∈ q.mData, d.Placed m

theorem Placed.mono {m m' : Mem} {q : DataDeque} (h : q.Placed m) (hm : m.Keeps m') :
    q.Placed m' :=
  fun d hd => hm.placed (h d hd)

theorem safe_write {q : DataDeque} {d : Data} (hq : q.Placed m) (hd : d.Placed m) :
    Safe m (q.write d) fun x m' => x.Placed m' := by
  unfold write
  refine Safe.bind (Data.safe_mkCopy hd) fun item m₁ hm₁ hitem => Safe.pure fun m' hm' => ?_
  intro x hx
  rcases List.mem_append.mp hx with hx | hx
  · exact (hm₁.trans hm').placed (hq x hx)
  · obtain rfl : x = item := by simpa using hx
    exact hm'.placed hitem

theorem safe_readNothing (d : Data) : Safe m (readNothing d) fun x m' => x.Placed m' := by
  unfold readNothing
  refine Safe.bind Data.safe_mkDefault fun temp m₁ _ htemp => ?_
  refine Safe.bind (Data.safe_assign d htemp) fun x m₂ _ hx => ?_
  exact Safe.bind (Data.safe_destroy temp) fun _ m₃ hm₃ _ =>
    Safe.pure fun m' hm' => (hm₃.trans hm').placed hx

theorem safe_readFront {fr : Data} {rest : List Data} (size : ℤ) (d : Data)
    (hfr : fr.Placed m) (hrest : ∀ x ∈ rest, x.Placed m) :
    Safe m (readFront fr rest size d) fun r m' => r.1.Placed m' ∧ r.2.Placed m' := by
  unfold readFront
  refine Safe.bind (Data.safe_assign d hfr) fun x m₁ hm₁ hx => ?_
  refine Safe.bind (Data.safe_destroy fr) fun _ m₂ hm₂ _ => Safe.pure fun m' hm' => ?_
  exact ⟨(hm₂.trans hm').placed hx,
    fun y hy => ((hm₁.trans hm₂).trans hm').placed (hrest y hy)⟩

theorem safe_read {q : DataDeque} (d : Data) (hq : q.Placed m) :
    Safe m (q.read d) fun r m' => r.1.Placed m' ∧ r.2.Placed m' := by
  unfold read
  split
  · exact Safe.bind (safe_readNothing d) fun x m₁ hm₁ hx =>
      Safe.pure fun m' hm' => ⟨hm'.placed hx, hq.mono (hm₁.trans hm')⟩
  · next fr rest heq =>
      exact safe_readFront q.size d (hq fr (by simp [heq])) fun x hx => hq x (by simp [heq, hx])

theorem safe_readMax {q : DataDeque} (d : Data) (maxSize : ℤ) (hq : q.Placed m) :
    Safe m (q.readMax d maxSize) fun r m' => r.1.Placed m' ∧ r.2.1.Placed m' := by
  unfold readMax
  split
  · exact Safe.bind (safe_readNothing d) fun x m₁ hm₁ hx =>
      Safe.pure fun m' hm' => ⟨hm'.placed hx, hq.mono (hm₁.trans hm')⟩
  · next fr rest heq =>
      have hfr : fr.Placed m := hq fr (by simp [heq])
      have hrest : ∀ x ∈ rest, x.Placed m := fun x hx => hq x (by simp [heq, hx])
      split
      · exact Safe.bind (safe_readFront q.size d hfr hrest) fun r m₁ _ hr =>
          Safe.pure fun m' hm' => ⟨hm'.placed hr.1, hr.2.mono hm'⟩
      · refine Safe.bind (Data.safe_mkSlice hfr 0 maxSize) fun temp m₁ hm₁ htemp => ?_
        refine Safe.bind (Data.safe_assign d htemp) fun x m₂ hm₂ hx => ?_
        refine Safe.bind (Data.safe_destroy temp) fun _ m₃ hm₃ _ => ?_
        have hm₁₃ := (hm₁.trans hm₂).trans hm₃
        have hslice := Data.safe_mkSlice (hm₁₃.placed hfr) maxSize (fr.size - maxSize)
        refine Safe.bind hslice.attempt fun r m₄ hm₄ hr => ?_
        have hx₄ := (hm₃.trans hm₄).placed hx
        rcases r with e | temp'
        · -- the second slice threw: `data` is assigned, the deque is as it was
          exact Safe.pure fun m' hm' =>
            ⟨hm'.placed hx₄, hq.mono ((hm₁₃.trans hm₄).trans hm')⟩
        · refine Safe.bind (Data.safe_assign fr (hr temp' rfl)) fun fr' m₅ hm₅ hfr' => ?_
          refine Safe.bind (Data.safe_destroy temp') fun _ m₆ hm₆ _ =>
            Safe.pure fun m' hm' => ?_
          have hm₅' := (hm₅.trans hm₆).trans hm'
          refine ⟨hm₅'.placed hx₄, fun y hy => ?_⟩
          rcases List.mem_cons.mp hy with rfl | hy
          · exact (hm₆.trans hm').placed hfr'
          · exact ((hm₁₃.trans hm₄).trans hm₅').placed (hrest y hy)

theorem safe_destroyAll (ds : List Data) : Safe m (destroyAll ds) fun _ _ => True := by
  induction ds generalizing m with
  | nil => exact Safe.pure fun _ _ => trivial
  | cons d rest ih => exact Safe.bind (Data.safe_destroy d) fun _ _ _ _ => ih

end DataDeque

namespace Program

/-! ## Whole programs -/

/-- Every handle of the program has its window inside a buffer. -/
structure Placed (s : Program) : Prop where
  vars : ∀ d, some d ∈ s.vars → d.Placed s.mem
  deques : ∀ q, some q ∈ s.deques → q.Placed s.mem

namespace Placed

theorem init : Placed Program.init := ⟨by simp [Program.init], by simp [Program.init]⟩

variable {s s' : Program}

theorem var (h : s.Placed) {k : ℕ} {d : Data} (hd : Slots.lookup s.vars k = some d) :
    d.Placed s.mem :=
  h.vars d (Slots.mem_of_lookup hd)

theorem deque (h : s.Placed) {k : ℕ} {q : DataDeque} (hq : Slots.lookup s.deques k = some q) :
    q.Placed s.mem :=
  h.deques q (Slots.mem_of_lookup hq)

theorem handle (h : s.Placed) {r : Handle} {d : Data} (hd : s.handle r = some d) :
    d.Placed s.mem := by
  cases r with
  | var k => exact h.var hd
  | elem k i =>
      obtain ⟨q, hq, hi⟩ := Option.bind_eq_some_iff.mp hd
      exact h.deque hq d (List.mem_of_getElem? hi)

theorem mono (h : s.Placed) {m : Mem} (hm : s.mem.Keeps m) : Placed { s with mem := m } :=
  ⟨fun d hd => hm.placed (h.vars d hd), fun q hq => (h.deques q hq).mono hm⟩

theorem put_var (h : s.Placed) (k : ℕ) {d : Data} (hd : d.Placed s.mem) :
    Placed { s with vars := Slots.put s.vars k d } :=
  ⟨Slots.forall_put hd h.vars, h.deques⟩

theorem put_deque (h : s.Placed) (k : ℕ) {q : DataDeque} (hq : q.Placed s.mem) :
    Placed { s with deques := Slots.put s.deques k q } :=
  ⟨h.vars, Slots.forall_put hq h.deques⟩

/-- What a computation makes is placed in the memory it leaves. -/
theorem run {α : Type} {x : DataM α} {good : α → Mem → Prop} {k : α → Program → Program}
    (h : s.Placed) (hx : Safe s.mem x good) (hrun : s.run x k = some s')
    (hk : ∀ a m, Placed { s with mem := m } → good a m → Placed (k a { s with mem := m })) :
    s'.Placed := by
  unfold Program.run at hrun
  rcases hres : x s.mem with _ | ⟨e | a, m⟩
  · simp [hres] at hrun
  · simp only [hres, Option.some.injEq] at hrun
    exact hrun ▸ h.mono (hx _ _ _ (.refl _) hres).1
  · simp only [hres, Option.some.injEq] at hrun
    obtain ⟨hm, hgood⟩ := hx _ _ _ (.refl _) hres
    exact hrun ▸ hk a m (h.mono hm) (hgood a rfl)

theorem declare {x : DataM Data} (h : s.Placed) (hx : Safe s.mem x fun d m => d.Placed m)
    (hrun : s.declare x = some s') : s'.Placed :=
  h.run hx hrun fun _ _ hs hd => ⟨Slots.forall_insert hd hs.vars, hs.deques⟩

/-- Every operation keeps every window inside its buffer. -/
theorem step {op : DataOp} (h : s.Placed) (hstep : s.step op = some s') : s'.Placed := by
  cases op with
  | mkDefault => exact h.declare Data.safe_mkDefault hstep
  | mkSize size raw => exact h.declare (Data.safe_mkSize size raw) hstep
  | mkBytes size data => exact h.declare (Data.safe_mkBytes size data) hstep
  | mkCopy r =>
      obtain ⟨d, hd, hrun⟩ := Option.bind_eq_some_iff.mp hstep
      exact h.declare (Data.safe_mkCopy (h.var hd)) hrun
  | mkSlice r pos si =>
      obtain ⟨d, hd, hrun⟩ := Option.bind_eq_some_iff.mp hstep
      exact h.declare (Data.safe_mkSlice (h.var hd) pos si) hrun
  | assign l r =>
      obtain ⟨self, hself, hrest⟩ := Option.bind_eq_some_iff.mp hstep
      obtain ⟨d, hd, hrun⟩ := Option.bind_eq_some_iff.mp hrest
      exact h.run (Data.safe_assign self (h.var hd)) hrun fun _ _ hs hx => hs.put_var l hx
  | swap a b =>
      obtain ⟨x, hx, hrest⟩ := Option.bind_eq_some_iff.mp hstep
      obtain ⟨y, hy, heq⟩ := Option.bind_eq_some_iff.mp hrest
      obtain rfl := Option.some.inj heq
      exact (h.put_var a (h.var hy)).put_var b (h.var hx)
  | destroy d =>
      obtain ⟨self, hself, hrun⟩ := Option.bind_eq_some_iff.mp hstep
      exact h.run (Data.safe_destroy self) hrun fun _ _ hs _ =>
        ⟨Slots.forall_remove hs.vars, hs.deques⟩
  | getByte d =>
      obtain ⟨self, hself, hrun⟩ := Option.bind_eq_some_iff.mp hstep
      exact h.run (Data.safe_getByte (h.var hself)) hrun fun _ _ hs hx => hs.put_var d hx
  | fill d value =>
      obtain ⟨self, hself, hrun⟩ := Option.bind_eq_some_iff.mp hstep
      exact h.run (Data.safe_fill (h.var hself) value) hrun fun _ _ hs hx => hs.put_var d hx
  | copy d pos other =>
      obtain ⟨self, hself, hrest⟩ := Option.bind_eq_some_iff.mp hstep
      obtain ⟨arg, -, hrun⟩ := Option.bind_eq_some_iff.mp hrest
      exact h.run (Data.safe_copy (h.var hself) pos _) hrun fun _ _ hs hx => hs.put_var d hx
  | stores d bs =>
      obtain ⟨self, hself, hrun⟩ := Option.bind_eq_some_iff.mp hstep
      split at hrun
      · have hsafe : Safe s.mem (do let self ← self.lock; self.stores bs; return self)
            fun x m => x.Placed m :=
          Safe.bind (Data.safe_lock (h.var hself)) fun x m₁ _ hx =>
            Safe.bind (Data.safe_stores x bs) fun _ m₂ hm₂ _ =>
              Safe.pure fun m' hm' => (hm₂.trans hm').placed hx
        exact h.run hsafe hrun fun _ _ hs hx => hs.put_var d hx
      · simp at hrun
  | dequeNew =>
      obtain rfl := Option.some.inj hstep
      exact ⟨h.vars, Slots.forall_insert (by simp [DataDeque.Placed, DataDeque.mkDefault])
        h.deques⟩
  | dequeWrite q d =>
      obtain ⟨self, hself, hrest⟩ := Option.bind_eq_some_iff.mp hstep
      obtain ⟨data, hdata, hrun⟩ := Option.bind_eq_some_iff.mp hrest
      exact h.run (DataDeque.safe_write (h.deque hself) (h.var hdata)) hrun fun _ _ hs hx =>
        hs.put_deque q hx
  | dequeRead q d =>
      obtain ⟨self, hself, hrest⟩ := Option.bind_eq_some_iff.mp hstep
      obtain ⟨data, hdata, hrun⟩ := Option.bind_eq_some_iff.mp hrest
      exact h.run (DataDeque.safe_read data (h.deque hself)) hrun fun _ _ hs hx =>
        (hs.put_var d hx.1).put_deque q hx.2
  | dequeReadMax q d maxSize =>
      obtain ⟨self, hself, hrest⟩ := Option.bind_eq_some_iff.mp hstep
      obtain ⟨data, hdata, hrun⟩ := Option.bind_eq_some_iff.mp hrest
      exact h.run (DataDeque.safe_readMax data maxSize (h.deque hself)) hrun fun _ _ hs hx =>
        (hs.put_var d hx.1).put_deque q hx.2
  | dequeDestroy q =>
      obtain ⟨self, hself, hrun⟩ := Option.bind_eq_some_iff.mp hstep
      exact h.run (DataDeque.safe_destroyAll self.mData) hrun fun _ _ hs _ =>
        ⟨hs.vars, Slots.forall_remove hs.deques⟩

end Placed

end Program

end Craplib
