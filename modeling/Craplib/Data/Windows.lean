import Craplib.Data.Compare

/-!
# When a window is a window

The sizes of the handles of a program come from few places: an operation keeps the size of a
handle, or gives one that `Makes` lists.  `Data(d, pos, si)` checks `pos` and takes the
smaller of `si` and what is left behind `pos`, so a negative `si` is the size of the new
handle; and the bounded `read` of a `DataDeque` cuts the front chunk that way before its
second slice throws.

The arguments are any integers.  For a window inside its buffer, whose size is an `int`, the
sums and differences that the functions form lie between zero and that size, so an `int`
holds them.  An allocation that fails throws before a handle has changed.

* `sizes_step` — one operation, for any condition on sizes.
* `InBuffer.reaches` — what a window inside its buffer is good for: `getByte`, `compare`,
  `fill` and `copy` stay inside the buffer.
* `confined_iff` — every run: all windows lie inside their buffers exactly when no operation
  asks for a negative number of bytes in one of these two places (`Oversteps`).
-/

namespace Craplib

open Memory Effects

/-! ## What is returned, in any memory -/

/-- Whatever `x` returns is `good`. -/
def Yields {α : Type} (x : DataM α) (good : α → Prop) : Prop :=
  Triple (fun _ => True) x fun r _ => ∀ a, r = .ok a → good a

namespace Yields

variable {α β : Type}

theorem pure {a : α} {good : α → Prop} (h : good a) : Yields (Pure.pure a) good :=
  Triple.pure fun _ _ _ ha => Except.ok.inj ha ▸ h

theorem throw {e : Thrown} {good : α → Prop} : Yields (Eff.throw e) good :=
  Triple.throw fun _ _ _ ha => by cases ha

theorem bind {x : DataM α} {f : α → DataM β} {mid : α → Prop} {good : β → Prop}
    (hx : Yields x mid) (hf : ∀ a, mid a → Yields (f a) good) : Yields (x >>= f) good := by
  refine Triple.bind hx (fun _ _ _ _ ha => by cases ha) fun a => ?_
  intro s r t hs hrun
  exact hf a (hs a rfl) s r t trivial hrun

theorem any (x : DataM α) : Yields x fun _ => True := fun _ _ _ _ _ _ _ => trivial

/-- Sequencing, after a first part whose result does not matter. -/
theorem after {x : DataM α} {f : α → DataM β} {good : β → Prop} (hf : ∀ a, Yields (f a) good) :
    Yields (x >>= f) good :=
  bind (any x) fun a _ => hf a

theorem attempt {x : DataM α} {good : α → Prop} (h : Yields x good) :
    Yields (Eff.attempt x) fun r => ∀ a, r = .ok a → good a := by
  refine Triple.weaken (Triple.attempt h) (fun _ h => h) ?_
  rintro r m ⟨r', rfl, hgood⟩ a ha
  exact Except.ok.inj ha ▸ hgood

/-- What always returns the same yields it. -/
theorem of_returns {x : DataM α} {a : α} (h : ∀ m, Returns m x (· = .ok a)) :
    Yields x (· = a) := by
  intro m r m' _ hrun b hb
  obtain rfl : r = .ok a := (h m m r m' (Mem.Intact.refl m) hrun).2
  exact (Except.ok.inj hb).symm

end Yields

namespace Data

variable {m : Mem} {d e : Data}

/-! ## Windows inside their buffers -/

/-- The window of `d` lies inside its buffer. -/
def InBuffer (m : Mem) (d : Data) : Prop :=
  ∃ n b, d.impl.ptr.pObj = some n ∧ Slots.lookup m.impls n = some b ∧
    0 ≤ d.position ∧ 0 ≤ d.size ∧ d.position + d.size ≤ b.size

/-- A placed handle is a window as soon as it has a size. -/
theorem inBuffer_iff : d.InBuffer m ↔ d.Placed m ∧ 0 ≤ d.size := by
  constructor
  · rintro ⟨n, b, hn, hb, hpos, hsize, hend⟩
    exact ⟨⟨n, b, hn, hb, hpos, by omega, hend⟩, hsize⟩
  · rintro ⟨⟨n, b, hn, hb, hpos, -, hend⟩, hsize⟩
    exact ⟨n, b, hn, hb, hpos, hsize, hend⟩

/-- The buffer has not been deleted, and the strong count of its block is not zero. -/
structure Live (m : Mem) (d : Data) : Prop where
  buffer : (m.deref d.impl).isSome
  counted : d.impl.isTheOne m.heap = some true

/-- The reads and writes that the functions make through `d`, with `e` as the other operand,
are all inside the buffers: each function is defined. -/
structure Reaches (m : Mem) (d e : Data) : Prop where
  getByte : (d.getByte m).isSome
  compare : IsInt d.size → IsInt e.size → (d.compare e m).isSome
  fill : ∀ value, (d.fill value m).isSome
  copy : ∀ pos, (d.copy pos (some e) m).isSome
  copy_self : ∀ pos, (d.copy pos none m).isSome

/-- A window on a live buffer shows its bytes. -/
theorem InBuffer.shown (hd : d.InBuffer m) (hlive : d.Live m) : ∃ bs, shown m d = some bs := by
  obtain ⟨n, b, hn, hb, hpos, hsize, hend⟩ := hd
  obtain ⟨b', hderef⟩ := Option.isSome_iff_exists.mp hlive.buffer
  have halive := (Mem.alive_of_deref hderef hn).1
  exact ⟨_, (shown_eq hn halive hb hpos (by omega) hend).trans (if_pos hsize)⟩

/-- There is a byte for `getByte` to read, unless the handle is empty. -/
theorem getByte_isSome {bs : List Byte} (hd : Data.shown m d = some bs) :
    (d.getByte m).isSome := by
  have hlen := length_shown hd
  unfold getByte empty
  split
  · rfl
  · next hsize =>
      have hne : d.size ≠ 0 := by simpa using hsize
      obtain ⟨src, hsrc, htake⟩ := Option.bind_eq_some_iff.mp hd
      have hlong : 0 < src.length := by
        unfold bytesAt at htake
        split at htake
        · omega
        · cases htake
      obtain ⟨b, hb⟩ := Option.isSome_iff_exists.mp
        (List.isSome_head?.mpr (List.ne_nil_of_length_pos hlong))
      refine Option.isSome_iff_exists.mpr ⟨_, Eff.bind_ofReader_eq_some.mpr ⟨b, ?_, rfl⟩⟩
      rw [hsrc, Option.bind_some, hb]

/-- **What a window is good for.** -/
theorem InBuffer.reaches (hd : d.InBuffer m) (he : e.InBuffer m) (hlive : d.Live m)
    (hlive' : e.Live m) : d.Reaches m e := by
  obtain ⟨x, hx⟩ := hd.shown hlive
  obtain ⟨y, hy⟩ := he.shown hlive'
  refine ⟨getByte_isSome hx, fun hint hint' => ?_, fun value => fill_isSome hx hlive.counted value,
    fun pos => copy_isSome hx hy hlive.counted, fun pos => copy_isSome hx hx hlive.counted⟩
  obtain ⟨r, hr, -⟩ := compare_spec ⟨d, x, hx, hint⟩ ⟨e, y, hy, hint'⟩
  exact Option.isSome_iff_exists.mpr ⟨_, hr⟩

/-! ## The sizes of what the functions make -/

theorem yields_newImpl (size : ℤ) (raw : List Byte) :
    Yields (newImpl size raw) fun _ => 0 ≤ size :=
  fun m _ _ _ hrun p hp => ((safe_newImpl size raw m _ _ (Mem.Keeps.refl m) hrun).2 p hp).1

theorem yields_mkDefault : Yields mkDefault fun x => x.size = 0 := by
  unfold mkDefault
  exact Yields.after fun _ => Yields.pure rfl

theorem yields_mkSize (size : ℤ) (raw : List Byte) :
    Yields (mkSize size raw) fun x => 0 ≤ size ∧ x.size = size := by
  unfold mkSize
  exact Yields.bind (yields_newImpl size raw) fun _ hsize => Yields.pure ⟨hsize, rfl⟩

theorem yields_mkBytes (size : ℤ) (data : List Byte) :
    Yields (mkBytes size data) fun x => 0 ≤ size ∧ x.size = size := by
  unfold mkBytes
  exact Yields.bind (yields_newImpl size []) fun _ hsize =>
    Yields.after fun _ => Yields.pure ⟨hsize, rfl⟩

theorem yields_mkCopy (d : Data) : Yields (mkCopy d) (· = d) :=
  Yields.of_returns fun _ => returns_mkCopy d

theorem yields_assign (self d : Data) : Yields (self.assign d) (· = d) :=
  Yields.of_returns fun _ => returns_assign self d

/-- The position is checked, and the size is whatever is smaller. -/
theorem yields_mkSlice (d : Data) (pos si : ℤ) : Yields (mkSlice d pos si) fun x =>
    0 ≤ pos ∧ pos ≤ d.size ∧ x.size = min si (d.size - pos) := by
  unfold mkSlice checkPosition
  refine Yields.after fun impl => ?_
  by_cases hout : pos < 0 ∨ pos > d.size
  · rw [if_pos hout]
    exact Yields.after fun _ => Yields.throw
  · rw [if_neg hout]
    exact Yields.pure ⟨by omega, by omega, rfl⟩

/-- A slice at any other position is refused. -/
theorem returns_mkSlice_throws (d : Data) {pos : ℤ} (si : ℤ) (h : pos < 0 ∨ pos > d.size) :
    Returns m (mkSlice d pos si) (· = .error .outOfRange) := by
  unfold mkSlice checkPosition
  rw [if_pos h]
  exact Returns.bind_ok (Returns.onHeap fun _ _ _ h => SharedPtr.mkCopy_fst h)
    (Returns.bind_ok (returns_destroy d) (Returns.throw rfl))

theorem yields_getByte (d : Data) : Yields d.getByte fun r =>
    r.2.size = d.size ∨ d.size ≠ 0 ∧ r.2.size = d.size - 1 := by
  unfold getByte empty
  split
  · exact Yields.pure (Or.inl rfl)
  · next hsize =>
      exact Yields.after fun _ => Yields.pure (Or.inr ⟨by simpa using hsize, rfl⟩)

theorem yields_lock (d : Data) : Yields d.lock fun x => x.size = d.size := by
  unfold lock
  refine Yields.after fun one => ?_
  split
  · exact Yields.pure rfl
  · refine Yields.after fun bs => ?_
    exact Yields.bind (yields_mkBytes d.size bs) fun x hx =>
      Yields.after fun _ => Yields.pure hx.2

theorem yields_fill (d : Data) (value : ℤ) : Yields (d.fill value) fun x => x.size = d.size := by
  unfold fill
  exact Yields.bind (yields_lock d) fun x hx => Yields.after fun _ => Yields.pure hx

theorem yields_copy (d : Data) (pos : ℤ) (other : Option Data) :
    Yields (d.copy pos other) fun r => r.2.size = d.size := by
  unfold copy
  split
  · exact Yields.throw
  · exact Yields.bind (yields_lock d) fun x hx =>
      Yields.after fun _ => Yields.after fun _ => Yields.pure hx

theorem yields_stores (d : Data) (bs : List (ℕ × Byte)) :
    Yields (do let self ← d.lock; self.stores bs; return self : DataM Data)
      fun x => x.size = d.size :=
  Yields.bind (yields_lock d) fun _ hx => Yields.after fun _ => Yields.pure hx

end Data

namespace DataDeque

/-! ## The sizes of what a deque gives -/

theorem yields_write (q : DataDeque) (d : Data) :
    Yields (q.write d) fun q' => q'.mData = q.mData ++ [d] := by
  unfold write
  exact Yields.bind (Data.yields_mkCopy d) fun item hitem => Yields.pure (by rw [hitem])

theorem yields_readNothing (d : Data) : Yields (readNothing d) fun x => x.size = 0 := by
  unfold readNothing
  refine Yields.bind Data.yields_mkDefault fun temp htemp => ?_
  refine Yields.bind (Data.yields_assign d temp) fun x hx => ?_
  exact Yields.after fun _ => Yields.pure (hx ▸ htemp)

theorem yields_readFront (fr : Data) (rest : List Data) (size : ℤ) (d : Data) :
    Yields (readFront fr rest size d) fun r => r.1 = fr ∧ r.2.mData = rest := by
  unfold readFront
  exact Yields.bind (Data.yields_assign d fr) fun x hx =>
    Yields.after fun _ => Yields.pure ⟨hx, rfl⟩

variable {P : ℤ → Prop}

/-- `P` holds of the size of every chunk. -/
def Sizes (P : ℤ → Prop) (q : DataDeque) : Prop := ∀ c ∈ q.mData, P c.size

theorem yields_read {q : DataDeque} (d : Data) (hq : q.Sizes P) (hnothing : P 0) :
    Yields (q.read d) fun r => P r.1.size ∧ r.2.Sizes P := by
  unfold read
  split
  · exact Yields.bind (yields_readNothing d) fun x hx => Yields.pure ⟨hx ▸ hnothing, hq⟩
  · next fr rest heq =>
      have hfr : P fr.size := hq fr (by simp [heq])
      have hrest : ∀ c ∈ rest, P c.size := fun c hc => hq c (by simp [heq, hc])
      refine Triple.weaken (yields_readFront fr rest q.size d) (fun _ h => h) ?_
      intro r m h a ha
      obtain ⟨hx, hleft⟩ := h a ha
      exact ⟨hx ▸ hfr, fun c hc => hrest c (hleft ▸ hc)⟩

/-- A bounded read: the front chunk as it is, or its first part; that part is there even
where the second slice threw. -/
theorem yields_readMax {q : DataDeque} (d : Data) (maxSize : ℤ) (hq : q.Sizes P)
    (hnothing : P 0) (hpart : ∀ fr ∈ q.mData.head?, maxSize < fr.size → P (min maxSize fr.size))
    (hleft : ∀ fr ∈ q.mData.head?, 0 ≤ maxSize → maxSize < fr.size → P (fr.size - maxSize)) :
    Yields (q.readMax d maxSize) fun r => P r.1.size ∧ r.2.1.Sizes P := by
  unfold readMax
  split
  · exact Yields.bind (yields_readNothing d) fun x hx => Yields.pure ⟨hx ▸ hnothing, hq⟩
  · next fr rest heq =>
      have hfr : P fr.size := hq fr (by simp [heq])
      have hrest : ∀ c ∈ rest, P c.size := fun c hc => hq c (by simp [heq, hc])
      have hhead : fr ∈ q.mData.head? := by simp [heq]
      split
      · refine Yields.bind (yields_readFront fr rest q.size d) fun r hr => Yields.pure ?_
        exact ⟨hr.1 ▸ hfr, fun c hc => hrest c (hr.2 ▸ hc)⟩
      · next hcut =>
          have hlt : maxSize < fr.size := by omega
          refine Yields.bind (Data.yields_mkSlice fr 0 maxSize) fun temp htemp => ?_
          refine Yields.bind (Data.yields_assign d temp) fun x hx => Yields.after fun _ => ?_
          have hxsize : P x.size := by
            rw [hx, htemp.2.2, Int.sub_zero]
            exact hpart fr hhead hlt
          refine Yields.bind (Data.yields_mkSlice fr maxSize _).attempt fun r hr => ?_
          rcases r with e | temp'
          · exact Yields.pure ⟨hxsize, hq⟩
          · obtain ⟨hlo, -, hsize⟩ := hr temp' rfl
            rw [min_self] at hsize
            refine Yields.bind (Data.yields_assign fr temp') fun fr' hfr' =>
              Yields.after fun _ => Yields.pure ⟨hxsize, fun c hc => ?_⟩
            rcases List.mem_cons.mp hc with rfl | hc
            · rw [hfr', hsize]
              exact hleft fr hhead hlo hlt
            · exact hrest c hc

/-- **A negative bound**: the first slice is assigned, with a negative size, and the second
one throws. -/
theorem returns_readMax_negative {q : DataDeque} (d : Data) {maxSize : ℤ} (hneg : maxSize < 0)
    (hne : q.mData ≠ []) (hq : q.Sizes (0 ≤ ·)) (m : Mem) :
    Returns m (q.readMax d maxSize) fun r => ∃ x t, r = .ok (x, t) ∧ x.size < 0 := by
  unfold readMax
  split
  · next heq => exact absurd heq hne
  · next fr rest heq =>
      have hfr : 0 ≤ fr.size := hq fr (by simp [heq])
      rw [if_neg (by omega)]
      have hfst : Returns m (Data.mkSlice fr 0 maxSize) (· = .ok (fr.slice 0 maxSize)) :=
        (Data.returns_mkSlice fr 0 maxSize).weaken fun r hr => hr (Int.le_refl 0) hfr
      have hsize : (fr.slice 0 maxSize).size < 0 := by
        simp only [Data.slice]
        omega
      have hsnd : Returns m (Eff.attempt (Data.mkSlice fr maxSize (fr.size - maxSize)))
          fun r => ∃ r', r = .ok r' ∧ r' = .error .outOfRange :=
        (Data.returns_mkSlice_throws fr _ (Or.inl hneg)).attempt
      refine Returns.bind_ok hfst (Returns.bind_ok (Data.returns_assign d _)
        (Returns.bind_ok (Data.returns_destroy _) (Returns.bind hsnd ?_ fun r hr => ?_)))
      · rintro e ⟨_, he, -⟩
        cases he
      · obtain ⟨r', hr', rfl⟩ := hr
        obtain rfl := Except.ok.inj hr'
        exact Returns.pure ⟨_, _, rfl, hsize⟩

end DataDeque

/-- The sizes an operation can give to a handle that did not have them. -/
inductive DataOp.Makes (s : Program) : DataOp → ℤ → Prop
  | default : Makes s .mkDefault 0
  | size {size : ℤ} {raw : List Byte} (h : 0 ≤ size) : Makes s (.mkSize size raw) size
  | bytes {size : ℤ} {data : List Byte} (h : 0 ≤ size) : Makes s (.mkBytes size data) size
  | slice {r : ℕ} {pos si : ℤ} {d : Data} (hd : Slots.lookup s.vars r = some d) (hlo : 0 ≤ pos)
      (hhi : pos ≤ d.size) : Makes s (.mkSlice r pos si) (min si (d.size - pos))
  | byte {k : ℕ} {d : Data} (hd : Slots.lookup s.vars k = some d) (hne : d.size ≠ 0) :
      Makes s (.getByte k) (d.size - 1)
  | nothing {op : DataOp} {q d : ℕ} {bound : Option ℤ} (hread : op.Reads q d bound) : Makes s op 0
  | part {q d : ℕ} {maxSize : ℤ} {x : DataDeque} {fr : Data}
      (hx : Slots.lookup s.deques q = some x) (hfr : fr ∈ x.mData.head?)
      (hcut : maxSize < fr.size) : Makes s (.dequeReadMax q d maxSize) (min maxSize fr.size)
  | left {q d : ℕ} {maxSize : ℤ} {x : DataDeque} {fr : Data}
      (hx : Slots.lookup s.deques q = some x) (hfr : fr ∈ x.mData.head?) (hlo : 0 ≤ maxSize)
      (hcut : maxSize < fr.size) : Makes s (.dequeReadMax q d maxSize) (fr.size - maxSize)

namespace Program

/-! ## What an operation does to the sizes -/

/-- `P` holds of the size of every handle. -/
structure Sizes (P : ℤ → Prop) (s : Program) : Prop where
  vars : ∀ d, some d ∈ s.vars → P d.size
  deques : ∀ q, some q ∈ s.deques → q.Sizes P

variable {P : ℤ → Prop} {s s' : Program}

namespace Sizes

theorem init : Sizes P Program.init := ⟨by simp [Program.init], by simp [Program.init]⟩

theorem var (h : s.Sizes P) {k : ℕ} {d : Data} (hd : Slots.lookup s.vars k = some d) : P d.size :=
  h.vars d (Slots.mem_of_lookup hd)

theorem deque (h : s.Sizes P) {k : ℕ} {q : DataDeque} (hq : Slots.lookup s.deques k = some q) :
    q.Sizes P :=
  h.deques q (Slots.mem_of_lookup hq)

theorem handle (h : s.Sizes P) {r : Handle} {d : Data} (hd : s.handle r = some d) : P d.size := by
  cases r with
  | var k => exact h.var hd
  | elem k i =>
      obtain ⟨q, hq, hi⟩ := Option.bind_eq_some_iff.mp hd
      exact h.deque hq d (List.mem_of_getElem? hi)

theorem put_var (h : s.Sizes P) (k : ℕ) {d : Data} (hd : P d.size) :
    Sizes P { s with vars := Slots.put s.vars k d } :=
  ⟨Slots.forall_put hd h.vars, h.deques⟩

theorem put_deque (h : s.Sizes P) (k : ℕ) {q : DataDeque} (hq : q.Sizes P) :
    Sizes P { s with deques := Slots.put s.deques k q } :=
  ⟨h.vars, Slots.forall_put hq h.deques⟩

/-- After a computation: an exception leaves the handles as they were. -/
theorem run {α : Type} {x : DataM α} {good : α → Prop} {k : α → Program → Program}
    (h : s.Sizes P) (hx : Yields x good) (hrun : s.run x k = some s')
    (hk : ∀ a m, Sizes P { s with mem := m } → good a → Sizes P (k a { s with mem := m })) :
    s'.Sizes P := by
  obtain ⟨r, m, hres, ⟨a, rfl, rfl⟩ | rfl⟩ := run_cases hrun
  · exact hk a m ⟨h.vars, h.deques⟩ (hx s.mem _ m trivial hres a rfl)
  · exact ⟨h.vars, h.deques⟩

theorem declare {x : DataM Data} {good : Data → Prop} (h : s.Sizes P) (hx : Yields x good)
    (hrun : s.declare x = some s') (hgood : ∀ d, good d → P d.size) : s'.Sizes P :=
  h.run hx hrun fun d _ hs hd => ⟨Slots.forall_insert (hgood d hd) hs.vars, hs.deques⟩

end Sizes

/-- **One operation**: where the sizes that it can make satisfy `P`, all sizes still do. -/
theorem sizes_step {op : DataOp} (h : s.Sizes P) (hstep : s.step op = some s')
    (hmakes : ∀ n, op.Makes s n → P n) : s'.Sizes P := by
  cases op with
  | mkDefault => exact h.declare Data.yields_mkDefault hstep fun d hd => hd ▸ hmakes 0 .default
  | mkSize size raw =>
      exact h.declare (Data.yields_mkSize size raw) hstep fun d hd =>
        hd.2 ▸ hmakes size (.size hd.1)
  | mkBytes size data =>
      exact h.declare (Data.yields_mkBytes size data) hstep fun d hd =>
        hd.2 ▸ hmakes size (.bytes hd.1)
  | mkCopy r =>
      obtain ⟨e, he, hrun⟩ := Option.bind_eq_some_iff.mp hstep
      exact h.declare (Data.yields_mkCopy e) hrun fun d hd => hd ▸ h.var he
  | mkSlice r pos si =>
      obtain ⟨e, he, hrun⟩ := Option.bind_eq_some_iff.mp hstep
      refine h.declare (Data.yields_mkSlice e pos si) hrun fun d hd => ?_
      rw [hd.2.2]
      exact hmakes _ (.slice he hd.1 hd.2.1)
  | assign l r =>
      obtain ⟨self, -, hrest⟩ := Option.bind_eq_some_iff.mp hstep
      obtain ⟨e, he, hrun⟩ := Option.bind_eq_some_iff.mp hrest
      exact h.run (Data.yields_assign self e) hrun fun d _ hs hd =>
        hs.put_var l (hd ▸ h.var he)
  | swap a b =>
      obtain ⟨x, hx, hrest⟩ := Option.bind_eq_some_iff.mp hstep
      obtain ⟨y, hy, heq⟩ := Option.bind_eq_some_iff.mp hrest
      obtain rfl := Option.some.inj heq
      exact (h.put_var a (h.var hy)).put_var b (h.var hx)
  | destroy d =>
      obtain ⟨self, -, hrun⟩ := Option.bind_eq_some_iff.mp hstep
      exact h.run (Yields.any _) hrun fun _ _ hs _ =>
        ⟨Slots.forall_remove hs.vars, hs.deques⟩
  | getByte d =>
      obtain ⟨self, hself, hrun⟩ := Option.bind_eq_some_iff.mp hstep
      refine h.run (Data.yields_getByte self) hrun fun r _ hs hr => hs.put_var d ?_
      rcases hr with hr | ⟨hne, hr⟩
      · exact hr ▸ h.var hself
      · rw [hr]
        exact hmakes _ (.byte hself hne)
  | fill d value =>
      obtain ⟨self, hself, hrun⟩ := Option.bind_eq_some_iff.mp hstep
      exact h.run (Data.yields_fill self value) hrun fun x _ hs hx =>
        hs.put_var d (hx ▸ h.var hself)
  | copy d pos other =>
      obtain ⟨self, hself, hrest⟩ := Option.bind_eq_some_iff.mp hstep
      obtain ⟨arg, -, hrun⟩ := Option.bind_eq_some_iff.mp hrest
      exact h.run (Data.yields_copy self pos _) hrun fun r _ hs hr =>
        hs.put_var d (hr ▸ h.var hself)
  | stores d bs =>
      obtain ⟨self, hself, hrun⟩ := Option.bind_eq_some_iff.mp hstep
      split at hrun
      · exact h.run (Data.yields_stores self bs) hrun fun x _ hs hx =>
          hs.put_var d (hx ▸ h.var hself)
      · cases hrun
  | dequeNew =>
      obtain rfl := Option.some.inj hstep
      exact ⟨h.vars, Slots.forall_insert (by simp [DataDeque.Sizes, DataDeque.mkDefault])
        h.deques⟩
  | dequeWrite q d =>
      obtain ⟨self, hself, hrest⟩ := Option.bind_eq_some_iff.mp hstep
      obtain ⟨e, he, hrun⟩ := Option.bind_eq_some_iff.mp hrest
      refine h.run (DataDeque.yields_write self e) hrun fun x _ hs hx => hs.put_deque q ?_
      intro c hc
      rcases List.mem_append.mp (hx ▸ hc) with hc | hc
      · exact h.deque hself c hc
      · exact List.mem_singleton.mp hc ▸ h.var he
  | dequeRead q d =>
      obtain ⟨self, hself, hrest⟩ := Option.bind_eq_some_iff.mp hstep
      obtain ⟨e, -, hrun⟩ := Option.bind_eq_some_iff.mp hrest
      exact h.run (DataDeque.yields_read e (h.deque hself) (hmakes 0 (.nothing .read))) hrun
        fun _ _ hs hx => (hs.put_var d hx.1).put_deque q hx.2
  | dequeReadMax q d maxSize =>
      obtain ⟨self, hself, hrest⟩ := Option.bind_eq_some_iff.mp hstep
      obtain ⟨e, -, hrun⟩ := Option.bind_eq_some_iff.mp hrest
      exact h.run (DataDeque.yields_readMax e maxSize (h.deque hself)
          (hmakes 0 (.nothing (.readMax maxSize)))
          (fun _ hfr hcut => hmakes _ (.part hself hfr hcut))
          fun _ hfr hlo hcut => hmakes _ (.left hself hfr hlo hcut)) hrun
        fun _ _ hs hx => (hs.put_var d hx.1).put_deque q hx.2
  | dequeDestroy q =>
      obtain ⟨self, -, hrun⟩ := Option.bind_eq_some_iff.mp hstep
      exact h.run (Yields.any _) hrun fun _ _ hs _ =>
        ⟨hs.vars, Slots.forall_remove hs.deques⟩

/-! ## Whole runs -/

/-- Every window of the program lies inside its buffer, so what is read and written through
any of them is inside the buffers too. -/
structure Confined (s : Program) : Prop where
  windows : ∀ r d, s.handle r = some d → d.InBuffer s.mem
  reaches : ∀ r r' d e, s.handle r = some d → s.handle r' = some e → d.Live s.mem →
    e.Live s.mem → d.Reaches s.mem e

/-- The operation asks for a negative number of bytes where only the position is checked: a
slice at a position inside the window, or a bounded read from a deque that is not empty. -/
def Oversteps (s : Program) : DataOp → Prop
  | .mkSlice r pos si => si < 0 ∧ ∃ d ∈ Slots.lookup s.vars r, 0 ≤ pos ∧ pos ≤ d.size
  | .dequeReadMax q _ maxSize => maxSize < 0 ∧ ∃ x ∈ Slots.lookup s.deques q, x.mData ≠ []
  | _ => False

instance (s : Program) : (op : DataOp) → Decidable (s.Oversteps op)
  | .mkSlice .. | .dequeReadMax .. => inferInstanceAs (Decidable (_ ∧ _))
  | .mkDefault | .mkSize .. | .mkBytes .. | .mkCopy _ | .assign .. | .swap .. | .destroy _
  | .getByte _ | .fill .. | .copy .. | .stores .. | .dequeNew | .dequeWrite .. | .dequeRead ..
  | .dequeDestroy _ => inferInstanceAs (Decidable False)

/-- The windows of a program without negative sizes. -/
theorem Confined.of_sizes (hplaced : s.Placed) (hsizes : s.Sizes (0 ≤ ·)) : s.Confined := by
  have hin : ∀ r d, s.handle r = some d → d.InBuffer s.mem := fun r d hd =>
    Data.inBuffer_iff.mpr ⟨hplaced.handle hd, hsizes.handle hd⟩
  exact ⟨hin, fun r r' d e hd he => (hin r d hd).reaches (hin r' e he)⟩

/-- An operation that does not overstep makes no negative size. -/
theorem nonneg_of_makes {op : DataOp} (h : s.Sizes (0 ≤ ·)) (hgood : ¬ s.Oversteps op) {n : ℤ}
    (hmakes : op.Makes s n) : 0 ≤ n := by
  cases hmakes with
  | default => exact Int.le_refl 0
  | size hsize => exact hsize
  | bytes hsize => exact hsize
  | @slice r pos si d hd hlo hhi =>
      have hsi : ¬ si < 0 := fun hneg => hgood ⟨hneg, d, hd, hlo, hhi⟩
      omega
  | @byte k d hd hne =>
      have hsize : 0 ≤ d.size := h.var hd
      omega
  | nothing => exact Int.le_refl 0
  | @part q d maxSize x fr hx hfr hcut =>
      have hsize : 0 ≤ fr.size := h.deque hx fr (List.mem_of_mem_head? hfr)
      have hmax : ¬ maxSize < 0 := fun hneg =>
        hgood ⟨hneg, x, hx, List.ne_nil_of_mem (List.mem_of_mem_head? hfr)⟩
      omega
  | left => omega

/-- **An operation that oversteps** leaves a handle with a negative size. -/
theorem exists_negative {op : DataOp} (h : s.Sizes (0 ≤ ·)) (hbad : s.Oversteps op)
    (hstep : s.step op = some s') : ∃ r d, s'.handle r = some d ∧ d.size < 0 := by
  cases op with
  | mkSlice r pos si =>
      obtain ⟨hneg, d, hd, hlo, hhi⟩ := hbad
      obtain ⟨d', hd', hrun⟩ := Option.bind_eq_some_iff.mp hstep
      obtain rfl : d = d' := Option.some.inj ((Option.mem_def.mp hd).symm.trans hd')
      obtain ⟨m, -, ⟨x, hx, rfl⟩ | ⟨⟨e, he⟩, -⟩⟩ := run_returns (Data.returns_mkSlice d pos si) hrun
      · obtain rfl := Except.ok.inj (hx hlo hhi)
        refine ⟨.var s.vars.length, _, Slots.lookup_insert_self _ _, ?_⟩
        simp only [Data.slice]
        omega
      · cases he hlo hhi
  | dequeReadMax q d maxSize =>
      obtain ⟨hneg, x, hx, hne⟩ := hbad
      obtain ⟨self, hself, hrest⟩ := Option.bind_eq_some_iff.mp hstep
      obtain ⟨e, he, hrun⟩ := Option.bind_eq_some_iff.mp hrest
      obtain rfl : x = self := Option.some.inj ((Option.mem_def.mp hx).symm.trans hself)
      have hreads := DataDeque.returns_readMax_negative e hneg hne (h.deque hself)
      obtain ⟨m, -, ⟨_, ⟨y, t, heq, hy⟩, rfl⟩ | ⟨⟨_, _, _, heq, -⟩, -⟩⟩ :=
        run_returns (hreads s.mem) hrun
      · obtain rfl := Except.ok.inj heq
        exact ⟨.var d, y, Slots.lookup_put_self _ he, hy⟩
      · cases heq
  | mkDefault | mkSize | mkBytes | mkCopy | assign | swap | destroy | getByte | fill | copy
  | stores | dequeNew | dequeWrite | dequeRead | dequeDestroy => exact hbad.elim

/-- **Windows stay inside their buffers**, in every state of a run, exactly when no operation
of the run oversteps. -/
theorem confined_iff {tr : List (Program × DataOp)}
    (hrun : Machine.Run (Machine.Fires step) Program.init tr s) :
    (∀ x ∈ Machine.visited tr s, x.Confined) ↔ ∀ p ∈ tr, ¬ p.1.Oversteps p.2 := by
  have keep : ∀ s op t, s.Placed ∧ s.Sizes (0 ≤ ·) → Machine.Fires step s op t →
      ¬ s.Oversteps op → t.Placed ∧ t.Sizes (0 ≤ ·) := by
    rintro s op t ⟨hplaced, hsizes⟩ hstep hgood
    exact ⟨hplaced.step hstep, sizes_step hsizes hstep fun n => nonneg_of_makes hsizes hgood⟩
  have blame : ∀ s op t, s.Placed ∧ s.Sizes (0 ≤ ·) → Machine.Fires step s op t →
      ¬ ¬ s.Oversteps op → ¬ t.Confined := by
    rintro s op t ⟨-, hsizes⟩ hstep hbad hconfined
    obtain ⟨r, d, hd, hneg⟩ := exists_negative hsizes (not_not.mp hbad) hstep
    obtain ⟨-, -, -, -, -, hsize, -⟩ := hconfined.windows r d hd
    omega
  exact hrun.visited_iff_good keep blame (fun s h => Confined.of_sizes h.1 h.2)
    ⟨Placed.init, Sizes.init⟩

/-- A slice that asks for more than there is, one at a position outside, a read of two bytes
and one from an empty deque: some of them throw, and all windows stay inside. -/
theorem confined_iff_example : ∃ tr s, Machine.Run (Machine.Fires step) Program.init tr s ∧
    Machine.actions tr = [.mkBytes 4 [1, 2, 3, 4], .mkSlice 0 1 9, .mkSlice 0 5 1, .mkSize (-1) [],
      .dequeNew, .dequeWrite 0 1, .dequeReadMax 0 0 2, .fill 1 7, .getByte 1, .dequeRead 0 0,
      .dequeReadMax 0 1 (-1)] ∧
    ∀ x ∈ Machine.visited tr s, x.Confined := by
  let acts : List DataOp := [.mkBytes 4 [1, 2, 3, 4], .mkSlice 0 1 9, .mkSlice 0 5 1,
    .mkSize (-1) [], .dequeNew, .dequeWrite 0 1, .dequeReadMax 0 0 2, .fill 1 7, .getByte 1,
    .dequeRead 0 0, .dequeReadMax 0 1 (-1)]
  let s := (Machine.exec step Program.init acts).get (by decide)
  have hs : Machine.exec step Program.init acts = some s := (Option.some_get _).symm
  obtain ⟨hrun, hacts⟩ := Machine.exec_trace _ _ _ _ hs
  exact ⟨_, s, hrun, hacts, (confined_iff hrun).mpr (by decide)⟩

/-- A slice of minus one byte, and a read of minus two bytes that throws: both leave a handle
with a negative size. -/
theorem negative_windows :
    (∃ tr s, Machine.Run (Machine.Fires step) Program.init tr s ∧
      Machine.actions tr = [.mkBytes 3 [1, 2, 3], .mkSlice 0 1 (-1)] ∧
      (s.handle (.var 1)).map Data.size = some (-1) ∧ ¬ s.Confined) ∧
    (∃ tr s, Machine.Run (Machine.Fires step) Program.init tr s ∧
      Machine.actions tr = [.mkBytes 3 [1, 2, 3], .dequeNew, .dequeWrite 0 0, .mkDefault,
        .dequeReadMax 0 1 (-2)] ∧
      (s.handle (.var 1)).map Data.size = some (-2) ∧ ¬ s.Confined) := by
  have hsize : ∀ (s : Program) (n : ℤ), (s.handle (.var 1)).map Data.size = some n → n < 0 →
      ¬ s.Confined := by
    intro s n hn hneg hconfined
    obtain ⟨d, hd, rfl⟩ := Option.map_eq_some_iff.mp hn
    obtain ⟨-, -, -, -, -, hnonneg, -⟩ := hconfined.windows _ d hd
    omega
  constructor
  · let acts : List DataOp := [.mkBytes 3 [1, 2, 3], .mkSlice 0 1 (-1)]
    let s := (Machine.exec step Program.init acts).get (by decide)
    have hs : Machine.exec step Program.init acts = some s := (Option.some_get _).symm
    obtain ⟨hrun, hacts⟩ := Machine.exec_trace _ _ _ _ hs
    exact ⟨_, s, hrun, hacts, by decide, hsize s (-1) (by decide) (by decide)⟩
  · let acts : List DataOp := [.mkBytes 3 [1, 2, 3], .dequeNew, .dequeWrite 0 0, .mkDefault,
      .dequeReadMax 0 1 (-2)]
    let s := (Machine.exec step Program.init acts).get (by decide)
    have hs : Machine.exec step Program.init acts = some s := (Option.some_get _).symm
    obtain ⟨hrun, hacts⟩ := Machine.exec_trace _ _ _ _ hs
    exact ⟨_, s, hrun, hacts, by decide, hsize s (-2) (by decide) (by decide)⟩

end Program

end Craplib
