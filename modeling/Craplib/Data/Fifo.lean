import Mathlib.Algebra.BigOperators.Group.List.Basic
import Mathlib.Algebra.Ring.Int.Defs
import Craplib.Data.Isolation

/-!
# `DataDeque` is a lossless queue of bytes

What `read` returns, followed by the chunks still stored, is what was written, in
order, for any mix of `write` and the two forms of `read` (`lossless`).  A bounded
read can cut the front chunk in two slices of one buffer, at any offset and as often
as it likes; `content_slice` says that nothing is lost at the cut.

`Returns m x good` is the form of the lemma each function gets here: `x` leaves every
buffer of `m` as it was, and its result, an exception included, is `good`.
-/

namespace Craplib

open Memory Effects

/-! ## Buffers that nobody writes -/

/-- Every buffer of `m` is in `m'`, with the same bytes. -/
def Mem.Intact (m m' : Mem) : Prop :=
  ∀ n b, Slots.lookup m.impls n = some b → Slots.lookup m'.impls n = some b

namespace Mem.Intact

variable {m m' m'' : Mem}

theorem refl (m : Mem) : m.Intact m := fun _ _ hb => hb

theorem trans (h : m.Intact m') (h' : m'.Intact m'') : m.Intact m'' :=
  fun n b hb => h' n b (h n b hb)

theorem keeps (h : m.Intact m') : m.Keeps m' := fun n b hb => ⟨b, h n b hb, rfl⟩

theorem of_untouched (h : Untouched m.impls.length m m') : m.Intact m' :=
  fun n _ hb => (h.2 n (Slots.lookup_lt hb)).trans hb

end Mem.Intact

/-- From memory with the buffers of `m`, `x` leaves memory with the same buffers, and
ends with a result that is `good`. -/
def Returns (m : Mem) {α : Type} (x : DataM α) (good : Except Thrown α → Prop) : Prop :=
  Triple m.Intact x fun r m' => m.Intact m' ∧ good r

namespace Returns

variable {m : Mem} {α β : Type}

theorem pure {a : α} {good : Except Thrown α → Prop} (h : good (.ok a)) :
    Returns m (Pure.pure a) good :=
  Triple.pure fun _ hm => ⟨hm, h⟩

theorem throw {e : Thrown} {good : Except Thrown α → Prop} (h : good (.error e)) :
    Returns m (Eff.throw e) good :=
  Triple.throw fun _ hm => ⟨hm, h⟩

/-- Sequencing, after a first part that may throw. -/
theorem bind {x : DataM α} {f : α → DataM β} {mid : Except Thrown α → Prop}
    {good : Except Thrown β → Prop} (hx : Returns m x mid)
    (hthrow : ∀ e, mid (.error e) → good (.error e))
    (hf : ∀ a, mid (.ok a) → Returns m (f a) good) : Returns m (x >>= f) good := by
  refine Triple.bind hx (fun e _ h => ⟨h.1, hthrow e h.2⟩) fun a => ?_
  intro s r t hs hrun
  exact hf a hs.2 s r t hs.1 hrun

/-- Sequencing, after a first part that returns `a`. -/
theorem bind_ok {x : DataM α} {f : α → DataM β} {a : α} {good : Except Thrown β → Prop}
    (hx : Returns m x (· = .ok a)) (hf : Returns m (f a) good) : Returns m (x >>= f) good := by
  refine bind hx (fun e he => by simp at he) fun b hb => ?_
  obtain rfl := Except.ok.inj hb
  exact hf

theorem weaken {x : DataM α} {good good' : Except Thrown α → Prop} (h : Returns m x good)
    (hg : ∀ r, good r → good' r) : Returns m x good' :=
  Triple.weaken h (fun _ h => h) fun r _ hr => ⟨hr.1, hg r hr.2⟩

theorem attempt {x : DataM α} {good : Except Thrown α → Prop} (h : Returns m x good) :
    Returns m (Eff.attempt x) fun r => ∃ r', r = .ok r' ∧ good r' := by
  refine Triple.weaken (Triple.attempt h) (fun _ h => h) ?_
  rintro r m' ⟨r', rfl, hm, hgood⟩
  exact ⟨hm, r', rfl, hgood⟩

theorem attempt_ok {x : DataM α} {a : α} (h : Returns m x (· = .ok a)) :
    Returns m (Eff.attempt x) (· = .ok (.ok a)) := by
  refine h.attempt.weaken fun r hr => ?_
  obtain ⟨r', rfl, rfl⟩ := hr
  rfl

theorem ofReader {f : Mem → Option α} : Returns m (.ofReader f) fun _ => True :=
  Triple.ofReader fun _ _ hm _ => ⟨hm, trivial⟩

/-- The pointer layer does not touch the buffers. -/
theorem onHeap {f : Heap → Option (α × Heap)} {a : α}
    (h : ∀ hp b hp', f hp = some (b, hp') → b = a) :
    Returns m (Craplib.onHeap f) (· = .ok a) := by
  refine Triple.ofState fun s b t hs hf => ?_
  obtain ⟨⟨b', h'⟩, hf', heq⟩ := Option.map_eq_some_iff.mp hf
  obtain ⟨rfl, rfl⟩ := Prod.mk.inj heq
  exact ⟨hs, congrArg Except.ok (h _ _ _ hf')⟩

end Returns

namespace Data

variable {m m' : Mem} {d : Data}

/-! ## What the functions of `Data` return -/

theorem returns_newImpl (size : ℤ) (raw : List Byte) :
    Returns m (newImpl size raw) fun r => 0 ≤ size → ∃ p, r = .ok p := by
  intro s r t hs hrun
  rcases newImpl_cases hrun with ⟨e, rfl, rfl⟩ | ⟨p, rfl, -, hsame, -⟩
  · refine ⟨hs, fun hsize => ?_⟩
    unfold newImpl Impl.make at hrun
    rw [dif_pos hsize] at hrun
    obtain ⟨p, -, hp⟩ := Eff.ofState_eq_some.mp hrun
    simp at hp
  · exact ⟨hs.trans (.of_untouched hsame), fun _ => ⟨p, rfl⟩⟩

theorem returns_mkDefault :
    Returns m mkDefault fun r => ∃ x : Data, r = .ok x ∧ x.size = 0 := by
  unfold mkDefault
  refine Returns.bind (returns_newImpl 0 []) (fun e he => ?_) fun p _ =>
    Returns.pure ⟨_, rfl, rfl⟩
  obtain ⟨p, hp⟩ := he (Int.le_refl 0)
  simp at hp

theorem returns_mkSize (size : ℤ) (raw : List Byte) :
    Returns m (mkSize size raw) fun _ => True := by
  unfold mkSize
  exact Returns.bind (returns_newImpl size raw) (fun _ _ => trivial) fun _ _ =>
    Returns.pure trivial

theorem returns_mkBytes (size : ℤ) (data : List Byte) :
    Returns m (mkBytes size data) fun _ => True := by
  intro s r t hs hrun
  rcases mkBytes_cases hrun with ⟨e, -, rfl⟩ | ⟨x, -, -, hsame, -⟩
  · exact ⟨hs, trivial⟩
  · exact ⟨hs.trans (.of_untouched hsame), trivial⟩

theorem returns_mkCopy (d : Data) : Returns m (mkCopy d) (· = .ok d) := by
  unfold mkCopy
  exact Returns.bind_ok (Returns.onHeap fun _ _ _ h => SharedPtr.mkCopy_fst h)
    (Returns.pure rfl)

theorem returns_destroy (d : Data) : Returns m d.destroy (· = .ok ()) :=
  Returns.onHeap fun _ _ _ _ => rfl

theorem returns_assign (self d : Data) : Returns m (self.assign d) (· = .ok d) := by
  unfold assign
  exact Returns.bind_ok (returns_mkCopy d) (Returns.bind_ok (returns_destroy self)
    (Returns.pure rfl))

/-- `Data(d, pos, si)`, at a position inside the window. -/
def slice (d : Data) (pos si : ℤ) : Data := ⟨d.impl, d.position + pos, min si (d.size - pos)⟩

theorem returns_mkSlice (d : Data) (pos si : ℤ) :
    Returns m (mkSlice d pos si) fun r => 0 ≤ pos → pos ≤ d.size → r = .ok (d.slice pos si) := by
  unfold mkSlice
  refine Returns.bind_ok (Returns.onHeap fun _ _ _ h => SharedPtr.mkCopy_fst h) ?_
  unfold checkPosition
  by_cases hout : pos < 0 ∨ pos > d.size
  · rw [if_pos hout]
    refine Returns.bind_ok (returns_destroy d) (Returns.throw fun hlo hhi => ?_)
    omega
  · rw [if_neg hout]
    exact Returns.pure fun _ _ => rfl

theorem returns_getByte (d : Data) : Returns m d.getByte fun _ => True := by
  unfold getByte
  split
  · exact Returns.pure trivial
  · exact Returns.bind Returns.ofReader (fun _ _ => trivial) fun _ _ => Returns.pure trivial

/-! ## The bytes of a window -/

/-- The bytes of the window, whether the buffer is alive or not. -/
def content (m : Mem) (d : Data) : List Byte :=
  (d.impl.ptr.pObj.bind (Slots.lookup m.impls)).elim [] fun b =>
    (b.data.drop d.position.toNat).take d.size.toNat

theorem content_eq {n : ℕ} {b : Impl} (hn : d.impl.ptr.pObj = some n)
    (hb : Slots.lookup m.impls n = some b) :
    content m d = (b.data.drop d.position.toNat).take d.size.toNat := by
  rw [content, hn, Option.bind_some, hb, Option.elim_some]

theorem content_of_size_zero (h : d.size = 0) : content m d = [] := by
  unfold content
  rw [h]
  cases d.impl.ptr.pObj.bind (Slots.lookup m.impls) <;> rfl

theorem content_of_intact (hd : d.Placed m) (h : m.Intact m') : content m' d = content m d := by
  obtain ⟨n, b, hn, hb, -⟩ := hd
  rw [content_eq hn hb, content_eq hn (h n b hb)]

/-- A write in place through a handle of another buffer. -/
theorem content_of_wrote {e : Data} {plan : ℕ → Option Byte} (hd : d.Placed m)
    (h : e.Wrote plan m m') (hne : d.impl.ptr.pObj ≠ e.impl.ptr.pObj) :
    content m' d = content m d := by
  rcases h with ⟨rfl, -⟩ | ⟨-, hstamp⟩ | ⟨-, hsame⟩
  · rfl
  · obtain ⟨n, b, b', hn, -, -, -, -, rfl⟩ := hstamp
    obtain ⟨n', c, hn', hc, -⟩ := hd
    have hother : n' ≠ n := fun heq => hne (by rw [hn', hn, heq])
    rw [content_eq hn' hc, content_eq hn' ((Slots.lookup_put_ne b' hother).trans hc)]
  · exact content_of_intact hd (.of_untouched hsame)

/-- A placed window has as many bytes as its size says. -/
theorem length_content (hd : d.Placed m) : (content m d).length = d.size.toNat := by
  obtain ⟨n, b, hn, hb, hpos, hle, hend⟩ := hd
  have hsize := b.size_eq
  rw [content_eq hn hb, List.length_take, List.length_drop]
  omega

theorem Placed.slice (hd : d.Placed m) {pos : ℤ} (si : ℤ) (hlo : 0 ≤ pos) (hhi : pos ≤ d.size) :
    (d.slice pos si).Placed m := by
  obtain ⟨n, b, hn, hb, hpos, hle, hend⟩ := hd
  refine ⟨n, b, hn, hb, ?_, ?_, ?_⟩ <;> simp only [Data.slice] <;> omega

/-- Nothing is lost where a window is cut in two. -/
theorem content_slice (hd : d.Placed m) {cut : ℤ} (hlo : 0 ≤ cut) (hhi : cut ≤ d.size) :
    content m (d.slice 0 cut) ++ content m (d.slice cut (d.size - cut)) = content m d := by
  obtain ⟨n, b, hn, hb, hpos, hle, hend⟩ := hd
  have hfst : content m (d.slice 0 cut) = (b.data.drop d.position.toNat).take cut.toNat := by
    rw [content_eq (d := d.slice 0 cut) hn hb]
    simp only [Data.slice, Int.add_zero, Int.sub_zero, Int.min_eq_left hhi]
  have hsnd : content m (d.slice cut (d.size - cut)) =
      ((b.data.drop d.position.toNat).drop cut.toNat).take (d.size - cut).toNat := by
    rw [content_eq (d := d.slice cut (d.size - cut)) hn hb, List.drop_drop]
    simp only [Data.slice, Int.min_eq_left (Int.le_refl _)]
    rw [Int.toNat_add hpos hlo]
  have hsum : d.size.toNat = cut.toNat + (d.size - cut).toNat := by omega
  rw [hfst, hsnd, content_eq hn hb, hsum, List.take_add]

end Data

namespace DataDeque

variable {m m' : Mem} {q q' : DataDeque}

/-! ## The bytes of a deque -/

/-- The stored chunks, one after the other. -/
def bytes (m : Mem) (q : DataDeque) : List Byte := q.mData.flatMap (Data.content m)

/-- Every chunk is a window with a size, and the counter of the deque is exact. -/
structure Valid (m : Mem) (q : DataDeque) : Prop where
  placed : q.Placed m
  nonneg : ∀ d ∈ q.mData, 0 ≤ d.size
  total : q.size = (q.mData.map Data.size).sum

theorem bytes_congr (h : ∀ d ∈ q.mData, Data.content m' d = Data.content m d) :
    q.bytes m' = q.bytes m := by
  unfold bytes
  rw [List.flatMap_def, List.flatMap_def, List.map_congr_left h]

theorem bytes_of_intact (hq : q.Placed m) (h : m.Intact m') : q.bytes m' = q.bytes m :=
  bytes_congr fun d hd => Data.content_of_intact (hq d hd) h

theorem Valid.mkDefault : mkDefault.Valid m :=
  ⟨by simp [Placed, DataDeque.mkDefault], by simp [DataDeque.mkDefault], rfl⟩

theorem Valid.mono (h : q.Valid m) (hm : m.Keeps m') : q.Valid m' :=
  ⟨h.placed.mono hm, h.nonneg, h.total⟩

/-- **A write** puts the bytes of the chunk behind the others. -/
theorem Valid.write (h : q.Valid m) {d : Data} (hd : d.Placed m) (hsize : 0 ≤ d.size) :
    (⟨q.mData ++ [d], q.size + d.size⟩ : DataDeque).Valid m ∧
      bytes m ⟨q.mData ++ [d], q.size + d.size⟩ = q.bytes m ++ d.content m := by
  refine ⟨⟨fun x hx => ?_, fun x hx => ?_, ?_⟩, ?_⟩
  · rcases List.mem_append.mp hx with hx | hx
    · exact h.placed x hx
    · exact List.mem_singleton.mp hx ▸ hd
  · rcases List.mem_append.mp hx with hx | hx
    · exact h.nonneg x hx
    · exact List.mem_singleton.mp hx ▸ hsize
  · simp [h.total]
  · simp [bytes]

/-- The bytes of `x` were taken from the front of `q`, and `q'` was left. -/
structure Took (m : Mem) (q : DataDeque) (x : Data) (q' : DataDeque) : Prop where
  valid : q'.Valid m
  bytes : x.content m ++ q'.bytes m = q.bytes m
  front : x.Placed m ∨ x.size = 0

/-- The deque is empty, and what is read is empty. -/
theorem Took.nothing (h : q.Valid m) {x : Data} (hx : x.size = 0) : q.Took m x q :=
  ⟨h, by rw [Data.content_of_size_zero hx, List.nil_append], Or.inr hx⟩

/-- The front chunk is taken as it is. -/
theorem Took.whole {fr : Data} {rest : List Data} (h : q.Valid m) (hq : q.mData = fr :: rest) :
    q.Took m fr ⟨rest, q.size - fr.size⟩ := by
  have hmem : ∀ d ∈ rest, d ∈ q.mData := fun d hd => hq ▸ List.mem_cons_of_mem fr hd
  refine ⟨⟨fun d hd => h.placed d (hmem d hd), fun d hd => h.nonneg d (hmem d hd), ?_⟩, ?_,
    Or.inl (h.placed fr (hq ▸ List.mem_cons_self))⟩
  · simp only [h.total, hq, List.map_cons, List.sum_cons]
    omega
  · simp [DataDeque.bytes, hq]

/-- The front chunk is cut, and its first part taken. -/
theorem Took.part {fr : Data} {rest : List Data} (h : q.Valid m) (hq : q.mData = fr :: rest)
    {cut : ℤ} (hlo : 0 ≤ cut) (hhi : cut ≤ fr.size) :
    q.Took m (fr.slice 0 cut) ⟨fr.slice cut (fr.size - cut) :: rest, q.size - cut⟩ := by
  have hfr : fr.Placed m := h.placed fr (hq ▸ List.mem_cons_self)
  have hmem : ∀ d ∈ rest, d ∈ q.mData := fun d hd => hq ▸ List.mem_cons_of_mem fr hd
  have hrest : (fr.slice cut (fr.size - cut)).size = fr.size - cut :=
    Int.min_eq_left (Int.le_refl _)
  refine ⟨⟨fun d hd => ?_, fun d hd => ?_, ?_⟩, ?_,
    Or.inl (hfr.slice cut (Int.le_refl 0) (Int.le_trans hlo hhi))⟩
  · rcases List.mem_cons.mp hd with rfl | hd
    · exact hfr.slice _ hlo hhi
    · exact h.placed d (hmem d hd)
  · rcases List.mem_cons.mp hd with rfl | hd
    · rw [hrest]
      omega
    · exact h.nonneg d (hmem d hd)
  · simp only [h.total, hq, List.map_cons, List.sum_cons, hrest]
    omega
  · simp only [DataDeque.bytes, hq, List.flatMap_cons, ← List.append_assoc,
      Data.content_slice hfr hlo hhi]

/-- **A read** of at most `bound` bytes takes `x` from the front of `q`, and leaves `q'`. -/
inductive Split (q : DataDeque) (bound : Option ℤ) : Data → DataDeque → Prop
  | nothing {x : Data} (hq : q.mData = []) (hx : x.size = 0) : Split q bound x q
  | whole {fr : Data} {rest : List Data} (hq : q.mData = fr :: rest)
      (hfit : ∀ n ∈ bound, fr.size ≤ n) : Split q bound fr ⟨rest, q.size - fr.size⟩
  | part {fr : Data} {rest : List Data} {n : ℤ} (hq : q.mData = fr :: rest)
      (hbound : bound = some n) (hcut : n < fr.size) :
      Split q bound (fr.slice 0 n) ⟨fr.slice n (fr.size - n) :: rest, q.size - n⟩

theorem Split.took {bound : Option ℤ} {x : Data} (h : q.Split bound x q') (hv : q.Valid m)
    (hbound : ∀ n ∈ bound, 0 ≤ n) : q.Took m x q' := by
  cases h with
  | nothing _ hx => exact .nothing hv hx
  | whole hq _ => exact .whole hv hq
  | part hq hn hcut => exact .part hv hq (hbound _ hn) (Int.le_of_lt hcut)

/-- No more is taken than the bound allows. -/
theorem Split.size_le {n : ℤ} {x : Data} (h : q.Split (some n) x q') (hn : 0 ≤ n) :
    x.size ≤ n := by
  cases h with
  | nothing _ hx => omega
  | whole _ hfit => exact hfit n rfl
  | part _ hbound _ =>
      obtain rfl := Option.some.inj hbound
      simp only [Data.slice]
      omega

/-- What was taken is still what was taken in memory with the same buffers. -/
theorem Took.intact {x : Data} (h : q.Took m x q') (hq : q.Placed m) (hm : m.Intact m') :
    q'.Valid m' ∧ x.content m' ++ q'.bytes m' = q.bytes m' := by
  refine ⟨h.valid.mono hm.keeps, ?_⟩
  have hx : x.content m' = x.content m := by
    rcases h.front with hx | hx
    · exact Data.content_of_intact hx hm
    · rw [Data.content_of_size_zero hx, Data.content_of_size_zero hx]
  rw [hx, bytes_of_intact h.valid.placed hm, bytes_of_intact hq hm, h.bytes]

/-! ## What the functions of `DataDeque` return -/

theorem returns_write (q : DataDeque) (d : Data) :
    Returns m (q.write d) (· = .ok ⟨q.mData ++ [d], q.size + d.size⟩) := by
  unfold write
  exact Returns.bind_ok (Data.returns_mkCopy d) (Returns.pure rfl)

theorem returns_readNothing (d : Data) :
    Returns m (readNothing d) fun r => ∃ x : Data, r = .ok x ∧ x.size = 0 := by
  unfold readNothing
  refine Returns.bind Data.returns_mkDefault (fun e he => by simp at he) fun temp htemp => ?_
  obtain ⟨x, heq, hx⟩ := htemp
  obtain rfl := Except.ok.inj heq
  exact Returns.bind_ok (Data.returns_assign d temp)
    (Returns.bind_ok (Data.returns_destroy temp) (Returns.pure ⟨temp, rfl, hx⟩))

theorem returns_readFront (fr : Data) (rest : List Data) (size : ℤ) (d : Data) :
    Returns m (readFront fr rest size d) (· = .ok (fr, ⟨rest, size - fr.size⟩)) := by
  unfold readFront
  exact Returns.bind_ok (Data.returns_assign d fr)
    (Returns.bind_ok (Data.returns_destroy fr) (Returns.pure rfl))

theorem returns_read (q : DataDeque) (d : Data) :
    Returns m (q.read d) fun r => ∃ x q', r = .ok (x, q') ∧ q.Split none x q' := by
  unfold read
  split
  · next heq =>
      refine Returns.bind (returns_readNothing d) (fun e he => by simp at he) fun x hx => ?_
      obtain ⟨y, hret, hy⟩ := hx
      obtain rfl := Except.ok.inj hret
      exact Returns.pure ⟨x, q, rfl, .nothing heq hy⟩
  · next fr rest heq =>
      exact (returns_readFront fr rest q.size d).weaken fun r hr =>
        ⟨fr, _, hr, .whole heq (by simp)⟩

/-- A bounded read leaves the buffers as they were, whatever its bound is. -/
theorem returns_readMax_any (q : DataDeque) (d : Data) (maxSize : ℤ) :
    Returns m (q.readMax d maxSize) fun _ => True := by
  unfold readMax
  split
  · exact Returns.bind (returns_readNothing d) (fun _ _ => trivial) fun _ _ =>
      Returns.pure trivial
  · next fr rest _ =>
      split
      · exact Returns.bind_ok (returns_readFront fr rest q.size d) (Returns.pure trivial)
      · refine Returns.bind (Data.returns_mkSlice fr 0 maxSize) (fun _ _ => trivial)
          fun temp _ => ?_
        refine Returns.bind_ok (Data.returns_assign d temp)
          (Returns.bind_ok (Data.returns_destroy temp) ?_)
        refine Returns.bind (Data.returns_mkSlice fr maxSize _).attempt (fun _ _ => trivial)
          fun r _ => ?_
        cases r with
        | error e => exact Returns.pure trivial
        | ok temp' =>
            exact Returns.bind_ok (Data.returns_assign fr temp')
              (Returns.bind_ok (Data.returns_destroy temp') (Returns.pure trivial))

/-- A bounded read throws nothing. -/
theorem returns_readMax (q : DataDeque) (d : Data) {maxSize : ℤ} (hmax : 0 ≤ maxSize) :
    Returns m (q.readMax d maxSize) fun r =>
      ∃ x q', r = .ok (x, q', none) ∧ q.Split (some maxSize) x q' := by
  unfold readMax
  split
  · next heq =>
      refine Returns.bind (returns_readNothing d) (fun e he => by simp at he) fun x hx => ?_
      obtain ⟨y, hret, hy⟩ := hx
      obtain rfl := Except.ok.inj hret
      exact Returns.pure ⟨x, q, rfl, .nothing heq hy⟩
  · next fr rest heq =>
      split
      · next hfit =>
          refine Returns.bind_ok (returns_readFront fr rest q.size d) ?_
          exact Returns.pure ⟨fr, _, rfl, .whole heq (by simpa using hfit)⟩
      · next hcut =>
          -- both slices are inside the front chunk, so neither throws
          have hfst : Returns m (Data.mkSlice fr 0 maxSize) (· = .ok (fr.slice 0 maxSize)) :=
            (Data.returns_mkSlice fr 0 maxSize).weaken fun r hr =>
              hr (Int.le_refl 0) (by omega)
          have hsnd : Returns m (Data.mkSlice fr maxSize (fr.size - maxSize))
              (· = .ok (fr.slice maxSize (fr.size - maxSize))) :=
            (Data.returns_mkSlice fr maxSize _).weaken fun r hr => hr hmax (by omega)
          refine Returns.bind_ok hfst (Returns.bind_ok (Data.returns_assign d _)
            (Returns.bind_ok (Data.returns_destroy _) (Returns.bind_ok hsnd.attempt_ok ?_)))
          refine Returns.bind_ok (Data.returns_assign fr _)
            (Returns.bind_ok (Data.returns_destroy _) (Returns.pure ⟨_, _, rfl, ?_⟩))
          exact .part heq rfl (by omega)

theorem returns_destroyAll (ds : List Data) : Returns m (destroyAll ds) (· = .ok ()) := by
  induction ds with
  | nil => exact Returns.pure rfl
  | cons d rest ih => exact Returns.bind_ok (Data.returns_destroy d) ih

end DataDeque

/-- The deque an operation works on. -/
def DataOp.deque : DataOp → Option ℕ
  | .dequeWrite q _ => some q
  | .dequeRead q _ => some q
  | .dequeReadMax q _ _ => some q
  | .dequeDestroy q => some q
  | _ => none

/-- The operation reads from deque `q` into variable `d`. -/
inductive DataOp.Reads (q d : ℕ) : DataOp → Option ℤ → Prop
  | read : Reads q d (.dequeRead q d) none
  | readMax (maxSize : ℤ) : Reads q d (.dequeReadMax q d maxSize) (some maxSize)

namespace Program

/-! ## What has gone through a deque -/

/-- The bytes a step writes to deque `q`. -/
def arrives (q : ℕ) (p : Program × DataOp) : List Byte :=
  match p.2 with
  | .dequeWrite k d =>
      if k = q then (Slots.lookup p.1.vars d).elim [] (Data.content p.1.mem) else []
  | _ => []

/-- The bytes of the `Data` a step reads from deque `q`, as it leaves them. -/
def leaves (q : ℕ) (p : Program × DataOp) : List Byte :=
  match p.2 with
  | .dequeRead k d | .dequeReadMax k d _ =>
      if k = q then
        (p.1.step p.2).elim [] fun s => (Slots.lookup s.vars d).elim [] (Data.content s.mem)
      else
        []
  | _ => []

/-- All bytes written to deque `q`, in order. -/
def written (q : ℕ) (tr : List (Program × DataOp)) : List Byte := tr.flatMap (arrives q)

/-- All bytes read from deque `q`, in order. -/
def returned (q : ℕ) (tr : List (Program × DataOp)) : List Byte := tr.flatMap (leaves q)

/-- What is asked of a step for the sake of deque `q`: the `Data` written to it has a
size, a bound on a read is not negative, and no write in place goes to a buffer that a
stored chunk is on. -/
structure Proper (q : ℕ) (s : Program) (op : DataOp) : Prop where
  valid : ∀ d data, op = .dequeWrite q d → Slots.lookup s.vars d = some data → 0 ≤ data.size
  bounded : ∀ d maxSize, op = .dequeReadMax q d maxSize → 0 ≤ maxSize
  apart : ∀ k d x, op.writes = some k → Slots.lookup s.vars k = some d →
    Slots.lookup s.deques q = some x → ∀ c ∈ x.mData, c.impl.ptr.pObj ≠ d.impl.ptr.pObj

instance (q : ℕ) (s : Program) (op : DataOp) : Decidable (Proper q s op) :=
  let arg : Option ℕ := match op with
    | .dequeWrite k d => if k = q then some d else none
    | _ => none
  let bound : Option ℤ := match op with
    | .dequeReadMax k _ maxSize => if k = q then some maxSize else none
    | _ => none
  have harg : ∀ d, d ∈ arg ↔ op = .dequeWrite q d := by
    cases op <;> simp [arg]
  have hbound : ∀ n, n ∈ bound ↔ ∃ d, op = .dequeReadMax q d n := by
    cases op <;> simp [bound]
  decidable_of_iff
    ((∀ d ∈ arg, ∀ data ∈ Slots.lookup s.vars d, 0 ≤ data.size) ∧ (∀ n ∈ bound, 0 ≤ n) ∧
      ∀ k ∈ op.writes, ∀ d ∈ Slots.lookup s.vars k, ∀ x ∈ Slots.lookup s.deques q,
        ∀ c ∈ x.mData, c.impl.ptr.pObj ≠ d.impl.ptr.pObj)
    ⟨fun h => ⟨fun d data hop hd => h.1 d ((harg d).mpr hop) data hd,
      fun d n hop => h.2.1 n ((hbound n).mpr ⟨d, hop⟩), fun k d x hk hd hx => h.2.2 k hk d hd x hx⟩,
    fun h => ⟨fun d hop data hd => h.valid d data ((harg d).mp hop) hd,
      fun n hop => let ⟨d, hd⟩ := (hbound n).mp hop; h.bounded d n hd,
      fun k hk d hd x hx => h.apart k d x hk hd hx⟩⟩

variable {s s' : Program} {q : ℕ} {op : DataOp}

theorem arrives_other (h : op.deque ≠ some q) : arrives q (s, op) = [] := by
  cases op with
  | dequeWrite k d => exact if_neg fun hk => h (congrArg some hk)
  | _ => rfl

theorem leaves_other (h : op.deque ≠ some q) : leaves q (s, op) = [] := by
  cases op with
  | dequeRead k d => exact if_neg fun hk => h (congrArg some hk)
  | dequeReadMax k d maxSize => exact if_neg fun hk => h (congrArg some hk)
  | _ => rfl

/-! ## Frame lemmas -/

/-- A computation whose result is known, run in a program. -/
theorem run_returns {α : Type} {x : DataM α} {good : Except Thrown α → Prop}
    {k : α → Program → Program} (hx : Returns s.mem x good) (h : s.run x k = some s') :
    ∃ m, s.mem.Intact m ∧ ((∃ a, good (.ok a) ∧ s' = k a { s with mem := m }) ∨
      (∃ e, good (.error e)) ∧ s' = { s with mem := m }) := by
  unfold run at h
  rcases hres : x s.mem with _ | ⟨e | a, m⟩
  · simp [hres] at h
  · simp only [hres, Option.some.injEq] at h
    obtain ⟨hm, hgood⟩ := hx _ _ _ (.refl _) hres
    exact ⟨m, hm, Or.inr ⟨⟨e, hgood⟩, h.symm⟩⟩
  · simp only [hres, Option.some.injEq] at h
    obtain ⟨hm, hgood⟩ := hx _ _ _ (.refl _) hres
    exact ⟨m, hm, Or.inl ⟨a, hgood, h.symm⟩⟩

/-- A computation whose result does not go into a deque. -/
theorem run_frame {α : Type} {x : DataM α} {good : Except Thrown α → Prop}
    {k : α → Program → Program} (hx : Returns s.mem x good) (h : s.run x k = some s')
    (hk : ∀ a t, (k a t).mem = t.mem ∧ (k a t).deques = t.deques) :
    s.mem.Intact s'.mem ∧ s'.deques = s.deques := by
  obtain ⟨m, hm, ⟨a, -, rfl⟩ | ⟨-, rfl⟩⟩ := run_returns hx h
  · obtain ⟨hmem, hdeques⟩ := hk a { s with mem := m }
    rw [hmem, hdeques]
    exact ⟨hm, rfl⟩
  · exact ⟨hm, rfl⟩

theorem declare_frame {x : DataM Data} {good : Except Thrown Data → Prop}
    (hx : Returns s.mem x good) (h : s.declare x = some s') :
    s.mem.Intact s'.mem ∧ s'.deques = s.deques :=
  run_frame hx h fun _ _ => ⟨rfl, rfl⟩

/-- An operation on a variable that does not write in place. -/
theorem step_var (hw : op.writes = none) (hq : op.deque = none) (hnew : op ≠ .dequeNew)
    (hstep : s.step op = some s') : s.mem.Intact s'.mem ∧ s'.deques = s.deques := by
  cases op with
  | mkDefault => exact declare_frame Data.returns_mkDefault hstep
  | mkSize size raw => exact declare_frame (Data.returns_mkSize size raw) hstep
  | mkBytes size data => exact declare_frame (Data.returns_mkBytes size data) hstep
  | mkCopy r =>
      obtain ⟨d, -, hrun⟩ := Option.bind_eq_some_iff.mp hstep
      exact declare_frame (Data.returns_mkCopy d) hrun
  | mkSlice r pos si =>
      obtain ⟨d, -, hrun⟩ := Option.bind_eq_some_iff.mp hstep
      exact declare_frame (Data.returns_mkSlice d pos si) hrun
  | assign l r =>
      obtain ⟨self, -, hrest⟩ := Option.bind_eq_some_iff.mp hstep
      obtain ⟨d, -, hrun⟩ := Option.bind_eq_some_iff.mp hrest
      exact run_frame (Data.returns_assign self d) hrun fun _ _ => ⟨rfl, rfl⟩
  | swap a b =>
      obtain ⟨x, -, hrest⟩ := Option.bind_eq_some_iff.mp hstep
      obtain ⟨y, -, heq⟩ := Option.bind_eq_some_iff.mp hrest
      obtain rfl := Option.some.inj heq
      exact ⟨.refl _, rfl⟩
  | destroy d =>
      obtain ⟨self, -, hrun⟩ := Option.bind_eq_some_iff.mp hstep
      exact run_frame (Data.returns_destroy self) hrun fun _ _ => ⟨rfl, rfl⟩
  | getByte d =>
      obtain ⟨self, -, hrun⟩ := Option.bind_eq_some_iff.mp hstep
      exact run_frame (Data.returns_getByte self) hrun fun _ _ => ⟨rfl, rfl⟩
  | fill | copy | stores => simp [DataOp.writes] at hw
  | dequeNew => exact absurd rfl hnew
  | dequeWrite | dequeRead | dequeReadMax | dequeDestroy => simp [DataOp.deque] at hq

/-- A write in place changes no deque. -/
theorem step_inPlace {k : ℕ} (hw : op.writes = some k) (hstep : s.step op = some s') :
    s'.deques = s.deques := by
  cases op with
  | fill d value =>
      obtain ⟨self, -, hrun⟩ := Option.bind_eq_some_iff.mp hstep
      obtain ⟨r, m, -, ⟨a, -, rfl⟩ | rfl⟩ := run_cases hrun <;> rfl
  | copy d pos other =>
      obtain ⟨self, -, hrest⟩ := Option.bind_eq_some_iff.mp hstep
      obtain ⟨arg, -, hrun⟩ := Option.bind_eq_some_iff.mp hrest
      obtain ⟨r, m, -, ⟨a, -, rfl⟩ | rfl⟩ := run_cases hrun <;> rfl
  | stores d bs =>
      obtain ⟨self, -, hrun⟩ := Option.bind_eq_some_iff.mp hstep
      split at hrun
      · obtain ⟨r, m, -, ⟨a, -, rfl⟩ | rfl⟩ := run_cases hrun <;> rfl
      · simp at hrun
  | mkDefault | mkSize | mkBytes | mkCopy | mkSlice | assign | swap | destroy | getByte
  | dequeNew | dequeWrite | dequeRead | dequeReadMax | dequeDestroy => simp [DataOp.writes] at hw

/-- A computation on deque `k`, whose result goes back into it. -/
theorem run_deque {α : Type} {x : DataM α} {good : Except Thrown α → Prop} {k : ℕ}
    {next : α → Program → Program} (hx : Returns s.mem x good) (h : s.run x next = some s')
    (hmem : ∀ a t, (next a t).mem = t.mem)
    (hnext : ∀ a t, (∃ y, (next a t).deques = t.deques.set k y)) :
    s.mem.Intact s'.mem ∧ s'.deques.length = s.deques.length ∧
      ∀ i ≠ k, Slots.lookup s'.deques i = Slots.lookup s.deques i := by
  obtain ⟨m, hm, ⟨a, -, rfl⟩ | ⟨-, rfl⟩⟩ := run_returns hx h
  · obtain ⟨y, hy⟩ := hnext a { s with mem := m }
    rw [hmem, hy]
    refine ⟨hm, List.length_set, fun i hi => ?_⟩
    rw [Slots.lookup, Slots.lookup, List.getElem?_set_ne hi.symm]
  · exact ⟨hm, rfl, fun _ _ => rfl⟩

/-- An operation on a deque leaves the buffers and the other deques alone. -/
theorem step_deque {k : ℕ} (hk : op.deque = some k) (hstep : s.step op = some s') :
    (∃ x, Slots.lookup s.deques k = some x) ∧ s.mem.Intact s'.mem ∧
      s'.deques.length = s.deques.length ∧
        ∀ i ≠ k, Slots.lookup s'.deques i = Slots.lookup s.deques i := by
  cases op with
  | dequeWrite q d =>
      obtain rfl : q = k := Option.some.inj hk
      obtain ⟨self, hself, hrest⟩ := Option.bind_eq_some_iff.mp hstep
      obtain ⟨data, -, hrun⟩ := Option.bind_eq_some_iff.mp hrest
      exact ⟨⟨self, hself⟩, run_deque (DataDeque.returns_write self data) hrun (fun _ _ => rfl)
        fun a _ => ⟨some a, rfl⟩⟩
  | dequeRead q d =>
      obtain rfl : q = k := Option.some.inj hk
      obtain ⟨self, hself, hrest⟩ := Option.bind_eq_some_iff.mp hstep
      obtain ⟨data, -, hrun⟩ := Option.bind_eq_some_iff.mp hrest
      exact ⟨⟨self, hself⟩, run_deque (DataDeque.returns_read self data) hrun (fun _ _ => rfl)
        fun a _ => ⟨some a.2, rfl⟩⟩
  | dequeReadMax q d maxSize =>
      obtain rfl : q = k := Option.some.inj hk
      obtain ⟨self, hself, hrest⟩ := Option.bind_eq_some_iff.mp hstep
      obtain ⟨data, -, hrun⟩ := Option.bind_eq_some_iff.mp hrest
      exact ⟨⟨self, hself⟩, run_deque (DataDeque.returns_readMax_any self data maxSize) hrun
        (fun _ _ => rfl) fun a _ => ⟨some a.2.1, rfl⟩⟩
  | dequeDestroy q =>
      obtain rfl : q = k := Option.some.inj hk
      obtain ⟨self, hself, hrun⟩ := Option.bind_eq_some_iff.mp hstep
      exact ⟨⟨self, hself⟩, run_deque (DataDeque.returns_destroyAll self.mData) hrun
        (fun _ _ => rfl) fun _ _ => ⟨none, rfl⟩⟩
  | mkDefault | mkSize | mkBytes | mkCopy | mkSlice | assign | swap | destroy | getByte | fill
  | copy | stores | dequeNew => simp [DataOp.deque] at hk

/-- **An operation that is not on deque `q`** leaves it as it is, or makes it. -/
theorem lookup_other (hq : op.deque ≠ some q) (hstep : s.step op = some s') :
    s.deques.length ≤ s'.deques.length ∧
        Slots.lookup s'.deques q = Slots.lookup s.deques q ∨
      s.deques.length = q ∧ Slots.lookup s'.deques q = some DataDeque.mkDefault := by
  rcases hw : op.writes with _ | k
  · rcases hk : op.deque with _ | k
    · by_cases hnew : op = .dequeNew
      · subst hnew
        obtain rfl := Option.some.inj hstep
        by_cases hlen : s.deques.length = q
        · subst hlen
          exact Or.inr ⟨rfl, Slots.lookup_insert_self _ _⟩
        · refine Or.inl ⟨by simp [Slots.insert], ?_⟩
          simp only [Slots.lookup, Slots.insert, List.getElem?_append]
          split
          · rfl
          · rw [List.getElem?_singleton, if_neg (by omega),
              List.getElem?_eq_none (by omega)]
      · rw [(step_var hw hk hnew hstep).2]
        exact Or.inl ⟨Nat.le_refl _, rfl⟩
    · obtain ⟨-, -, hlen, hother⟩ := step_deque hk hstep
      exact Or.inl ⟨hlen.symm.le, hother q fun heq => hq (heq ▸ hk)⟩
  · rw [step_inPlace hw hstep]
    exact Or.inl ⟨Nat.le_refl _, rfl⟩

/-- Its bytes stay what they are. -/
theorem bytes_other (hs : s.Placed) (hp : Proper q s op) (hq : op.deque ≠ some q)
    (hstep : s.step op = some s') {x : DataDeque} (hx : Slots.lookup s.deques q = some x) :
    x.bytes s'.mem = x.bytes s.mem := by
  rcases hw : op.writes with _ | k
  · refine DataDeque.bytes_of_intact (hs.deque hx) ?_
    rcases hk : op.deque with _ | k
    · by_cases hnew : op = .dequeNew
      · subst hnew
        obtain rfl := Option.some.inj hstep
        exact .refl _
      · exact (step_var hw hk hnew hstep).1
    · exact (step_deque hk hstep).2.1
  · obtain ⟨d, hd, -, hwrote⟩ := step_writes hstep hw
    refine DataDeque.bytes_congr fun c hc => ?_
    exact Data.content_of_wrote (hs.deque hx c hc) hwrote (hp.apart k d x hw hd hx c hc)

/-! ## One operation on the deque -/

theorem leaves_read {d : ℕ} {bound : Option ℤ} {x : Data} (hop : op.Reads q d bound)
    (hstep : s.step op = some s') (hx : Slots.lookup s'.vars d = some x) :
    leaves q (s, op) = x.content s'.mem := by
  cases hop <;> simp only [leaves, if_true, hstep, Option.elim_some, hx]

/-- What a write leaves in the deque. -/
theorem step_write {d : ℕ} {x : DataDeque} (hstep : s.step (.dequeWrite q d) = some s')
    (hx : Slots.lookup s.deques q = some x) :
    ∃ data, Slots.lookup s.vars d = some data ∧ s.mem.Intact s'.mem ∧
      Slots.lookup s'.deques q = some ⟨x.mData ++ [data], x.size + data.size⟩ := by
  obtain ⟨self, hself, hrest⟩ := Option.bind_eq_some_iff.mp hstep
  obtain rfl : x = self := Option.some.inj (hx.symm.trans hself)
  obtain ⟨data, hdata, hrun⟩ := Option.bind_eq_some_iff.mp hrest
  obtain ⟨m, hm, ⟨a, ha, rfl⟩ | ⟨⟨e, he⟩, -⟩⟩ :=
    run_returns (DataDeque.returns_write x data) hrun
  · obtain rfl := Except.ok.inj ha
    exact ⟨data, hdata, hm, Slots.lookup_put_self _ hself⟩
  · cases he

/-- A deque that is destroyed is gone. -/
theorem step_destroy (hstep : s.step (.dequeDestroy q) = some s') :
    Slots.lookup s'.deques q = none := by
  obtain ⟨self, -, hrun⟩ := Option.bind_eq_some_iff.mp hstep
  obtain ⟨m, -, ⟨a, -, rfl⟩ | ⟨⟨e, he⟩, -⟩⟩ :=
    run_returns (DataDeque.returns_destroyAll self.mData) hrun
  · exact Slots.lookup_remove_self _ _
  · cases he

/-- What a read leaves in its variable and in the deque. -/
theorem step_read {d : ℕ} {bound : Option ℤ} {x : DataDeque} (hop : op.Reads q d bound)
    (hbound : ∀ n ∈ bound, 0 ≤ n) (hstep : s.step op = some s')
    (hx : Slots.lookup s.deques q = some x) :
    ∃ y x', x.Split bound y x' ∧ s.mem.Intact s'.mem ∧
      Slots.lookup s'.vars d = some y ∧ Slots.lookup s'.deques q = some x' := by
  cases hop with
  | read =>
      obtain ⟨self, hself, hrest⟩ := Option.bind_eq_some_iff.mp hstep
      obtain rfl : x = self := Option.some.inj (hx.symm.trans hself)
      obtain ⟨data, hdata, hrun⟩ := Option.bind_eq_some_iff.mp hrest
      obtain ⟨m, hm, ⟨a, ⟨y, x', heq, hsplit⟩, rfl⟩ | ⟨⟨e, y, x', he, -⟩, -⟩⟩ :=
        run_returns (DataDeque.returns_read x data) hrun
      · obtain rfl := Except.ok.inj heq
        exact ⟨y, x', hsplit, hm, Slots.lookup_put_self _ hdata, Slots.lookup_put_self _ hself⟩
      · cases he
  | readMax maxSize =>
      obtain ⟨self, hself, hrest⟩ := Option.bind_eq_some_iff.mp hstep
      obtain rfl : x = self := Option.some.inj (hx.symm.trans hself)
      obtain ⟨data, hdata, hrun⟩ := Option.bind_eq_some_iff.mp hrest
      obtain ⟨m, hm, ⟨a, ⟨y, x', heq, hsplit⟩, rfl⟩ | ⟨⟨e, y, x', he, -⟩, -⟩⟩ :=
        run_returns (DataDeque.returns_readMax x data (hbound maxSize rfl)) hrun
      · obtain rfl := Except.ok.inj heq
        exact ⟨y, x', hsplit, hm, Slots.lookup_put_self _ hdata, Slots.lookup_put_self _ hself⟩
      · cases he

/-- What is read and what is left in the deque, byte by byte. -/
theorem step_on_read {d : ℕ} {bound : Option ℤ} {x x' : DataDeque} (hop : op.Reads q d bound)
    (hbound : ∀ n ∈ bound, 0 ≤ n) (hstep : s.step op = some s')
    (hx : Slots.lookup s.deques q = some x) (hv : x.Valid s.mem)
    (hx' : Slots.lookup s'.deques q = some x') :
    x'.Valid s'.mem ∧
      leaves q (s, op) ++ x'.bytes s'.mem = x.bytes s.mem ++ arrives q (s, op) := by
  obtain ⟨y, x'', hsplit, hm, hy, hlookup⟩ := step_read hop hbound hstep hx
  obtain rfl := Option.some.inj (hx'.symm.trans hlookup)
  obtain ⟨hvalid, hbytes⟩ := (hsplit.took hv hbound).intact hv.placed hm
  have harr : arrives q (s, op) = [] := by cases hop <;> rfl
  refine ⟨hvalid, ?_⟩
  rw [leaves_read hop hstep hy, hbytes, DataDeque.bytes_of_intact hv.placed hm, harr,
    List.append_nil]

/-- **One operation on deque `q`**: what leaves it and what it then stores is what it
stored and what arrives. -/
theorem step_on {x : DataDeque} (hs : s.Placed) (hp : Proper q s op) (hq : op.deque = some q)
    (hstep : s.step op = some s') (hx : Slots.lookup s.deques q = some x) (hv : x.Valid s.mem)
    {x' : DataDeque} (hx' : Slots.lookup s'.deques q = some x') :
    x'.Valid s'.mem ∧
      leaves q (s, op) ++ x'.bytes s'.mem = x.bytes s.mem ++ arrives q (s, op) := by
  cases op with
  | dequeWrite k d =>
      obtain rfl : k = q := Option.some.inj hq
      obtain ⟨data, hdata, hm, hlookup⟩ := step_write hstep hx
      obtain rfl := Option.some.inj (hx'.symm.trans hlookup)
      have harr : arrives k (s, .dequeWrite k d) = data.content s.mem := by
        simp only [arrives, if_true, hdata, Option.elim_some]
      obtain ⟨hvalid, hbytes⟩ := hv.write (hs.var hdata) (hp.valid d data rfl hdata)
      refine ⟨hvalid.mono hm.keeps, ?_⟩
      rw [harr, ← hbytes]
      exact DataDeque.bytes_of_intact hvalid.placed hm
  | dequeRead k d =>
      obtain rfl : k = q := Option.some.inj hq
      exact step_on_read .read (by simp) hstep hx hv hx'
  | dequeReadMax k d maxSize =>
      obtain rfl : k = q := Option.some.inj hq
      exact step_on_read (.readMax maxSize) (by simpa using hp.bounded d maxSize rfl) hstep hx hv
        hx'
  | dequeDestroy k =>
      obtain rfl : k = q := Option.some.inj hq
      cases (step_destroy hstep).symm.trans hx'
  | mkDefault | mkSize | mkBytes | mkCopy | mkSlice | assign | swap | destroy | getByte | fill
  | copy | stores | dequeNew => simp [DataOp.deque] at hq

/-- **A bounded read** leaves no more than its bound in the variable. -/
theorem readMax_le {d : ℕ} {maxSize : ℤ} {x : DataDeque} {y : Data}
    (hmax : 0 ≤ maxSize) (hstep : s.step (.dequeReadMax q d maxSize) = some s')
    (hx : Slots.lookup s.deques q = some x) (hy : Slots.lookup s'.vars d = some y) :
    y.size ≤ maxSize := by
  obtain ⟨z, x', hsplit, -, hz, -⟩ :=
    step_read (.readMax maxSize) (by simpa using hmax) hstep hx
  obtain rfl := Option.some.inj (hy.symm.trans hz)
  exact hsplit.size_le hmax

/-! ## Whole runs -/

/-- What the log of deque `q` says about its chunks. -/
structure Fifo (q : ℕ) (tr : List (Program × DataOp)) (s : Program) : Prop where
  placed : s.Placed
  fresh : s.deques.length ≤ q → written q tr = [] ∧ returned q tr = []
  exact : ∀ x, Slots.lookup s.deques q = some x →
    x.Valid s.mem ∧ returned q tr ++ x.bytes s.mem = written q tr

theorem written_snoc (q : ℕ) (tr : List (Program × DataOp)) (p : Program × DataOp) :
    written q (tr ++ [p]) = written q tr ++ arrives q p := by
  simp [written]

theorem returned_snoc (q : ℕ) (tr : List (Program × DataOp)) (p : Program × DataOp) :
    returned q (tr ++ [p]) = returned q tr ++ leaves q p := by
  simp [returned]

namespace Fifo

variable {tr : List (Program × DataOp)}

theorem init (q : ℕ) : Fifo q [] Program.init :=
  ⟨Placed.init, fun _ => ⟨rfl, rfl⟩, fun x hx => by simp [Program.init, Slots.lookup] at hx⟩

theorem step (h : Fifo q tr s) (hp : Proper q s op) (hstep : s.step op = some s') :
    Fifo q (tr ++ [(s, op)]) s' := by
  have hplaced := h.placed.step hstep
  by_cases hq : op.deque = some q
  · obtain ⟨⟨x, hx⟩, -, hlen, -⟩ := step_deque hq hstep
    obtain ⟨hv, hlog⟩ := h.exact x hx
    refine ⟨hplaced, fun hle => ?_, fun x' hx' => ?_⟩
    · have hlt := Slots.lookup_lt hx
      omega
    · obtain ⟨hv', hbytes⟩ := step_on h.placed hp hq hstep hx hv hx'
      refine ⟨hv', ?_⟩
      calc returned q (tr ++ [(s, op)]) ++ x'.bytes s'.mem
          = returned q tr ++ (leaves q (s, op) ++ x'.bytes s'.mem) := by
            rw [returned_snoc, List.append_assoc]
        _ = returned q tr ++ x.bytes s.mem ++ arrives q (s, op) := by
            rw [hbytes, List.append_assoc]
        _ = written q (tr ++ [(s, op)]) := by rw [hlog, written_snoc]
  · -- nothing goes through `q` in this step
    have hlookup := lookup_other hq hstep
    have hwritten : written q (tr ++ [(s, op)]) = written q tr := by
      rw [written_snoc, arrives_other hq, List.append_nil]
    have hreturned : returned q (tr ++ [(s, op)]) = returned q tr := by
      rw [returned_snoc, leaves_other hq, List.append_nil]
    refine ⟨hplaced, fun hle => ?_, fun x hx => ?_⟩
    · rw [hwritten, hreturned]
      rcases hlookup with ⟨hlen, -⟩ | ⟨-, hmade⟩
      · exact h.fresh (hlen.trans hle)
      · exact absurd (Slots.lookup_lt hmade) (Nat.not_lt.mpr hle)
    · rw [hwritten, hreturned]
      rcases hlookup with ⟨-, hkept⟩ | ⟨hlen, hmade⟩
      · have hbefore := hkept.symm.trans hx
        obtain ⟨hv, hlog⟩ := h.exact x hbefore
        exact ⟨⟨hplaced.deque hx, hv.nonneg, hv.total⟩, by
          rw [bytes_other h.placed hp hq hstep hbefore, hlog]⟩
      · obtain rfl := Option.some.inj (hmade.symm.trans hx)
        obtain ⟨hw, hr⟩ := h.fresh hlen.le
        exact ⟨.mkDefault, by rw [hw, hr]; rfl⟩

theorem of_run (hrun : Machine.Run (Machine.Fires Program.step) Program.init tr s)
    (hproper : ∀ p ∈ tr, Proper q p.1 p.2) : Fifo q tr s := by
  induction hrun with
  | nil => exact init q
  | @snoc tr t u op _ hfire ih =>
      exact (ih fun p hp => hproper p (List.mem_append_left _ hp)).step
        (hproper (t, op) (by simp)) hfire

end Fifo

/-- The counter of a valid deque counts its bytes. -/
theorem length_bytes {x : DataDeque} {m : Mem} (h : x.Valid m) :
    ((x.bytes m).length : ℤ) = x.size := by
  have hchunks : ∀ ds : List Data, (∀ d ∈ ds, d.Placed m ∧ 0 ≤ d.size) →
      ((ds.flatMap (Data.content m)).length : ℤ) = (ds.map Data.size).sum := by
    intro ds hds
    induction ds with
    | nil => rfl
    | cons d rest ih =>
        obtain ⟨hd, hsize⟩ := hds d List.mem_cons_self
        have hrest := ih fun x hx => hds x (List.mem_cons_of_mem d hx)
        simp only [List.flatMap_cons, List.length_append, List.map_cons, List.sum_cons,
          Data.length_content hd]
        omega
  rw [h.total]
  exact hchunks x.mData fun d hd => ⟨h.placed d hd, h.nonneg d hd⟩

/-- **A deque loses nothing.**  In every run whose steps are proper for deque `q`: what
has been read from it, followed by the chunks it stores, is what has been written to it;
its counter is the total size of the chunks, which is the number of bytes they hold; and
no bounded read has returned more than its bound. -/
theorem lossless {tr : List (Program × DataOp)}
    (hrun : Machine.Run (Machine.Fires step) Program.init tr s)
    (hproper : ∀ p ∈ tr, Proper q p.1 p.2) :
    (∀ x, Slots.lookup s.deques q = some x →
      returned q tr ++ x.bytes s.mem = written q tr ∧
        x.size = (x.mData.map Data.size).sum ∧ x.size = (x.bytes s.mem).length) ∧
      ∀ p ∈ tr, ∀ d maxSize, p.2 = .dequeReadMax q d maxSize →
        ∀ t y, p.1.step p.2 = some t → Slots.lookup t.vars d = some y → y.size ≤ maxSize := by
  constructor
  · intro x hx
    obtain ⟨hv, hlog⟩ := (Fifo.of_run hrun hproper).exact x hx
    exact ⟨hlog, hv.total, (length_bytes hv).symm⟩
  · rintro p hp d maxSize hop t y ht hy
    rw [hop] at ht
    obtain ⟨self, hself, -⟩ := Option.bind_eq_some_iff.mp ht
    exact readMax_le ((hproper p hp).bounded d maxSize hop) ht hself hy

/-- Two chunks go through a deque: the first is read in three parts, one of them empty,
while its own variable is read from and another buffer is filled. -/
theorem lossless_example : ∃ tr s,
    Machine.Run (Machine.Fires step) Program.init tr s ∧
    Machine.actions tr = [.mkBytes 3 [1, 2, 3], .mkBytes 2 [4, 5], .mkDefault, .dequeNew,
      .dequeWrite 0 0, .dequeWrite 0 1, .dequeReadMax 0 2 1, .destroy 0, .dequeReadMax 0 2 0,
      .mkSize 2 [], .fill 3 9, .dequeReadMax 0 2 8] ∧
    (∀ x, Slots.lookup s.deques 0 = some x →
      returned 0 tr ++ x.bytes s.mem = written 0 tr ∧
        x.size = (x.mData.map Data.size).sum ∧ x.size = (x.bytes s.mem).length) ∧
    returned 0 tr = [1, 2, 3] ∧ written 0 tr = [1, 2, 3, 4, 5] := by
  let ops : List DataOp := [.mkBytes 3 [1, 2, 3], .mkBytes 2 [4, 5], .mkDefault, .dequeNew,
    .dequeWrite 0 0, .dequeWrite 0 1, .dequeReadMax 0 2 1, .destroy 0, .dequeReadMax 0 2 0,
    .mkSize 2 [], .fill 3 9, .dequeReadMax 0 2 8]
  let s := (Machine.exec step Program.init ops).get (by decide)
  have hs : Machine.exec step Program.init ops = some s := (Option.some_get _).symm
  obtain ⟨hrun, hacts⟩ := Machine.exec_trace _ _ _ _ hs
  exact ⟨_, s, hrun, hacts, (lossless hrun (by decide)).1, by decide, by decide⟩

end Program

end Craplib
