import Craplib.Lib.Runs
import Craplib.Data.Placement

/-!
# Copy on write does not isolate handles that share a buffer

`Data::lock` is meant to give its caller a buffer of its own: it copies the bytes
away when `impl.isTheOne()` says that others use the buffer too.  But
`SharedPtr::isTheOne` returns the strong count itself as a `bool`, which is `true`
for every live handle, so `lock` hands out the shared buffer; and the pointer it
hands out is `impl->data`, not `impl->data + position`, so what is written lands
at the beginning of the buffer and not at the handle's own window.

`isolated_iff_harmless` says exactly when a write is still not seen through any
other handle: when no byte it stores falls into the window of another handle of
the same buffer, except where that byte is there already.

A write is taken apart in two steps.  The functions say what they do to the memory
(`Stamped`: bytes of one buffer are replaced; `Untouched`: a fresh buffer was
written), and `step_writes` says the same of an operation of the program.
-/

namespace Craplib

open Memory Effects

namespace Program

/-! ## What can be seen through a handle -/

/-- The size and the bytes seen through a handle. -/
def seen (s : Program) (r : Handle) : Option (ℤ × Option (List Byte)) :=
  (s.handle r).map fun d => (d.size, (Data.bytesFrom s.mem d).bind (bytesAt · d.size))

end Program

/-- The variable an operation writes through in place. -/
def DataOp.writes : DataOp → Option ℕ
  | .fill d _ => some d
  | .copy d _ _ => some d
  | .stores d _ => some d
  | _ => none

namespace Program

/-- **Isolation**: the operation changes neither the size nor the bytes seen
through any handle but the one it writes through. -/
def Isolated (s : Program) (op : DataOp) : Prop :=
  ∀ k s', op.writes = some k → s.step op = some s' → ∀ r, r ≠ .var k → s'.seen r = s.seen r

/-- The byte an in-place write stores at an offset of the buffer it is handed. -/
def stored (s : Program) : DataOp → ℕ → Option Byte
  | .fill d value, i => do
      let self ← Slots.lookup s.vars d
      if (i : ℤ) < self.size then some (byteOf value) else none
  | .copy d pos other, i => do
      let self ← Slots.lookup s.vars d
      let arg ← Slots.lookup s.vars other
      if 0 ≤ pos ∧ pos ≤ self.size ∧ pos ≤ i ∧ i < pos + min (self.size - pos) arg.size then
        (Data.bytesFrom s.mem arg).bind fun bs => bs[i - pos.toNat]?
      else
        none
  | .stores _ bs, i => bs.reverse.lookup i
  | _, _ => none

/-- No byte the operation stores changes what another handle of the same buffer
shows, or `isTheOne` makes `lock` copy the buffer first. -/
def Harmless (s : Program) (op : DataOp) : Prop :=
  ∀ k d, op.writes = some k → Slots.lookup s.vars k = some d →
    d.impl.isTheOne s.mem.heap = some true →
      ∀ r e, r ≠ .var k → s.handle r = some e → e.impl.ptr.pObj = d.impl.ptr.pObj →
        ∀ i : ℕ, e.position ≤ i → i < e.position + e.size → ∀ b, s.stored op i = some b →
          (s.mem.deref d.impl).bind (fun buf => buf.data[i]?) = some b

end Program

/-! ## What a write does to a buffer -/

theorem getElem?_overwrite {buf bs : List Byte} {offset : ℕ} (h : offset + bs.length ≤ buf.length)
    (i : ℕ) : (Mem.overwrite buf offset bs)[i]? =
      (if offset ≤ i then bs[i - offset]? else none).or buf[i]? := by
  have htake : (buf.take offset).length = offset := by simp; omega
  unfold Mem.overwrite
  rw [List.append_assoc]
  by_cases hlo : i < offset
  · rw [List.getElem?_append_left (by omega), List.getElem?_take_of_lt hlo,
      if_neg (Nat.not_le_of_lt hlo), Option.none_or]
  · rw [List.getElem?_append_right (by omega), htake, if_pos (by omega)]
    by_cases hin : i - offset < bs.length
    · rw [List.getElem?_append_left hin, List.getElem?_eq_getElem hin, Option.some_or]
    · rw [List.getElem?_append_right (by omega), List.getElem?_drop,
        List.getElem?_eq_none (Nat.le_of_not_lt hin), Option.none_or]
      congr 1
      omega

/-- Two lists show the same window exactly when they agree inside it. -/
theorem window_eq_iff {α : Type} (l l' : List α) (p n : ℕ) :
    (l'.drop p).take n = (l.drop p).take n ↔ ∀ i, p ≤ i → i < p + n → l'[i]? = l[i]? := by
  constructor
  · intro h i hp hi
    have hat := congrArg (·[i - p]?) h
    have hlt : i - p < n := by omega
    have hadd : p + (i - p) = i := by omega
    simpa [List.getElem?_take_of_lt hlt, hadd] using hat
  · intro h
    apply List.ext_getElem?
    intro j
    by_cases hj : j < n
    · rw [List.getElem?_take_of_lt hj, List.getElem?_take_of_lt hj, List.getElem?_drop,
        List.getElem?_drop, h (p + j) (by omega) (by omega)]
    · rw [List.getElem?_take_eq_none (Nat.le_of_not_lt hj),
        List.getElem?_take_eq_none (Nat.le_of_not_lt hj)]

/-- The bytes `plan` has replaced those of the buffer `p` points to, and nothing else
has changed. -/
def Stamped (p : SharedPtr) (plan : ℕ → Option Byte) (m m' : Mem) : Prop :=
  ∃ n b b', p.ptr.pObj = some n ∧ n ∉ m.heap.deleted ∧ Slots.lookup m.impls n = some b ∧
    b'.size = b.size ∧ (∀ i, b'.data[i]? = (plan i).or b.data[i]?) ∧
    m' = { m with impls := Slots.put m.impls n b' }

/-- The first `n` buffers are as they were, and none of them has been deleted. -/
def Untouched (n : ℕ) (m m' : Mem) : Prop :=
  m'.heap.deleted = m.heap.deleted ∧
    ∀ i, i < n → Slots.lookup m'.impls i = Slots.lookup m.impls i

theorem Untouched.trans {n : ℕ} {m m' m'' : Mem} (h : Untouched n m m')
    (h' : Untouched n m' m'') : Untouched n m m'' :=
  ⟨h'.1.trans h.1, fun i hi => (h'.2 i hi).trans (h.2 i hi)⟩

namespace Stamped

variable {p : SharedPtr} {m m' m'' : Mem} {plan plan' : ℕ → Option Byte}

theorem of_write {offset : ℤ} {bs : List Byte} (h : m.write p offset bs = some m') :
    Stamped p (fun i => if offset.toNat ≤ i then bs[i - offset.toNat]? else none) m m' := by
  obtain ⟨n, b, b', hn, hderef, hb, -, hlen, hdata, hsize, rfl⟩ := Mem.write_eq_some h
  have halive := (Mem.alive_of_deref hderef hn).1
  refine ⟨n, b, b', hn, halive, hb, hsize, fun i => ?_, rfl⟩
  rw [hdata]
  exact getElem?_overwrite hlen i

theorem congr (h : Stamped p plan m m') (heq : ∀ i, plan i = plan' i) : Stamped p plan' m m' :=
  funext heq ▸ h

/-- A later write covers an earlier one. -/
theorem trans (h : Stamped p plan m m') (h' : Stamped p plan' m' m'') :
    Stamped p (fun i => (plan' i).or (plan i)) m m'' := by
  obtain ⟨n, b, b', hn, halive, hb, hsize, hdata, rfl⟩ := h
  obtain ⟨n', c, c', hn', -, hc, hsize', hdata', rfl⟩ := h'
  obtain rfl : n = n' := Option.some.inj (hn.symm.trans hn')
  obtain rfl : b' = c := Option.some.inj ((Slots.lookup_put_self b' hb).symm.trans hc)
  refine ⟨n, b, c', hn, halive, hb, hsize'.trans hsize, fun i => ?_, ?_⟩
  · rw [hdata' i, hdata i, Option.or_assoc]
  · simp [Slots.put]

/-- A buffer made later than the first `k` is not one of them. -/
theorem untouched {k : ℕ} (h : Stamped p plan m m') (hk : ∀ n, p.ptr.pObj = some n → k ≤ n) :
    Untouched k m m' := by
  obtain ⟨n, b, b', hn, -, -, -, -, rfl⟩ := h
  have hkn := hk n hn
  exact ⟨rfl, fun i hi => Slots.lookup_put_ne b' (by omega)⟩

end Stamped

namespace Data

variable {m m' : Mem} {d : Data}

/-- A destructor that reads a strong count of zero deletes nothing. -/
theorem deleted_of_isTheOne_false {p : SharedPtr} {h h' : Heap}
    (hone : p.isTheOne h = some false) (hd : p.destroy h = some h') :
    h'.deleted = h.deleted := by
  obtain ⟨c, hc, hzero⟩ := Option.bind_eq_some_iff.mp hone
  have hsc : c.sc = 0 := by simpa using hzero
  obtain ⟨h₁, hdetach, hweak⟩ := Option.bind_eq_some_iff.mp hd
  obtain ⟨c', hc', hst⟩ := Option.bind_eq_some_iff.mp hdetach
  obtain rfl : c = c' := Option.some.inj (hc.symm.trans hc')
  have hne : interlockedDecrement c.sc ≠ 0 := by
    rw [hsc]
    decide
  simp only [hne, if_false] at hst
  obtain rfl := Option.some.inj hst
  obtain ⟨cw, -, hst⟩ := Option.bind_eq_some_iff.mp hweak
  dsimp only at hst
  split at hst
  · unfold Heap.deleteCounters at hst
    split at hst
    · simp at hst
    · obtain rfl := Option.some.inj hst
      rfl
  · obtain rfl := Option.some.inj hst
    rfl

/-- Making a counter block leaves the other blocks alone. -/
theorem deref_ofPtr {o : Option ℕ} {p : SharedPtr} {h h' : Heap} {b : CountersPtr}
    {c : Counters} (hp : SharedPtr.ofPtr o h = some (p, h')) (hc : h.deref b = some c) :
    h'.deref b = some c := by
  obtain ⟨⟨w, h₁⟩, hw, hrest⟩ := Option.bind_eq_some_iff.mp hp
  obtain ⟨h₂, ha, heq⟩ := Option.bind_eq_some_iff.mp hrest
  obtain ⟨rfl, rfl⟩ := Prod.mk.inj (Option.some.inj heq)
  obtain ⟨h₃, hattach, heq⟩ := Option.bind_eq_some_iff.mp hw
  obtain ⟨rfl, rfl⟩ := Prod.mk.inj (Option.some.inj heq)
  obtain ⟨cw, -, hst⟩ := Option.bind_eq_some_iff.mp hattach
  obtain ⟨cs, -, hst'⟩ := Option.bind_eq_some_iff.mp ha
  obtain rfl := Option.some.inj hst
  obtain rfl := Option.some.inj hst'
  have hlt := Heap.deref_lt hc
  rw [Heap.deref_store_ne _ hlt.ne, Heap.deref_store_ne _ hlt.ne]
  exact (Slots.lookup_insert_of_lt _ hlt).trans hc

theorem newImpl_cases {size : ℤ} {raw : List Byte} {r : Except Thrown SharedPtr}
    (h : newImpl size raw m = some (r, m')) :
    (∃ e, r = .error e ∧ m' = m) ∨
      ∃ p, r = .ok p ∧ p.ptr.pObj = some m.impls.length ∧ Untouched m.impls.length m m' ∧
        ∀ b c, m.heap.deref b = some c → m'.heap.deref b = some c := by
  unfold newImpl at h
  rcases hmake : Impl.make size raw with e | b
  · rw [hmake] at h
    obtain ⟨rfl, rfl⟩ := Eff.throw_eq_some.mp h
    exact Or.inl ⟨_, rfl, rfl⟩
  · rw [hmake] at h
    obtain ⟨p, hp, rfl⟩ := Eff.ofState_eq_some.mp h
    obtain ⟨⟨q, h'⟩, hq, heq⟩ := Option.bind_eq_some_iff.mp hp
    obtain ⟨rfl, rfl⟩ := Prod.mk.inj (Option.some.inj heq)
    obtain ⟨hobj, hdel⟩ := SharedPtr.ofPtr_obj hq
    exact Or.inr ⟨q, rfl, hobj, ⟨hdel, fun i hi => Slots.lookup_insert_of_lt _ hi⟩,
      fun b c hc => deref_ofPtr hq hc⟩

theorem mkBytes_cases {size : ℤ} {data : List Byte} {r : Except Thrown Data}
    (h : mkBytes size data m = some (r, m')) :
    (∃ e, r = .error e ∧ m' = m) ∨
      ∃ x, r = .ok x ∧ x.impl.ptr.pObj = some m.impls.length ∧ Untouched m.impls.length m m' ∧
        ∀ b c, m.heap.deref b = some c → m'.heap.deref b = some c := by
  unfold mkBytes at h
  rcases Eff.bind_eq_some.mp h with ⟨e, hnew, rfl⟩ | ⟨p, m₁, hnew, hrest⟩
  · rcases newImpl_cases hnew with ⟨e', -, rfl⟩ | ⟨p, hp, -⟩
    · exact Or.inl ⟨e, rfl, rfl⟩
    · simp at hp
  · rcases newImpl_cases hnew with ⟨e', he, -⟩ | ⟨p', hp, hobj, hsame, hheap⟩
    · simp at he
    · obtain rfl := Except.ok.inj hp
      obtain ⟨_, m₂, hmove, hret⟩ := Eff.bind_ofState_eq_some.mp hrest
      obtain ⟨rfl, rfl⟩ := Eff.pure_eq_some.mp hret
      obtain ⟨bs, -, hmove'⟩ := Option.bind_eq_some_iff.mp hmove
      obtain ⟨m₃, hw, heq⟩ := Option.bind_eq_some_iff.mp hmove'
      obtain ⟨-, rfl⟩ := Prod.mk.inj (Option.some.inj heq)
      -- what was moved went to the new buffer
      have hfresh : Untouched m.impls.length m₁ m₃ :=
        (Stamped.of_write hw).untouched fun n hn => by
          rw [hobj] at hn
          exact (Option.some.inj hn).le
      obtain ⟨n, b, b', -, -, -, -, -, -, -, rfl⟩ := Mem.write_eq_some hw
      exact Or.inr ⟨_, rfl, hobj, hsame.trans hfresh, hheap⟩

/-- **What `lock` does.**  It returns at once when `isTheOne` says so.  Otherwise the
handle it leaves is on a buffer made after all others, or the copy threw. -/
theorem lock_cases {r : Except Thrown Data} (h : d.lock m = some (r, m')) :
    (d.impl.isTheOne m.heap = some true ∧ r = .ok d ∧ m' = m) ∨
      (d.impl.isTheOne m.heap = some false ∧ Untouched m.impls.length m m' ∧
        ∀ x, r = .ok x → x.impl.ptr.pObj = some m.impls.length) := by
  unfold lock at h
  obtain ⟨one, hone, hrest⟩ := Eff.bind_ofReader_eq_some.mp h
  cases one with
  | true =>
      obtain ⟨rfl, rfl⟩ := Eff.pure_eq_some.mp hrest
      exact Or.inl ⟨hone, rfl, rfl⟩
  | false =>
      right
      refine ⟨hone, ?_⟩
      rw [if_neg Bool.false_ne_true] at hrest
      obtain ⟨bs, -, hcopy⟩ := Eff.bind_ofReader_eq_some.mp hrest
      rcases Eff.bind_eq_some.mp hcopy with ⟨e, hmk, rfl⟩ | ⟨da, m₃, hmk, hswap⟩
      · rcases mkBytes_cases hmk with ⟨e', -, rfl⟩ | ⟨x, hx, -⟩
        · exact ⟨⟨rfl, fun _ _ => rfl⟩, fun _ hx => by simp at hx⟩
        · simp at hx
      · rcases mkBytes_cases hmk with ⟨e', he, -⟩ | ⟨x, hx, hobj, hsame, hheap⟩
        · simp at he
        · obtain rfl := Except.ok.inj hx
          obtain ⟨_, m₄, hdrop, hret⟩ := Eff.bind_ofState_eq_some.mp hswap
          obtain ⟨rfl, rfl⟩ := Eff.pure_eq_some.mp hret
          obtain ⟨⟨_, h₄⟩, hdrop', heq⟩ := Option.map_eq_some_iff.mp hdrop
          obtain ⟨h₅, hd, heq'⟩ := Option.map_eq_some_iff.mp hdrop'
          obtain ⟨-, rfl⟩ := Prod.mk.inj heq
          obtain ⟨-, rfl⟩ := Prod.mk.inj heq'
          -- the handle on the old buffer goes: its strong count still reads zero
          obtain ⟨c, hc, hzero⟩ := Option.bind_eq_some_iff.mp hone
          have hone₃ : d.impl.isTheOne m₃.heap = some false :=
            Option.bind_eq_some_iff.mpr ⟨c, hheap _ _ hc, hzero⟩
          refine ⟨hsame.trans ⟨deleted_of_isTheOne_false hone₃ hd, fun _ _ => rfl⟩, ?_⟩
          rintro x' hx'
          obtain rfl := Except.ok.inj hx'
          exact hobj

/-- What an in-place write through `d` can come to: nothing (it threw, or had nothing
to store), the stores of `plan` on the buffer of `d`, or work on a fresh buffer. -/
def Wrote (d : Data) (plan : ℕ → Option Byte) (m m' : Mem) : Prop :=
  (m' = m ∧ ∀ i, plan i = none) ∨
    (d.impl.isTheOne m.heap = some true ∧ Stamped d.impl plan m m') ∨
      (d.impl.isTheOne m.heap = some false ∧ Untouched m.impls.length m m')

/-- A write through a handle that is on a fresh buffer. -/
theorem untouched_of_fresh {m₁ : Mem} {x : Data} {plan : ℕ → Option Byte}
    (hobj : x.impl.ptr.pObj = some m.impls.length) (hsame : Untouched m.impls.length m m₁)
    (hw : Stamped x.impl plan m₁ m') : Untouched m.impls.length m m' := by
  refine hsame.trans (hw.untouched fun n hn => ?_)
  rw [hobj] at hn
  exact (Option.some.inj hn).le

theorem fill_wrote {value : ℤ} {r : Except Thrown Data} (h : d.fill value m = some (r, m')) :
    Wrote d (fun i => if (i : ℤ) < d.size then some (byteOf value) else none) m m' := by
  unfold fill at h
  right
  rcases Eff.bind_eq_some.mp h with ⟨e, hlock, rfl⟩ | ⟨x, m₁, hlock, hrest⟩
  · rcases lock_cases hlock with ⟨-, he, -⟩ | ⟨hone, hsame, -⟩
    · simp at he
    · exact Or.inr ⟨hone, hsame⟩
  · obtain ⟨_, m₂, hset, hret⟩ := Eff.bind_ofState_eq_some.mp hrest
    obtain ⟨rfl, rfl⟩ := Eff.pure_eq_some.mp hret
    split at hset
    · next hsize =>
        obtain ⟨m₃, hw, heq⟩ := Option.map_eq_some_iff.mp hset
        obtain ⟨-, rfl⟩ := Prod.mk.inj heq
        rcases lock_cases hlock with ⟨hone, hx, rfl⟩ | ⟨hone, hsame, hobj⟩
        · obtain rfl := Except.ok.inj hx
          refine Or.inl ⟨hone, (Stamped.of_write hw).congr fun i => ?_⟩
          simp only [Int.toNat_zero, Nat.zero_le, if_true, Nat.sub_zero, List.getElem?_replicate]
          congr 1
          simp only [eq_iff_iff]
          omega
        · exact Or.inr ⟨hone, untouched_of_fresh (hobj x rfl) hsame (Stamped.of_write hw)⟩
    · simp at hset

/-- The bytes `copy` stores, given the handle they are read through. -/
def copied (m : Mem) (d : Data) (pos : ℤ) (arg : Data) (i : ℕ) : Option Byte :=
  if 0 ≤ pos ∧ pos ≤ d.size ∧ pos ≤ i ∧ i < pos + min (d.size - pos) arg.size then
    (bytesFrom m arg).bind fun bs => bs[i - pos.toNat]?
  else
    none

theorem copy_wrote {pos : ℤ} {other : Option Data} {r : Except Thrown (ℤ × Data)}
    (h : d.copy pos other m = some (r, m')) :
    Wrote d (copied m d pos (other.getD d)) m m' := by
  unfold copy checkPosition at h
  by_cases hpos : pos < 0 ∨ pos > d.size
  · rw [if_pos hpos] at h
    obtain ⟨rfl, rfl⟩ := Eff.throw_eq_some.mp h
    exact Or.inl ⟨rfl, fun i => if_neg (by omega)⟩
  · rw [if_neg hpos] at h
    right
    rcases Eff.bind_eq_some.mp h with ⟨e, hlock, rfl⟩ | ⟨x, m₁, hlock, hrest⟩
    · rcases lock_cases hlock with ⟨-, he, -⟩ | ⟨hone, hsame, -⟩
      · simp at he
      · exact Or.inr ⟨hone, hsame⟩
    · obtain ⟨bs, hbs, hrest'⟩ := Eff.bind_ofReader_eq_some.mp hrest
      obtain ⟨_, m₂, hmove, hret⟩ := Eff.bind_ofState_eq_some.mp hrest'
      obtain ⟨rfl, rfl⟩ := Eff.pure_eq_some.mp hret
      obtain ⟨bs', hbs', hmove'⟩ := Option.bind_eq_some_iff.mp hmove
      obtain ⟨m₃, hw, heq⟩ := Option.bind_eq_some_iff.mp hmove'
      obtain ⟨-, rfl⟩ := Prod.mk.inj (Option.some.inj heq)
      rcases lock_cases hlock with ⟨hone, hx, rfl⟩ | ⟨hone, hsame, hobj⟩
      · obtain rfl := Except.ok.inj hx
        refine Or.inl ⟨hone, (Stamped.of_write hw).congr fun i => ?_⟩
        unfold bytesAt at hbs'
        split at hbs'
        · next hlen =>
            obtain rfl := Option.some.inj hbs'
            simp only [copied, hbs, Option.bind_some, List.getElem?_take]
            grind
        · simp at hbs'
      · exact Or.inr ⟨hone, untouched_of_fresh (hobj x rfl) hsame (Stamped.of_write hw)⟩

theorem stores_stamped {bs : List (ℕ × Byte)} {r : Except Thrown Unit}
    (h : d.stores bs m = some (r, m')) :
    (m' = m ∧ bs = []) ∨ Stamped d.impl (fun i => bs.reverse.lookup i) m m' := by
  induction bs generalizing m with
  | nil =>
      obtain ⟨-, rfl⟩ := Eff.pure_eq_some.mp h
      exact Or.inl ⟨rfl, rfl⟩
  | cons p rest ih =>
      right
      obtain ⟨_, m₁, hone, hrest⟩ := Eff.bind_ofState_eq_some.mp h
      obtain ⟨m₂, hw, heq⟩ := Option.map_eq_some_iff.mp hone
      obtain ⟨-, rfl⟩ := Prod.mk.inj heq
      have hfirst : Stamped d.impl (fun i => [p].lookup i) m m₂ := by
        refine (Stamped.of_write hw).congr fun i => ?_
        obtain ⟨j, b⟩ := p
        simp only [List.lookup_cons, List.lookup_nil, Int.toNat_natCast]
        grind
      rcases ih hrest with ⟨rfl, rfl⟩ | hlater
      · exact hfirst
      · refine (hfirst.trans hlater).congr fun i => ?_
        rw [List.reverse_cons, List.lookup_append]

theorem stores_wrote {bs : List (ℕ × Byte)} {r : Except Thrown Data}
    (h : (do let self ← d.lock; self.stores bs; return self : DataM Data) m = some (r, m')) :
    Wrote d (fun i => bs.reverse.lookup i) m m' := by
  rcases Eff.bind_eq_some.mp h with ⟨e, hlock, rfl⟩ | ⟨x, m₁, hlock, hrest⟩
  · rcases lock_cases hlock with ⟨-, he, -⟩ | ⟨hone, hsame, -⟩
    · simp at he
    · exact Or.inr (Or.inr ⟨hone, hsame⟩)
  · have hstores : ∃ r₁, x.stores bs m₁ = some (r₁, m') := by
      rcases Eff.bind_eq_some.mp hrest with ⟨e, hst, -⟩ | ⟨u, m₂, hst, hret⟩
      · exact ⟨_, hst⟩
      · obtain ⟨-, rfl⟩ := Eff.pure_eq_some.mp hret
        exact ⟨_, hst⟩
    obtain ⟨r₁, hst⟩ := hstores
    rcases lock_cases hlock with ⟨hone, hx, rfl⟩ | ⟨hone, hsame, hobj⟩
    · obtain rfl := Except.ok.inj hx
      rcases stores_stamped hst with ⟨rfl, rfl⟩ | hstamp
      · exact Or.inl ⟨rfl, fun _ => rfl⟩
      · exact Or.inr (Or.inl ⟨hone, hstamp⟩)
    · rcases stores_stamped hst with ⟨rfl, -⟩ | hstamp
      · exact Or.inr (Or.inr ⟨hone, hsame⟩)
      · exact Or.inr (Or.inr ⟨hone, untouched_of_fresh (hobj x rfl) hsame hstamp⟩)

/-! ## What the other handles show -/

/-- The bytes a placed handle shows. -/
def shown (m : Mem) (d : Data) : Option (List Byte) := (bytesFrom m d).bind (bytesAt · d.size)

/-- A handle shows the bytes of its window, when its buffer is alive. -/
theorem shown_eq {n : ℕ} {b : Impl} (hn : d.impl.ptr.pObj = some n) (halive : n ∉ m.heap.deleted)
    (hb : Slots.lookup m.impls n = some b) (hpos : 0 ≤ d.position) (hle : d.position ≤ b.size)
    (hend : d.position + d.size ≤ b.size) :
    shown m d =
      if 0 ≤ d.size then some ((b.data.drop d.position.toNat).take d.size.toNat) else none := by
  have hderef : m.deref d.impl = some b := Mem.deref_eq_some.mpr ⟨n, hn, halive, hb⟩
  have hsize := b.size_eq
  have hbytes : bytesFrom m d = some (b.data.drop d.position.toNat) :=
    bytesFrom_eq_some.mpr ⟨b, hderef, hpos, by omega, rfl⟩
  rw [shown, hbytes, Option.bind_some, bytesAt, List.length_drop]
  by_cases hs : 0 ≤ d.size
  · rw [if_pos hs, if_pos ⟨hs, by omega⟩]
  · rw [if_neg hs, if_neg fun h => hs h.1]

/-- Buffers that were not touched show what they showed. -/
theorem shown_of_untouched (hd : d.Placed m) (h : Untouched m.impls.length m m') :
    shown m' d = shown m d := by
  obtain ⟨n, b, hn, hb, -⟩ := hd
  have hderef : m'.deref d.impl = m.deref d.impl := by
    simp only [Mem.deref, hn, Option.bind_eq_bind, Option.bind_some, h.1,
      h.2 n (Slots.lookup_lt hb)]
  simp only [shown, bytesFrom, hderef]

/-- A buffer other than the one written shows what it showed. -/
theorem shown_of_other {p : SharedPtr} {plan : ℕ → Option Byte} (h : Stamped p plan m m')
    (hne : d.impl.ptr.pObj ≠ p.ptr.pObj) : shown m' d = shown m d := by
  obtain ⟨n, b, b', hn, -, -, -, -, rfl⟩ := h
  have hderef : Mem.deref { m with impls := Slots.put m.impls n b' } d.impl = m.deref d.impl := by
    unfold Mem.deref
    rcases hx : d.impl.ptr.pObj with _ | x
    · rfl
    · have hxn : x ≠ n := fun heq => hne (by rw [hx, hn, heq])
      simp only [Option.bind_eq_bind, Option.bind_some, Slots.lookup_put_ne b' hxn]
  simp only [shown, bytesFrom, hderef]

/-- **A handle of the written buffer** shows what it showed exactly when the bytes
stored inside its window were there already. -/
theorem shown_iff {p : SharedPtr} {plan : ℕ → Option Byte} (h : Stamped p plan m m')
    (hobj : d.impl.ptr.pObj = p.ptr.pObj) (hd : d.Placed m) :
    shown m' d = shown m d ↔
      ∀ i : ℕ, d.position ≤ i → i < d.position + d.size → ∀ c, plan i = some c →
        (m.deref p).bind (fun buf => buf.data[i]?) = some c := by
  obtain ⟨n, b, b', hn, halive, hb, hsize, hdata, rfl⟩ := h
  obtain ⟨n', c, hn', hc, hpos, hle, hend⟩ := hd
  have hp : d.impl.ptr.pObj = some n := hobj.trans hn
  obtain rfl : n = n' := Option.some.inj (hp.symm.trans hn')
  obtain rfl : b = c := Option.some.inj (hb.symm.trans hc)
  have hderef : m.deref p = some b := Mem.deref_eq_some.mpr ⟨n, hn, halive, hb⟩
  have hnow : shown { m with impls := Slots.put m.impls n b' } d =
      if 0 ≤ d.size then some ((b'.data.drop d.position.toNat).take d.size.toNat) else none :=
    shown_eq hp halive (Slots.lookup_put_self b' hb) hpos (by omega) (by omega)
  rw [shown_eq hp halive hb hpos hle hend, hnow, hderef]
  have hsame : ∀ i : ℕ, (b'.data[i]? = b.data[i]? ↔
      ∀ c, plan i = some c → b.data[i]? = some c) := by
    intro i
    rw [hdata i]
    rcases plan i with _ | x
    · simp
    · simp [eq_comm]
  by_cases hs : 0 ≤ d.size
  · rw [if_pos hs, if_pos hs, Option.some.injEq, window_eq_iff]
    constructor
    · intro h i hlo hhi
      exact (hsame i).mp (h i (by omega) (by omega))
    · intro h i hlo hhi
      exact (hsame i).mpr (h i (by omega) (by omega))
  · rw [if_neg hs, if_neg hs]
    exact ⟨fun _ i hlo hhi => absurd hhi (by omega), fun _ => rfl⟩

end Data

namespace Program

/-! ## One operation -/

variable {s s' : Program}

theorem run_cases {α : Type} {x : DataM α} {k : α → Program → Program}
    (h : s.run x k = some s') : ∃ r m, x s.mem = some (r, m) ∧
      ((∃ a, r = .ok a ∧ s' = k a { s with mem := m }) ∨ s' = { s with mem := m }) := by
  unfold run at h
  rcases hres : x s.mem with _ | ⟨e | a, m⟩
  · simp [hres] at h
  · simp only [hres, Option.some.injEq] at h
    exact ⟨_, m, rfl, Or.inr h.symm⟩
  · simp only [hres, Option.some.injEq] at h
    exact ⟨_, m, rfl, Or.inl ⟨a, rfl, h.symm⟩⟩

/-- A computation whose result goes back into variable `d` leaves the other handles. -/
theorem run_put {α : Type} {x : DataM α} {f : α → Data} {d : ℕ}
    (h : s.run x (fun a s => { s with vars := Slots.put s.vars d (f a) }) = some s') :
    (∃ r, x s.mem = some (r, s'.mem)) ∧ ∀ r, r ≠ .var d → s'.handle r = s.handle r := by
  obtain ⟨r, m, hx, ⟨a, -, rfl⟩ | rfl⟩ := run_cases h
  · refine ⟨⟨r, hx⟩, fun r hr => ?_⟩
    cases r with
    | var k => exact Slots.lookup_put_ne (f a) fun heq => hr (congrArg Handle.var heq)
    | elem q i => rfl
  · exact ⟨⟨r, hx⟩, fun _ _ => rfl⟩

/-- What an operation that writes in place does to the memory and the handles. -/
theorem step_writes {op : DataOp} {k : ℕ} (hstep : s.step op = some s')
    (hop : op.writes = some k) : ∃ d, Slots.lookup s.vars k = some d ∧
      (∀ r, r ≠ .var k → s'.handle r = s.handle r) ∧
      d.Wrote (s.stored op) s.mem s'.mem := by
  cases op with
  | fill d value =>
      obtain rfl : d = k := Option.some.inj hop
      obtain ⟨self, hself, hrun⟩ := Option.bind_eq_some_iff.mp hstep
      obtain ⟨⟨r, hx⟩, hother⟩ := run_put hrun
      refine ⟨self, hself, hother, ?_⟩
      have hplan : s.stored (.fill d value) =
          fun i : ℕ => if (i : ℤ) < self.size then some (byteOf value) else none := by
        funext i
        simp [stored, hself]
      rw [hplan]
      exact Data.fill_wrote hx
  | copy d pos other =>
      obtain rfl : d = k := Option.some.inj hop
      obtain ⟨self, hself, hrest⟩ := Option.bind_eq_some_iff.mp hstep
      obtain ⟨arg, harg, hrun⟩ := Option.bind_eq_some_iff.mp hrest
      obtain ⟨⟨r, hx⟩, hother⟩ := run_put hrun
      refine ⟨self, hself, hother, ?_⟩
      have hplan : s.stored (.copy d pos other) =
          Data.copied s.mem self pos ((if other = d then none else some arg).getD self) := by
        funext i
        by_cases hsame : other = d
        · subst hsame
          obtain rfl : self = arg := Option.some.inj (hself.symm.trans harg)
          simp [stored, Data.copied, hself]
        · simp [stored, Data.copied, hself, harg, hsame]
      rw [hplan]
      exact Data.copy_wrote hx
  | stores d bs =>
      obtain rfl : d = k := Option.some.inj hop
      obtain ⟨self, hself, hrun⟩ := Option.bind_eq_some_iff.mp hstep
      split at hrun
      · obtain ⟨⟨r, hx⟩, hother⟩ := run_put hrun
        exact ⟨self, hself, hother, Data.stores_wrote hx⟩
      · simp at hrun
  | mkDefault | mkSize | mkBytes | mkCopy | mkSlice | assign | swap | destroy | getByte
  | dequeNew | dequeWrite | dequeRead | dequeReadMax | dequeDestroy => simp [DataOp.writes] at hop

/-- **One write is isolated exactly when it is harmless.** -/
theorem isolated_iff (h : s.Placed) {op : DataOp} (hstep : s.step op = some s') :
    s.Isolated op ↔ s.Harmless op := by
  rcases hop : op.writes with _ | k
  · constructor
    · intro _ k d hk
      rw [hop] at hk
      simp at hk
    · intro _ k s'' hk
      rw [hop] at hk
      simp at hk
  obtain ⟨d, hd, hother, hwrote⟩ := step_writes hstep hop
  -- only the bytes shown can differ: the other handles are the same windows
  have hseen : s.Isolated op ↔ ∀ r e, r ≠ .var k → s.handle r = some e →
      Data.shown s'.mem e = Data.shown s.mem e := by
    constructor
    · intro hiso r e hr he
      have hsame := hiso k s' hop hstep r hr
      have he' : s'.handle r = some e := (hother r hr).trans he
      rw [seen, seen, he, he'] at hsame
      exact (Prod.mk.inj (Option.some.inj hsame)).2
    · intro hall k' s'' hk' hstep'' r hr
      obtain rfl : k = k' := Option.some.inj (hop.symm.trans hk')
      obtain rfl : s' = s'' := Option.some.inj (hstep.symm.trans hstep'')
      rw [seen, seen, hother r hr]
      rcases he : s.handle r with _ | e
      · rfl
      · exact congrArg some (Prod.ext rfl (hall r e hr he))
  rw [hseen]
  have hharmless : s.Harmless op ↔ (d.impl.isTheOne s.mem.heap = some true →
      ∀ r e, r ≠ .var k → s.handle r = some e → e.impl.ptr.pObj = d.impl.ptr.pObj →
        ∀ i : ℕ, e.position ≤ i → i < e.position + e.size → ∀ b, s.stored op i = some b →
          (s.mem.deref d.impl).bind (fun buf => buf.data[i]?) = some b) := by
    constructor
    · exact fun hh => hh k d hop hd
    · intro hh k' d' hk' hd'
      obtain rfl : k = k' := Option.some.inj (hop.symm.trans hk')
      obtain rfl : d = d' := Option.some.inj (hd.symm.trans hd')
      exact hh
  rw [hharmless]
  rcases hwrote with ⟨hm, hnone⟩ | ⟨hone, hstamp⟩ | ⟨hone, hsame⟩
  · -- nothing was written
    rw [hm]
    constructor
    · intro _ _ r e _ _ _ i _ _ b hb
      rw [hnone i] at hb
      simp at hb
    · exact fun _ _ _ _ _ => rfl
  · -- the shared buffer was written
    constructor
    · intro hall _ r e hr he hobj
      exact (Data.shown_iff hstamp hobj (h.handle he)).mp (hall r e hr he)
    · intro hh r e hr he
      by_cases hobj : e.impl.ptr.pObj = d.impl.ptr.pObj
      · exact (Data.shown_iff hstamp hobj (h.handle he)).mpr (hh hone r e hr he hobj)
      · exact Data.shown_of_other hstamp hobj
  · -- a fresh buffer was written
    constructor
    · intro _ htrue
      rw [hone] at htrue
      simp at htrue
    · exact fun _ r e _ he => Data.shown_of_untouched (h.handle he) hsame

/-! ## Whole runs -/

/-- **Isolation along a run.**  In every run, every in-place write leaves what every
other handle shows as it was, exactly when every one of them is harmless. -/
theorem isolated_iff_harmless {tr : List (Program × DataOp)}
    (hrun : Machine.Run (Machine.Fires step) Program.init tr s) :
    (∀ p ∈ tr, p.1.Isolated p.2) ↔ ∀ p ∈ tr, p.1.Harmless p.2 := by
  have hstep : ∀ p ∈ tr, p.1.Isolated p.2 ↔ p.1.Harmless p.2 := by
    intro p hp
    obtain ⟨pre, post, t, -, hpre, hfire, -⟩ := hrun.of_mem hp
    have hplaced : p.1.Placed :=
      Machine.Run.invariant (fun _ _ _ h hs => Placed.step h hs) hpre Placed.init
    exact isolated_iff hplaced hfire
  exact forall₂_congr hstep

/-- Isolation along a run that writes through every kind of handle: a slice is filled
where no other window is, bytes are copied and stored over equal ones. -/
theorem isolated_iff_harmless_example : ∃ tr s,
    Machine.Run (Machine.Fires step) Program.init tr s ∧
    Machine.actions tr = [.mkBytes 3 [7, 7, 5], .mkSlice 0 2 1, .mkCopy 1, .swap 0 2, .fill 1 7,
      .copy 1 0 2, .stores 0 [(0, 7)], .dequeNew, .dequeWrite 0 0, .dequeReadMax 0 1 0] ∧
    ((∀ p ∈ tr, p.1.Isolated p.2) ↔ ∀ p ∈ tr, p.1.Harmless p.2) := by
  have hexec : (Machine.exec step Program.init [.mkBytes 3 [7, 7, 5], .mkSlice 0 2 1, .mkCopy 1,
      .swap 0 2, .fill 1 7, .copy 1 0 2, .stores 0 [(0, 7)], .dequeNew, .dequeWrite 0 0,
      .dequeReadMax 0 1 0]).isSome = true := by decide
  obtain ⟨s, hs⟩ := Option.isSome_iff_exists.mp hexec
  obtain ⟨tr, hrun, hacts⟩ := Machine.exec_run _ _ _ _ hs
  exact ⟨tr, s, hrun, hacts, isolated_iff_harmless hrun⟩

/-- Two variables on one buffer: filling the first is seen through the second. -/
theorem fill_seen_through_copy : ∃ tr s,
    Machine.Run (Machine.Fires step) Program.init tr s ∧
    Machine.actions tr = [.mkBytes 3 [1, 2, 3], .mkCopy 0, .fill 0 9] ∧
    s.seen (.var 1) = some (3, some [9, 9, 9]) ∧ ¬ ∀ p ∈ tr, p.1.Isolated p.2 := by
  let shared : SharedPtr := ⟨⟨some 1, 1⟩⟩
  let before : Program := ⟨⟨⟨[some ⟨1, 1⟩, some ⟨2, 2⟩], []⟩, [none, some ⟨[1, 2, 3], 3, rfl⟩]⟩,
    [some ⟨shared, 0, 3⟩, some ⟨shared, 0, 3⟩], []⟩
  let after : Program := { before with
    mem := { before.mem with impls := [none, some ⟨[9, 9, 9], 3, rfl⟩] } }
  obtain ⟨tr, hrun, hacts⟩ := Machine.exec_run step Program.init
    [.mkBytes 3 [1, 2, 3], .mkCopy 0] before (by decide)
  have hfill : Machine.Fires step before (.fill 0 9) after := by
    show before.step (.fill 0 9) = some after
    decide
  refine ⟨tr ++ [(before, .fill 0 9)], after, .snoc hrun hfill, ?_, by decide, fun hall => ?_⟩
  · rw [Machine.actions_append, hacts]
    rfl
  · have hiso := hall (before, .fill 0 9) (by simp) 0 after rfl hfill (.var 1) (by decide)
    revert hiso
    decide

end Program

end Craplib
