import Craplib.Lib.Runs
import Craplib.Memory.Ledger

/-!
# Shared and weak references are accounted for, unless `lock` succeeds

The law of the two counters: in every state, `sc` of a counter block is the
number of `SharedPtr`s that use it, `wc` the number of handles of either kind,
the object has been deleted once no `SharedPtr` is left, and the block is there
as long as any handle is (`Store.Accounted`).

The source keeps the law in every operation but one.  `SharedPtr(T*, Counters*)`,
the private constructor that only `WeakPtr::lock` uses, default-constructs its
`ptr` and then overwrites the two fields: the weak reference it owes the block is
counted against the static block.  So a `lock` that finds the object alive leaves
`wc` one short for good, and the block is freed while a handle still uses it.

`accounted_iff_no_live_lock` makes that exact: the law holds all along a run
exactly when no `lock` of the run succeeds, as long as the handles of a block are
fewer than a counter can tell apart.
-/

namespace Craplib.Memory

namespace Store

/-- The number of live handles of either kind that use a counter block. -/
def handlesUsing (s : Store) (cnt : CountersPtr) : ℕ := s.sharedUsing cnt + s.weakUsing cnt

/-- The law of the counters, in one state.  The static block is not part of it. -/
structure Accounted (s : Store) : Prop where
  /-- `sc` counts the live `SharedPtr`s. -/
  sc_eq : ∀ cnt c, cnt ≠ forNulls → s.heap.deref cnt = some c → c.sc.toNat = s.sharedUsing cnt
  /-- `wc` counts the live handles of both kinds. -/
  wc_eq : ∀ cnt c, cnt ≠ forNulls → s.heap.deref cnt = some c → c.wc.toNat = s.handlesUsing cnt
  /-- The block is freed when the last handle goes, and not before. -/
  freed_iff : ∀ cnt, cnt ≠ forNulls → (s.heap.deref cnt = none ↔ s.handlesUsing cnt = 0)
  /-- The object is deleted once, when the last `SharedPtr` goes. -/
  deleted_eq : ∀ cnt, cnt ≠ forNulls → cnt < s.heap.blocks.length →
    s.heap.deleted.count cnt = if s.sharedUsing cnt = 0 then 1 else 0

/-- The handles of each block are fewer than the values of a counter. -/
def Fits (s : Store) : Prop := ∀ cnt, cnt ≠ forNulls → s.handlesUsing cnt < counterRange

/-- The operation is a `lock` that finds its object alive: the weak pointer is
not null and the strong counter of its block is not zero. -/
def LocksLive (s : Store) : Op → Prop
  | .lock w => ∃ p c, Slots.lookup s.weak w = some p ∧ p.cnt ≠ forNulls ∧
      s.heap.deref p.cnt = some c ∧ c.sc ≠ 0
  | _ => False

/-- How often the object of each block has been deleted when the law holds. -/
def gone (n : ℕ) (s : ℕ → ℕ) : ℕ → ℕ := fun b => if b < n ∧ s b = 0 then 1 else 0

/-- The law with what it needs to be kept: the counters carry the counts modulo
their width, the counts fit, and every handle is one a constructor made. -/
structure Inv (s : Store) : Prop where
  ledger : Ledger s.heap s.heap.blocks.length s.sharedUsing s.handlesUsing
    (gone s.heap.blocks.length s.sharedUsing)
  shared_made : ∀ p, some p ∈ s.shared → p.ptr.Made s.heap.blocks.length
  weak_made : ∀ w, some w ∈ s.weak → w.Made s.heap.blocks.length
  fits : s.Fits

/-! ## The counts of a table of handles -/

section Counts

variable {α : Type} (key : α → ℕ)

/-- How many objects of a table have each key. -/
def tally (tbl : Slots.Table α) : ℕ → ℕ := fun b => Slots.held (fun a => decide (key a = b)) tbl

theorem tally_insert (tbl : Slots.Table α) (a : α) :
    tally key (Slots.insert tbl a) = gain (tally key tbl) (key a) := by
  funext b
  simp [tally, gain, Slots.held_insert]

theorem tally_put {tbl : Slots.Table α} {i : ℕ} {o : α} (a : α)
    (h : Slots.lookup tbl i = some o) :
    tally key (Slots.put tbl i a) = lose (gain (tally key tbl) (key a)) (key o) := by
  funext b
  have := Slots.held_put (fun a => decide (key a = b)) a h
  simp only [decide_eq_true_eq] at this
  simp only [tally, gain, lose]
  omega

theorem tally_remove {tbl : Slots.Table α} {i : ℕ} {o : α} (h : Slots.lookup tbl i = some o) :
    tally key (Slots.remove tbl i) = lose (tally key tbl) (key o) := by
  funext b
  have := Slots.held_remove (fun a => decide (key a = b)) h
  simp only [decide_eq_true_eq] at this
  simp only [tally, lose]
  omega

theorem tally_pos {tbl : Slots.Table α} {i : ℕ} {o : α} (h : Slots.lookup tbl i = some o) :
    0 < tally key tbl (key o) :=
  Slots.held_pos h (by simp)

theorem tally_eq_zero {tbl : Slots.Table α} {b : ℕ} (h : ∀ a, some a ∈ tbl → key a ≠ b) :
    tally key tbl b = 0 :=
  Slots.held_eq_zero.mpr fun a ha => by simpa using h a ha

/-- Exchanging two objects of a table changes no count. -/
theorem tally_swap {tbl : Slots.Table α} {i j : ℕ} {x y : α}
    (hi : Slots.lookup tbl i = some x) (hj : Slots.lookup tbl j = some y) :
    tally key (Slots.put (Slots.put tbl i y) j x) = tally key tbl := by
  by_cases hij : j = i
  · subst hij
    obtain rfl : x = y := Option.some.inj (hi.symm.trans hj)
    rw [tally_put key _ (Slots.lookup_put_self x hi), tally_put key _ hi]
    simp
  · have hj' : Slots.lookup (Slots.put tbl i y) j = some y :=
      (Slots.lookup_put_ne y hij).trans hj
    have hx := tally_pos key hi
    rw [tally_put key _ hj', tally_put key _ hi, gain_lose, lose_gain]
    simp only [gain]
    omega

end Counts

/-! ## The counts of a store -/

theorem handlesUsing_comm (s : Store) :
    s.handlesUsing = fun x => s.weakUsing x + s.sharedUsing x := by
  funext x
  exact Nat.add_comm _ _

section Updates

variable (s : Store) (h : Heap)

theorem sharedUsing_insert (p : SharedPtr) :
    sharedUsing { s with heap := h, shared := Slots.insert s.shared p } =
      gain s.sharedUsing p.ptr.cnt :=
  tally_insert (fun p : SharedPtr => p.ptr.cnt) s.shared p

theorem weakUsing_insert (w : WeakPtr) :
    weakUsing { s with heap := h, weak := Slots.insert s.weak w } = gain s.weakUsing w.cnt :=
  tally_insert (fun w : WeakPtr => w.cnt) s.weak w

theorem handlesUsing_insert_shared (p : SharedPtr) :
    handlesUsing { s with heap := h, shared := Slots.insert s.shared p } =
      gain s.handlesUsing p.ptr.cnt :=
  (congrArg (fun f x => f x + s.weakUsing x) (sharedUsing_insert s h p)).trans
    (gain_add _ _ _)

theorem handlesUsing_insert_weak (w : WeakPtr) :
    handlesUsing { s with heap := h, weak := Slots.insert s.weak w } =
      gain s.handlesUsing w.cnt := by
  rw [handlesUsing_comm, handlesUsing_comm, weakUsing_insert]
  exact gain_add _ _ _

variable {s}

theorem sharedUsing_pos {i : ℕ} {o : SharedPtr} (ho : Slots.lookup s.shared i = some o) :
    0 < s.sharedUsing o.ptr.cnt :=
  tally_pos (fun p : SharedPtr => p.ptr.cnt) ho

theorem weakUsing_pos {i : ℕ} {o : WeakPtr} (ho : Slots.lookup s.weak i = some o) :
    0 < s.weakUsing o.cnt :=
  tally_pos (fun w : WeakPtr => w.cnt) ho

theorem sharedUsing_put {i : ℕ} {o : SharedPtr} (p : SharedPtr)
    (ho : Slots.lookup s.shared i = some o) :
    sharedUsing { s with heap := h, shared := Slots.put s.shared i p } =
      lose (gain s.sharedUsing p.ptr.cnt) o.ptr.cnt :=
  tally_put (fun p : SharedPtr => p.ptr.cnt) p ho

theorem weakUsing_put {i : ℕ} {o : WeakPtr} (w : WeakPtr)
    (ho : Slots.lookup s.weak i = some o) :
    weakUsing { s with heap := h, weak := Slots.put s.weak i w } =
      lose (gain s.weakUsing w.cnt) o.cnt :=
  tally_put (fun w : WeakPtr => w.cnt) w ho

theorem sharedUsing_remove {i : ℕ} {o : SharedPtr} (ho : Slots.lookup s.shared i = some o) :
    sharedUsing { s with heap := h, shared := Slots.remove s.shared i } =
      lose s.sharedUsing o.ptr.cnt :=
  tally_remove (fun p : SharedPtr => p.ptr.cnt) ho

theorem weakUsing_remove {i : ℕ} {o : WeakPtr} (ho : Slots.lookup s.weak i = some o) :
    weakUsing { s with heap := h, weak := Slots.remove s.weak i } = lose s.weakUsing o.cnt :=
  tally_remove (fun w : WeakPtr => w.cnt) ho

theorem handlesUsing_put_shared {i : ℕ} {o : SharedPtr} (p : SharedPtr)
    (ho : Slots.lookup s.shared i = some o) :
    handlesUsing { s with heap := h, shared := Slots.put s.shared i p } =
      lose (gain s.handlesUsing p.ptr.cnt) o.ptr.cnt := by
  have hpos : 0 < gain s.sharedUsing p.ptr.cnt o.ptr.cnt :=
    Nat.lt_of_lt_of_le (sharedUsing_pos ho) (Nat.le_add_right _ _)
  rw [show s.handlesUsing = fun x => s.sharedUsing x + s.weakUsing x from rfl, ← gain_add,
    ← lose_add _ hpos, ← sharedUsing_put h p ho]
  rfl

theorem handlesUsing_remove_shared {i : ℕ} {o : SharedPtr}
    (ho : Slots.lookup s.shared i = some o) :
    handlesUsing { s with heap := h, shared := Slots.remove s.shared i } =
      lose s.handlesUsing o.ptr.cnt := by
  rw [show s.handlesUsing = fun x => s.sharedUsing x + s.weakUsing x from rfl,
    ← lose_add _ (sharedUsing_pos ho), ← sharedUsing_remove h ho]
  rfl

theorem handlesUsing_put_weak {i : ℕ} {o : WeakPtr} (w : WeakPtr)
    (ho : Slots.lookup s.weak i = some o) :
    handlesUsing { s with heap := h, weak := Slots.put s.weak i w } =
      lose (gain s.handlesUsing w.cnt) o.cnt := by
  have hpos : 0 < gain s.weakUsing w.cnt o.cnt :=
    Nat.lt_of_lt_of_le (weakUsing_pos ho) (Nat.le_add_right _ _)
  rw [handlesUsing_comm, handlesUsing_comm, ← gain_add, ← lose_add _ hpos, weakUsing_put h w ho]
  rfl

theorem handlesUsing_remove_weak {i : ℕ} {o : WeakPtr} (ho : Slots.lookup s.weak i = some o) :
    handlesUsing { s with heap := h, weak := Slots.remove s.weak i } =
      lose s.handlesUsing o.cnt := by
  rw [handlesUsing_comm, handlesUsing_comm, ← lose_add _ (weakUsing_pos ho),
    weakUsing_remove h ho]
  rfl

end Updates

/-! ## Deletions -/

/-- A further reference to an object that is there changes no deletion. -/
theorem gone_gain {n : ℕ} {s : ℕ → ℕ} {b : ℕ} (hs : b ≠ forNulls → 0 < s b) :
    ∀ x, x ≠ forNulls → gone n s x = gone n (gain s b) x := by
  intro x hx
  by_cases hxb : x = b
  · subst hxb
    have := hs hx
    simp [gone]
    omega
  · simp [gone, gain_ne s hxb]

/-- The last reference to an object takes the object with it. -/
theorem bury_gone {n : ℕ} {s : ℕ → ℕ} {b : ℕ} (hn : b < n) (hs : b ≠ forNulls → 0 < s b) :
    ∀ x, x ≠ forNulls → bury s (gone n s) b x = gone n (lose s b) x := by
  intro x hx
  by_cases hxb : x = b
  · subst hxb
    have := hs hx
    by_cases hone : s x = 1
    · simp [bury, gone, hx, hone, hn]
    · have hx0 : s x ≠ 0 := by omega
      have hx1 : ¬ s x ≤ 1 := by omega
      simp [bury, gone, hone, hx0, hx1, Nat.sub_eq_zero_iff_le]
  · rw [gone, lose_ne s hxb, bury]
    split
    · rw [gain_ne _ hxb, gone]
    · rfl

/-- A new object, used once, is not deleted. -/
theorem gone_new {n : ℕ} {s : ℕ → ℕ} (hs : s n = 0) :
    ∀ x, gone n s x = gone (n + 1) (gain s n) x := by
  intro x
  by_cases hx : x = n
  · subst hx
    simp [gone]
  · have hlt : x < n + 1 ↔ x < n := by omega
    simp [gone, gain_ne s hx, hlt]

end Store

theorem WeakPtr.Made.mono {n m : ℕ} {p : WeakPtr} (h : p.Made n) (hnm : n ≤ m) : p.Made m :=
  ⟨Nat.lt_of_lt_of_le h.1 hnm, h.2⟩

theorem WeakPtr.made_null {n : ℕ} (h : 0 < n) : WeakPtr.Made n ⟨none, forNulls⟩ := ⟨h, rfl⟩

namespace Store

/-! ## One operation -/

namespace Inv

/-- What is left to show once the book of the new state is known. -/
theorem of_ledger {s : Store} {n : ℕ} {f g d : ℕ → ℕ} (l : Ledger s.heap n f g d)
    (hf : s.sharedUsing = f) (hg : s.handlesUsing = g)
    (hd : ∀ b, b ≠ forNulls → d b = gone n f b)
    (hshared : ∀ p, some p ∈ s.shared → p.ptr.Made n)
    (hweak : ∀ w, some w ∈ s.weak → w.Made n) (hfits : s.Fits) : s.Inv := by
  obtain rfl := l.len
  subst hf hg
  exact ⟨l.congr (fun _ _ _ => rfl) (fun _ _ _ => rfl) fun b hb => (hd b hb).symm,
    hshared, hweak, hfits⟩

variable {s s' : Store}

theorem init : Inv Store.init :=
  ⟨ledger_init.congr (fun _ _ _ => rfl) (fun _ _ _ => rfl) fun _ hb =>
      if_neg fun h => hb (Nat.lt_one_iff.mp h.1),
    by simp [Store.init], by simp [Store.init], fun _ _ => by
      show 0 < counterRange
      decide⟩

theorem pos (i : s.Inv) : 0 < s.heap.blocks.length := by
  obtain ⟨c, hc⟩ := i.ledger.static
  exact Heap.deref_lt hc

/-- The counts of a `SharedPtr` that is there are positive and fit. -/
theorem shared_cap (i : s.Inv) {k : ℕ} {p : SharedPtr} (hp : Slots.lookup s.shared k = some p)
    (hb : p.ptr.cnt ≠ forNulls) : 0 < s.sharedUsing p.ptr.cnt ∧
      s.sharedUsing p.ptr.cnt < counterRange ∧ s.handlesUsing p.ptr.cnt < counterRange := by
  have hfit := i.fits _ hb
  exact ⟨sharedUsing_pos hp, Nat.lt_of_le_of_lt (Nat.le_add_right _ _) hfit, hfit⟩

theorem made_shared (i : s.Inv) {k : ℕ} {p : SharedPtr} (hp : Slots.lookup s.shared k = some p) :
    p.ptr.Made s.heap.blocks.length :=
  i.shared_made p (Slots.mem_of_lookup hp)

theorem made_weak (i : s.Inv) {k : ℕ} {w : WeakPtr} (hw : Slots.lookup s.weak k = some w) :
    w.Made s.heap.blocks.length :=
  i.weak_made w (Slots.mem_of_lookup hw)

/-- No handle uses the block that the next `new T` will get. -/
theorem sharedUsing_next (i : s.Inv) : s.sharedUsing s.heap.blocks.length = 0 :=
  tally_eq_zero _ fun p hp => (i.shared_made p hp).1.ne

theorem weakUsing_next (i : s.Inv) : s.weakUsing s.heap.blocks.length = 0 :=
  tally_eq_zero _ fun w hw => (i.weak_made w hw).1.ne

/-- Inserting a null `SharedPtr` whose construction left the book alone. -/
theorem insert_null (i : s.Inv) {h : Heap}
    (l : Ledger h s.heap.blocks.length s.sharedUsing s.handlesUsing
      (gone s.heap.blocks.length s.sharedUsing))
    (hfits : Fits { s with heap := h, shared := Slots.insert s.shared ⟨⟨none, forNulls⟩⟩ }) :
    Inv { s with heap := h, shared := Slots.insert s.shared ⟨⟨none, forNulls⟩⟩ } := by
  have l' : Ledger h s.heap.blocks.length (gain s.sharedUsing forNulls)
      (gain s.handlesUsing forNulls) (gone s.heap.blocks.length s.sharedUsing) :=
    l.congr (fun b hb _ => gain_ne _ hb) (fun b hb _ => gain_ne _ hb) fun _ _ => rfl
  exact of_ledger l' (sharedUsing_insert ..) (handlesUsing_insert_shared ..)
    (gone_gain (absurd rfl))
    (Slots.forall_insert (WeakPtr.made_null i.pos) i.shared_made) i.weak_made hfits

theorem step_sharedNew (i : s.Inv) (hstep : s.step .sharedNew = some s') (hfits : s'.Fits) :
    s'.Inv := by
  obtain ⟨⟨p, h⟩, hp, heq⟩ := Option.bind_eq_some_iff.mp hstep
  obtain rfl := Option.some.inj heq
  have hnone := i.sharedUsing_next
  have hnone' : s.handlesUsing s.heap.blocks.length = 0 := by
    rw [handlesUsing, hnone, i.weakUsing_next]
  obtain ⟨rfl, l⟩ := SharedPtr.ofPtr_spec i.ledger hnone hnone' hp
  refine of_ledger l (sharedUsing_insert ..) (handlesUsing_insert_shared ..)
    (fun b _ => gone_new hnone b) ?_ ?_ hfits
  · refine Slots.forall_insert ⟨Nat.lt_succ_self _, ?_⟩
      fun q hq => (i.shared_made q hq).mono (Nat.le_succ _)
    exact (if_neg i.pos.ne').symm
  · exact fun w hw => (i.weak_made w hw).mono (Nat.le_succ _)

theorem step_sharedDefault (i : s.Inv) (hstep : s.step .sharedDefault = some s')
    (hfits : s'.Fits) : s'.Inv := by
  obtain ⟨⟨p, h⟩, hp, heq⟩ := Option.bind_eq_some_iff.mp hstep
  obtain rfl := Option.some.inj heq
  obtain ⟨rfl, l⟩ := SharedPtr.mkDefault_spec i.ledger hp
  exact i.insert_null l hfits

theorem step_sharedCopy (i : s.Inv) {k : ℕ} (hstep : s.step (.sharedCopy k) = some s')
    (hfits : s'.Fits) : s'.Inv := by
  obtain ⟨r, hr, hrest⟩ := Option.bind_eq_some_iff.mp hstep
  obtain ⟨⟨p, h⟩, hp, heq⟩ := Option.bind_eq_some_iff.mp hrest
  obtain rfl := Option.some.inj heq
  obtain ⟨rfl, l⟩ := SharedPtr.mkCopy_spec i.ledger hp
  exact of_ledger l (sharedUsing_insert ..) (handlesUsing_insert_shared ..)
    (gone_gain fun hb => (i.shared_cap hr hb).1)
    (Slots.forall_insert (i.made_shared hr) i.shared_made) i.weak_made hfits

theorem step_sharedAssign (i : s.Inv) {k k' : ℕ} (hstep : s.step (.sharedAssign k k') = some s')
    (hfits : s'.Fits) : s'.Inv := by
  obtain ⟨o, ho, hrest⟩ := Option.bind_eq_some_iff.mp hstep
  obtain ⟨r, hr, hrest⟩ := Option.bind_eq_some_iff.mp hrest
  obtain ⟨⟨p, h⟩, hp, heq⟩ := Option.bind_eq_some_iff.mp hrest
  obtain rfl := Option.some.inj heq
  obtain ⟨rfl, l⟩ := SharedPtr.assign_spec i.ledger (i.made_shared ho) (i.shared_cap ho) hp
  refine of_ledger l (sharedUsing_put h p ho) (handlesUsing_put_shared h p ho) (fun b hb => ?_)
    (Slots.forall_put (i.made_shared hr) i.shared_made) i.weak_made hfits
  have hgain := gone_gain (n := s.heap.blocks.length) fun hb => (i.shared_cap hr hb).1
  have hpos : o.ptr.cnt ≠ forNulls → 0 < gain s.sharedUsing p.ptr.cnt o.ptr.cnt := fun hb =>
    Nat.lt_of_lt_of_le (i.shared_cap ho hb).1 (Nat.le_add_right _ _)
  rw [← bury_gone (i.made_shared ho).1 hpos b hb]
  simp only [bury]
  split
  · simp only [gain, hgain b hb]
  · exact hgain b hb

theorem step_sharedSwap (i : s.Inv) {k k' : ℕ} (hstep : s.step (.sharedSwap k k') = some s')
    (hfits : s'.Fits) : s'.Inv := by
  obtain ⟨x, hx, hrest⟩ := Option.bind_eq_some_iff.mp hstep
  obtain ⟨y, hy, heq⟩ := Option.bind_eq_some_iff.mp hrest
  obtain rfl := Option.some.inj heq
  have hsame : sharedUsing
      { s with shared := Slots.put (Slots.put s.shared k y) k' x } = s.sharedUsing :=
    tally_swap (fun p : SharedPtr => p.ptr.cnt) hx hy
  have hall : handlesUsing
      { s with shared := Slots.put (Slots.put s.shared k y) k' x } = s.handlesUsing :=
    congrArg (fun f b => f b + s.weakUsing b) hsame
  exact of_ledger i.ledger hsame hall (fun _ _ => rfl)
    (Slots.forall_put (i.made_shared hx) (Slots.forall_put (i.made_shared hy) i.shared_made))
    i.weak_made hfits

theorem step_sharedDestroy (i : s.Inv) {k : ℕ} (hstep : s.step (.sharedDestroy k) = some s')
    (hfits : s'.Fits) : s'.Inv := by
  obtain ⟨o, ho, hrest⟩ := Option.bind_eq_some_iff.mp hstep
  obtain ⟨h, hd, heq⟩ := Option.bind_eq_some_iff.mp hrest
  obtain rfl := Option.some.inj heq
  have hcap := fun hb => i.shared_cap ho hb
  have l := SharedPtr.destroy_spec i.ledger (i.made_shared ho)
    (fun hb => ⟨(hcap hb).1, (hcap hb).2.1.le, (hcap hb).2.2.le⟩) hd
  exact of_ledger l (sharedUsing_remove h ho) (handlesUsing_remove_shared h ho)
    (bury_gone (i.made_shared ho).1 fun hb => (hcap hb).1)
    (Slots.forall_remove i.shared_made) i.weak_made hfits

theorem step_weakDefault (i : s.Inv) (hstep : s.step .weakDefault = some s')
    (hfits : s'.Fits) : s'.Inv := by
  obtain ⟨⟨w, h⟩, hw, heq⟩ := Option.bind_eq_some_iff.mp hstep
  obtain rfl := Option.some.inj heq
  obtain ⟨rfl, l⟩ := WeakPtr.mkDefault_spec i.ledger hw
  have l' : Ledger h s.heap.blocks.length s.sharedUsing (gain s.handlesUsing forNulls)
      (gone s.heap.blocks.length s.sharedUsing) := l.congr (fun _ _ _ => rfl)
    (fun b hb _ => gain_ne _ hb) fun _ _ => rfl
  exact of_ledger l' rfl (handlesUsing_insert_weak ..) (fun _ _ => rfl)
    i.shared_made (Slots.forall_insert (WeakPtr.made_null i.pos) i.weak_made) hfits

/-- A further `WeakPtr` on a block, copied from a handle of it. -/
theorem insert_weak (i : s.Inv) {w : WeakPtr} {h : Heap} (hw : w.Made s.heap.blocks.length)
    (l : Ledger h s.heap.blocks.length s.sharedUsing (gain s.handlesUsing w.cnt)
      (gone s.heap.blocks.length s.sharedUsing))
    (hfits : Fits { s with heap := h, weak := Slots.insert s.weak w }) :
    Inv { s with heap := h, weak := Slots.insert s.weak w } := by
  exact of_ledger l rfl (handlesUsing_insert_weak ..) (fun _ _ => rfl) i.shared_made
    (Slots.forall_insert hw i.weak_made) hfits

theorem step_weakCopy (i : s.Inv) {k : ℕ} (hstep : s.step (.weakCopy k) = some s')
    (hfits : s'.Fits) : s'.Inv := by
  obtain ⟨r, hr, hrest⟩ := Option.bind_eq_some_iff.mp hstep
  obtain ⟨⟨w, h⟩, hw, heq⟩ := Option.bind_eq_some_iff.mp hrest
  obtain rfl := Option.some.inj heq
  obtain ⟨rfl, l⟩ := WeakPtr.mkCopy_spec i.ledger hw
  exact i.insert_weak (i.made_weak hr) l hfits

theorem step_weakOfShared (i : s.Inv) {k : ℕ} (hstep : s.step (.weakOfShared k) = some s')
    (hfits : s'.Fits) : s'.Inv := by
  obtain ⟨r, hr, hrest⟩ := Option.bind_eq_some_iff.mp hstep
  obtain ⟨⟨w, h⟩, hw, heq⟩ := Option.bind_eq_some_iff.mp hrest
  obtain rfl := Option.some.inj heq
  obtain ⟨rfl, l⟩ := WeakPtr.ofShared_spec i.ledger hw
  exact i.insert_weak (i.made_shared hr) l hfits

theorem step_weakAssign (i : s.Inv) {k k' : ℕ} (hstep : s.step (.weakAssign k k') = some s')
    (hfits : s'.Fits) : s'.Inv := by
  obtain ⟨o, ho, hrest⟩ := Option.bind_eq_some_iff.mp hstep
  obtain ⟨r, hr, hrest⟩ := Option.bind_eq_some_iff.mp hrest
  obtain ⟨⟨w, h⟩, hw, heq⟩ := Option.bind_eq_some_iff.mp hrest
  obtain rfl := Option.some.inj heq
  obtain ⟨rfl, l⟩ := WeakPtr.assign_spec i.ledger (i.fits _) hw
  exact of_ledger l rfl (handlesUsing_put_weak h w ho) (fun _ _ => rfl) i.shared_made
    (Slots.forall_put (i.made_weak hr) i.weak_made) hfits

theorem step_weakSwap (i : s.Inv) {k k' : ℕ} (hstep : s.step (.weakSwap k k') = some s')
    (hfits : s'.Fits) : s'.Inv := by
  obtain ⟨x, hx, hrest⟩ := Option.bind_eq_some_iff.mp hstep
  obtain ⟨y, hy, heq⟩ := Option.bind_eq_some_iff.mp hrest
  obtain rfl := Option.some.inj heq
  have hsame : weakUsing
      { s with weak := Slots.put (Slots.put s.weak k y) k' x } = s.weakUsing :=
    tally_swap (fun w : WeakPtr => w.cnt) hx hy
  have hall : handlesUsing
      { s with weak := Slots.put (Slots.put s.weak k y) k' x } = s.handlesUsing :=
    congrArg (fun f b => s.sharedUsing b + f b) hsame
  exact of_ledger i.ledger rfl hall (fun _ _ => rfl) i.shared_made
    (Slots.forall_put (i.made_weak hx) (Slots.forall_put (i.made_weak hy) i.weak_made)) hfits

theorem step_weakDestroy (i : s.Inv) {k : ℕ} (hstep : s.step (.weakDestroy k) = some s')
    (hfits : s'.Fits) : s'.Inv := by
  obtain ⟨o, ho, hrest⟩ := Option.bind_eq_some_iff.mp hstep
  obtain ⟨h, hd, heq⟩ := Option.bind_eq_some_iff.mp hrest
  obtain rfl := Option.some.inj heq
  have l := WeakPtr.detach_spec i.ledger (fun hb => (i.fits _ hb).le) hd
  exact of_ledger l rfl (handlesUsing_remove_weak h ho) (fun _ _ => rfl) i.shared_made
    (Slots.forall_remove i.weak_made) hfits

/-- A `lock` that does not find its object alive returns null and keeps the law. -/
theorem step_lock (i : s.Inv) {k : ℕ} (hstep : s.step (.lock k) = some s')
    (hdead : ¬ s.LocksLive (.lock k)) (hfits : s'.Fits) : s'.Inv := by
  obtain ⟨w, hw, hrest⟩ := Option.bind_eq_some_iff.mp hstep
  obtain ⟨⟨p, h⟩, hp, heq⟩ := Option.bind_eq_some_iff.mp hrest
  obtain rfl := Option.some.inj heq
  by_cases hb : w.cnt = forNulls
  · obtain ⟨rfl, l⟩ := WeakPtr.lock_spec_of_null i.ledger (i.made_weak hw) hb hp
    exact i.insert_null l hfits
  · have hfit := i.fits _ hb
    have hsmall : s.sharedUsing w.cnt < counterRange :=
      Nat.lt_of_le_of_lt (Nat.le_add_right _ _) hfit
    obtain ⟨c, hc, -⟩ := Option.bind_eq_some_iff.mp hp
    obtain ⟨-, rfl⟩ := i.ledger.of_deref hc hb
    have hzero : s.sharedUsing w.cnt = 0 := by
      by_contra hpos
      exact hdead ⟨w, _, hw, hb, hc, fun h0 => hpos ((counter_ofNat_eq_zero hsmall).mp h0)⟩
    obtain ⟨rfl, l⟩ := WeakPtr.lock_spec_of_dead i.ledger hb hzero hp
    exact i.insert_null l hfits

/-- Every operation but a `lock` that succeeds keeps the law. -/
theorem step {op : Op} (i : s.Inv) (hstep : s.step op = some s') (hop : ¬ s.LocksLive op)
    (hfits : s'.Fits) : s'.Inv := by
  cases op with
  | sharedNew => exact i.step_sharedNew hstep hfits
  | sharedDefault => exact i.step_sharedDefault hstep hfits
  | sharedCopy r => exact i.step_sharedCopy hstep hfits
  | sharedAssign l r => exact i.step_sharedAssign hstep hfits
  | sharedSwap a b => exact i.step_sharedSwap hstep hfits
  | sharedDestroy p => exact i.step_sharedDestroy hstep hfits
  | weakDefault => exact i.step_weakDefault hstep hfits
  | weakCopy r => exact i.step_weakCopy hstep hfits
  | weakOfShared p => exact i.step_weakOfShared hstep hfits
  | weakAssign l r => exact i.step_weakAssign hstep hfits
  | weakSwap a b => exact i.step_weakSwap hstep hfits
  | weakDestroy w => exact i.step_weakDestroy hstep hfits
  | lock w => exact i.step_lock hstep hop hfits

end Inv

/-! ## The law and the invariant -/

/-- Counts that the counters show fit into a counter. -/
theorem Accounted.fits {s : Store} (a : s.Accounted) : s.Fits := by
  intro b hb
  cases hc : s.heap.deref b with
  | none =>
      rw [(a.freed_iff b hb).mp hc]
      decide
  | some c =>
      rw [← a.wc_eq b c hb hc]
      exact c.wc.toNat_lt

/-- The invariant gives the law. -/
theorem Inv.accounted {s : Store} (i : s.Inv) : s.Accounted := by
  have hsmall : ∀ b, b ≠ forNulls → s.sharedUsing b < counterRange := fun b hb =>
    Nat.lt_of_le_of_lt (Nat.le_add_right _ _) (i.fits b hb)
  refine ⟨fun b c hb hc => ?_, fun b c hb hc => ?_, fun b hb => ?_, fun b hb hn => ?_⟩
  · obtain ⟨-, rfl⟩ := i.ledger.of_deref hc hb
    exact counter_toNat_ofNat (hsmall b hb)
  · obtain ⟨-, rfl⟩ := i.ledger.of_deref hc hb
    exact counter_toNat_ofNat (i.fits b hb)
  · by_cases hn : b < s.heap.blocks.length
    · rw [i.ledger.block b hb hn]
      split <;> simp_all
    · -- a block that was never made has no handles
      have hshared : s.sharedUsing b = 0 :=
        tally_eq_zero _ fun p hp heq => hn (heq ▸ (i.shared_made p hp).1)
      have hweak : s.weakUsing b = 0 :=
        tally_eq_zero _ fun w hw heq => hn (heq ▸ (i.weak_made w hw).1)
      have hnone : s.heap.deref b = none := by
        cases hc : s.heap.deref b with
        | none => rfl
        | some c => exact absurd (Heap.deref_lt hc) hn
      simp [hnone, handlesUsing, hshared, hweak]
  · rw [i.ledger.deleted b hb, gone]
    simp [hn]

/-- **A `lock` that succeeds breaks the law.**  The handle it returns uses the
block, and `wc` has not moved. -/
theorem Inv.lock_breaks {s s' : Store} (i : s.Inv) {op : Op} (hstep : s.step op = some s')
    (hlive : s.LocksLive op) (hfits : s'.Fits) : ¬ s'.Accounted := by
  intro acc
  cases op with
  | lock k =>
      obtain ⟨w, c, hw, hb, hc, hsc⟩ := hlive
      obtain ⟨w', hw', hrest⟩ := Option.bind_eq_some_iff.mp hstep
      obtain rfl : w = w' := Option.some.inj (hw.symm.trans hw')
      obtain ⟨⟨q, h⟩, hq, heq⟩ := Option.bind_eq_some_iff.mp hrest
      obtain rfl := Option.some.inj heq
      obtain rfl := WeakPtr.lock_fst_of_live hc hsc hq
      have hcount : handlesUsing { s with heap := h, shared := Slots.insert s.shared ⟨w⟩ } w.cnt =
          s.handlesUsing w.cnt + 1 := by
        rw [handlesUsing_insert_shared]
        exact gain_self _ _
      -- the block is in use, so its counts are positive, and they fit with one more
      obtain ⟨-, rfl⟩ := i.ledger.of_deref hc hb
      have hpos : 0 < s.sharedUsing w.cnt := by
        rcases Nat.eq_zero_or_pos (s.sharedUsing w.cnt) with h0 | h0
        · exact absurd (by rw [h0]; rfl) hsc
        · exact h0
      have hweak := weakUsing_pos hw
      have hfit := hfits w.cnt hb
      rw [hcount] at hfit
      have hsum : s.handlesUsing w.cnt = s.sharedUsing w.cnt + s.weakUsing w.cnt := rfl
      obtain ⟨-, l⟩ := WeakPtr.lock_spec_of_live i.ledger (i.made_weak hw) hb hpos
        ⟨by omega, by omega⟩ hq
      have hblock := l.block w.cnt hb (i.made_weak hw).1
      rw [if_neg (by omega)] at hblock
      have hwc := acc.wc_eq w.cnt _ hb hblock
      rw [counter_toNat_ofNat (i.fits w.cnt hb), hcount] at hwc
      omega
  | sharedNew | sharedDefault | sharedCopy | sharedAssign | sharedSwap | sharedDestroy
  | weakDefault | weakCopy | weakOfShared | weakAssign | weakSwap | weakDestroy =>
      exact hlive.elim

/-! ## Whole runs -/

/-- **The counters are exact as long as no `lock` succeeds, and only so long.**
For every sequence of operations: the law holds in every state passed exactly
when no `lock` of the run finds its object alive and the handles of each block
stay fewer than the values of a counter. -/
theorem accounted_iff_no_live_lock {tr : List (Store × Op)} {s : Store}
    (hrun : Machine.Run (Machine.Fires Store.step) Store.init tr s) :
    (∀ t ∈ Machine.visited tr s, t.Accounted) ↔
      (∀ p ∈ tr, ¬ p.1.LocksLive p.2) ∧ ∀ t ∈ Machine.visited tr s, t.Fits := by
  refine Machine.Run.visited_iff_steps (I := Store.Inv)
    (fun t op t' i hstep (hop : ¬ t.LocksLive op) hfits => i.step hstep hop hfits)
    (fun t op t' i hstep hbad acc => ?_) (fun t i => ⟨i.accounted, i.fits⟩) hrun Inv.init
  by_cases hlive : t.LocksLive op
  · exact i.lock_breaks hstep hlive acc.fits acc
  · exact hbad ⟨hlive, acc.fits⟩

/-- The law over a run that copies, assigns and swaps handles, and locks an
object that is gone. -/
theorem accounted_iff_no_live_lock_example : ∃ tr s,
    Machine.Run (Machine.Fires Store.step) Store.init tr s ∧
    Machine.actions tr = [.sharedNew, .weakOfShared 0, .sharedCopy 0, .sharedDefault,
      .sharedAssign 2 0, .sharedSwap 0 1, .sharedDestroy 0, .sharedDestroy 1, .sharedDestroy 2,
      .lock 0, .weakDestroy 0] ∧
    ((∀ t ∈ Machine.visited tr s, t.Accounted) ↔
      (∀ p ∈ tr, ¬ p.1.LocksLive p.2) ∧ ∀ t ∈ Machine.visited tr s, t.Fits) := by
  obtain ⟨tr, hrun, hacts⟩ := Machine.exec_run Store.step Store.init
    [.sharedNew, .weakOfShared 0, .sharedCopy 0, .sharedDefault, .sharedAssign 2 0,
      .sharedSwap 0 1, .sharedDestroy 0, .sharedDestroy 1, .sharedDestroy 2, .lock 0,
      .weakDestroy 0]
    ⟨⟨[some ⟨2, 2⟩, none], [1]⟩, [none, none, none, some ⟨⟨none, forNulls⟩⟩], [none]⟩
    (by decide)
  exact ⟨tr, _, hrun, hacts, accounted_iff_no_live_lock hrun⟩

/-- The unit test's sequence: a weak pointer is taken, locked once while the
object is alive, and both shared pointers go.  The block has been freed, and the
weak pointer still uses it. -/
theorem live_lock_frees_used_block : ∃ tr s,
    Machine.Run (Machine.Fires Store.step) Store.init tr s ∧
    Machine.actions tr =
      [.sharedNew, .weakOfShared 0, .lock 0, .sharedDestroy 1, .sharedDestroy 0] ∧
    s.heap.deref 1 = none ∧ s.handlesUsing 1 = 1 ∧ ¬ s.Accounted := by
  obtain ⟨tr, hrun, hacts⟩ := Machine.exec_run Store.step Store.init
    [.sharedNew, .weakOfShared 0, .lock 0, .sharedDestroy 1, .sharedDestroy 0]
    ⟨⟨[some ⟨1, 2⟩, none], [1]⟩, [none, none], [some ⟨some 1, 1⟩]⟩
    (by decide)
  refine ⟨tr, _, hrun, hacts, rfl, by decide, fun acc => ?_⟩
  have hzero := (acc.freed_iff 1 (by decide)).mp rfl
  revert hzero
  decide

end Store

end Craplib.Memory
