import Craplib.Data.NewBuffer

/-!
# Only what was made is deleted

A counter that wraps around can make a destructor delete a buffer too early, or twice.  What
cannot happen, in any run, is that something is deleted that was never made: every handle that
is destroyed is placed, so the object it deletes is a buffer of the memory (`sound_of_run`).
Hence the next buffer is always a fresh one (`fresh_of_run`).

`Tidy m x` is the form of the lemma each function gets here: from memory that keeps the buffers
of `m` and is sound, `x` leaves memory that is sound.
-/

namespace Craplib

open Memory Effects

/-! ## What the pointer layer deletes -/

namespace Memory

theorem WeakPtr.destroy_deleted {w : WeakPtr} {h h' : Heap} (hd : w.destroy h = some h') :
    h'.deleted = h.deleted := by
  obtain ⟨c, -, hst⟩ := Option.bind_eq_some_iff.mp hd
  dsimp only at hst
  split at hst
  · unfold Heap.deleteCounters at hst
    split at hst
    · cases hst
    · rw [← Option.some.inj hst]
      rfl
  · rw [← Option.some.inj hst]
    rfl

/-- A destructor deletes the object of its handle, or nothing. -/
theorem SharedPtr.destroy_deleted {p : SharedPtr} {h h' : Heap} (hd : p.destroy h = some h') {n : ℕ}
    (hn : n ∈ h'.deleted) : n ∈ h.deleted ∨ p.ptr.pObj = some n := by
  obtain ⟨h₁, hdetach, hweak⟩ := Option.bind_eq_some_iff.mp hd
  rw [WeakPtr.destroy_deleted hweak] at hn
  obtain ⟨c, -, hst⟩ := Option.bind_eq_some_iff.mp hdetach
  dsimp only at hst
  split at hst
  · rw [← Option.some.inj hst] at hn
    rcases List.mem_append.mp hn with hn | hn
    · exact Or.inl hn
    · exact Or.inr (Option.mem_toList.mp hn)
  · rw [← Option.some.inj hst] at hn
    exact Or.inl hn

theorem SharedPtr.mkCopy_deleted {r p : SharedPtr} {h h' : Heap}
    (hc : SharedPtr.mkCopy r h = some (p, h')) : h'.deleted = h.deleted := by
  obtain ⟨⟨w, h₁⟩, hw, hrest⟩ := Option.bind_eq_some_iff.mp hc
  obtain ⟨h₂, ha, heq⟩ := Option.bind_eq_some_iff.mp hrest
  obtain ⟨-, rfl⟩ := Prod.mk.inj (Option.some.inj heq)
  obtain ⟨h₃, hattach, heq⟩ := Option.bind_eq_some_iff.mp hw
  obtain ⟨-, rfl⟩ := Prod.mk.inj (Option.some.inj heq)
  obtain ⟨cw, -, hst⟩ := Option.bind_eq_some_iff.mp hattach
  obtain ⟨cs, -, hst'⟩ := Option.bind_eq_some_iff.mp ha
  rw [← Option.some.inj hst', ← Option.some.inj hst]
  rfl

end Memory

/-! ## Sound memory -/

/-- Every object that has been deleted is a buffer that was made. -/
def Mem.Sound (m : Mem) : Prop := ∀ n ∈ m.heap.deleted, ∃ b, Slots.lookup m.impls n = some b

namespace Mem.Sound

variable {m m' : Mem}

theorem fresh (h : m.Sound) : m.Fresh := by
  intro hmem
  obtain ⟨b, hb⟩ := h _ hmem
  exact absurd (Slots.lookup_lt hb) (Nat.lt_irrefl _)

theorem keeps (h : m.Sound) (hm : m.Keeps m') (hdel : m'.heap.deleted = m.heap.deleted) :
    m'.Sound := by
  intro n hn
  obtain ⟨b, hb⟩ := h n (hdel ▸ hn)
  obtain ⟨b', hb', -⟩ := hm n b hb
  exact ⟨b', hb'⟩

end Mem.Sound

/-- Sound memory that keeps the buffers of `m` is left sound. -/
def Tidy (m : Mem) {α : Type} (x : DataM α) : Prop :=
  Triple (fun s => m.Keeps s ∧ s.Sound) x fun _ t => t.Sound

namespace Tidy

variable {m : Mem} {α β : Type}

theorem pure (a : α) : Tidy m (Pure.pure a) := Triple.pure fun _ h => h.2

theorem throw (e : Thrown) : Tidy m (Eff.throw e : DataM α) := Triple.throw fun _ h => h.2

theorem ofReader (f : Mem → Option α) : Tidy m (.ofReader f) := Triple.ofReader fun _ _ h _ => h.2

/-- Sequencing.  What the first part made is there in the memory that it leaves. -/
theorem bind {x : DataM α} {f : α → DataM β} {mid : α → Mem → Prop} (hx : Tidy m x)
    (hsafe : Safe m x mid) (hf : ∀ a m₁, m.Keeps m₁ → mid a m₁ → Tidy m₁ (f a)) :
    Tidy m (x >>= f) := by
  intro s r t hs hrun
  rcases Eff.bind_eq_some.mp hrun with ⟨e, hfst, -⟩ | ⟨a, u, hfst, hsnd⟩
  · exact hx s _ t hs hfst
  · obtain ⟨hu, hmid⟩ := hsafe s _ u hs.1 hfst
    exact hf a u hu (hmid a rfl) u r t ⟨Mem.Keeps.refl u, hx s _ u hs hfst⟩ hsnd

theorem attempt {x : DataM α} (h : Tidy m x) : Tidy m (Eff.attempt x) := by
  refine Triple.weaken (Triple.attempt h) (fun _ h => h) ?_
  rintro r t ⟨r', -, ht⟩
  exact ht

/-- A computation that deletes nothing. -/
theorem of_deleted {x : DataM α} {good : α → Mem → Prop}
    (hsafe : ∀ s, m.Keeps s → Safe s x good)
    (hdel : ∀ s r t, x s = some (r, t) → t.heap.deleted = s.heap.deleted) : Tidy m x :=
  fun s r t hs hrun => hs.2.keeps (hsafe s hs.1 s r t (Mem.Keeps.refl s) hrun).1 (hdel s r t hrun)

end Tidy

namespace Data

variable {m m' : Mem} {d : Data}

/-- A write in place deletes nothing. -/
theorem Wrote.deleted {plan : ℕ → Option Byte} (h : d.Wrote plan m m') :
    m'.heap.deleted = m.heap.deleted := by
  rcases h with ⟨rfl, -⟩ | ⟨-, hstamp⟩ | ⟨-, hsame⟩
  · rfl
  · obtain ⟨n, b, b', -, -, -, -, -, rfl⟩ := hstamp
    rfl
  · exact hsame.1

theorem tidy_newImpl (size : ℤ) (raw : List Byte) : Tidy m (newImpl size raw) := by
  refine Tidy.of_deleted (fun s _ => safe_newImpl size raw) fun s r t hrun => ?_
  rcases newImpl_cases hrun with ⟨e, -, rfl⟩ | ⟨p, -, -, hsame, -⟩
  · rfl
  · exact hsame.1

theorem tidy_mkSize (size : ℤ) (raw : List Byte) : Tidy m (mkSize size raw) := by
  unfold mkSize
  exact (tidy_newImpl size raw).bind (safe_newImpl size raw) fun _ _ _ _ => Tidy.pure _

theorem tidy_mkBytes (size : ℤ) (data : List Byte) : Tidy m (mkBytes size data) := by
  refine Tidy.of_deleted (fun s _ => safe_mkBytes size data) fun s r t hrun => ?_
  rcases mkBytes_cases hrun with ⟨e, -, rfl⟩ | ⟨x, -, -, hsame, -⟩
  · rfl
  · exact hsame.1

theorem safe_copyPtr (p : SharedPtr) : Safe m (onHeap (SharedPtr.mkCopy p)) fun q _ => q = p :=
  Safe.onHeap fun _ _ _ h => SharedPtr.mkCopy_fst h

theorem tidy_copyPtr (p : SharedPtr) : Tidy m (onHeap (SharedPtr.mkCopy p)) := by
  refine Tidy.of_deleted (fun _ _ => safe_copyPtr p) fun s r t hrun => ?_
  obtain ⟨q, hf, -⟩ := Eff.ofState_eq_some.mp hrun
  obtain ⟨⟨q', h⟩, hq, heq⟩ := Option.map_eq_some_iff.mp hf
  obtain ⟨-, rfl⟩ := Prod.mk.inj heq
  exact SharedPtr.mkCopy_deleted hq

theorem tidy_mkCopy (d : Data) : Tidy m (mkCopy d) := by
  unfold mkCopy
  exact (tidy_copyPtr d.impl).bind (safe_copyPtr d.impl) fun _ _ _ _ => Tidy.pure _

/-- **A destructor** deletes a buffer that was made, because its handle is placed. -/
theorem tidy_destroy (hd : d.Placed m) : Tidy m d.destroy := by
  refine Triple.ofState fun s _ t hs hf => ?_
  obtain ⟨⟨_, h⟩, hdrop, heq⟩ := Option.map_eq_some_iff.mp hf
  obtain ⟨h', hdestroy, heq'⟩ := Option.map_eq_some_iff.mp hdrop
  obtain ⟨-, rfl⟩ := Prod.mk.inj heq
  obtain ⟨-, rfl⟩ := Prod.mk.inj heq'
  intro n hn
  rcases SharedPtr.destroy_deleted hdestroy hn with hn | hn
  · exact hs.2 n hn
  · obtain ⟨k, b, hk, hb, -⟩ := hs.1.placed hd
    obtain rfl : k = n := Option.some.inj (hk.symm.trans hn)
    exact ⟨b, hb⟩

theorem tidy_assign {self : Data} (hself : self.Placed m) (hd : d.Placed m) :
    Tidy m (self.assign d) := by
  unfold assign
  exact (tidy_mkCopy d).bind (safe_mkCopy hd) fun _ _ hm _ =>
    (tidy_destroy (hm.placed hself)).bind (safe_destroy self) fun _ _ _ _ => Tidy.pure _

/-- The copy of the pointer that is dropped when the position is refused is on the buffer
of `d`. -/
theorem tidy_mkSlice (hd : d.Placed m) (pos si : ℤ) : Tidy m (mkSlice d pos si) := by
  unfold mkSlice
  refine (tidy_copyPtr d.impl).bind (safe_copyPtr d.impl) fun p m₁ hm₁ hp => ?_
  subst hp
  split
  · exact (tidy_destroy (hm₁.placed hd)).bind (safe_destroy d) fun _ _ _ _ => Tidy.throw _
  · exact Tidy.pure _

theorem tidy_getByte (d : Data) : Tidy m d.getByte := by
  unfold getByte
  split
  · exact Tidy.pure _
  · exact (Tidy.ofReader _).bind (Safe.ofReader fun _ _ _ _ => trivial) fun _ _ _ _ => Tidy.pure _

theorem tidy_fill (hd : d.Placed m) (value : ℤ) : Tidy m (d.fill value) :=
  Tidy.of_deleted (fun _ hs => safe_fill (hs.placed hd) value) fun _ _ _ hrun =>
    (fill_wrote hrun).deleted

theorem tidy_copy (hd : d.Placed m) (pos : ℤ) (other : Option Data) :
    Tidy m (d.copy pos other) :=
  Tidy.of_deleted (fun _ hs => safe_copy (hs.placed hd) pos other) fun _ _ _ hrun =>
    (copy_wrote hrun).deleted

theorem tidy_stores (hd : d.Placed m) (bs : List (ℕ × Byte)) :
    Tidy m (do let self ← d.lock; self.stores bs; return self : DataM Data) := by
  have hsafe : ∀ s, m.Keeps s → Safe s (do let self ← d.lock; self.stores bs; return self)
      fun x t => x.Placed t := fun s hs =>
    Safe.bind (safe_lock (hs.placed hd)) fun x m₁ _ hx =>
      Safe.bind (safe_stores x bs) fun _ m₂ hm₂ _ =>
        Safe.pure fun t ht => (hm₂.trans ht).placed hx
  exact Tidy.of_deleted hsafe fun _ _ _ hrun => (stores_wrote hrun).deleted

end Data

namespace DataDeque

variable {m : Mem}

theorem tidy_write (q : DataDeque) {d : Data} (hd : d.Placed m) : Tidy m (q.write d) := by
  unfold write
  exact (Data.tidy_mkCopy d).bind (Data.safe_mkCopy hd) fun _ _ _ _ => Tidy.pure _

theorem tidy_readNothing {d : Data} (hd : d.Placed m) : Tidy m (readNothing d) := by
  unfold readNothing
  refine (Data.tidy_mkSize 0 []).bind Data.safe_mkDefault fun temp m₁ hm₁ htemp => ?_
  refine (Data.tidy_assign (hm₁.placed hd) htemp).bind (Data.safe_assign d htemp)
    fun _ _ hm₂ _ => ?_
  exact (Data.tidy_destroy (hm₂.placed htemp)).bind (Data.safe_destroy temp) fun _ _ _ _ =>
    Tidy.pure _

theorem tidy_readFront {fr d : Data} (rest : List Data) (size : ℤ) (hfr : fr.Placed m)
    (hd : d.Placed m) : Tidy m (readFront fr rest size d) := by
  unfold readFront
  exact (Data.tidy_assign hd hfr).bind (Data.safe_assign d hfr) fun _ _ hm₁ _ =>
    (Data.tidy_destroy (hm₁.placed hfr)).bind (Data.safe_destroy fr) fun _ _ _ _ => Tidy.pure _

theorem tidy_read {q : DataDeque} {d : Data} (hq : q.Placed m) (hd : d.Placed m) :
    Tidy m (q.read d) := by
  unfold read
  split
  · exact (tidy_readNothing hd).bind (safe_readNothing d) fun _ _ _ _ => Tidy.pure _
  · next fr rest heq => exact tidy_readFront rest q.size (hq fr (by simp [heq])) hd

theorem tidy_readMax {q : DataDeque} {d : Data} (maxSize : ℤ) (hq : q.Placed m)
    (hd : d.Placed m) : Tidy m (q.readMax d maxSize) := by
  unfold readMax
  split
  · exact (tidy_readNothing hd).bind (safe_readNothing d) fun _ _ _ _ => Tidy.pure _
  · next fr rest heq =>
      have hfr : fr.Placed m := hq fr (by simp [heq])
      have hrest : ∀ x ∈ rest, x.Placed m := fun x hx => hq x (by simp [heq, hx])
      split
      · exact (tidy_readFront rest q.size hfr hd).bind (safe_readFront q.size d hfr hrest)
          fun _ _ _ _ => Tidy.pure _
      · have hslice := Data.safe_mkSlice hfr 0 maxSize
        refine (Data.tidy_mkSlice hfr 0 maxSize).bind hslice fun temp m₁ hm₁ htemp => ?_
        refine (Data.tidy_assign (hm₁.placed hd) htemp).bind (Data.safe_assign d htemp)
          fun x m₂ hm₂ _ => ?_
        refine (Data.tidy_destroy (hm₂.placed htemp)).bind (Data.safe_destroy temp)
          fun _ m₃ hm₃ _ => ?_
        have hfr₃ := ((hm₁.trans hm₂).trans hm₃).placed hfr
        refine (Data.tidy_mkSlice hfr₃ maxSize _).attempt.bind
          (Data.safe_mkSlice hfr₃ maxSize _).attempt fun r m₄ hm₄ hr => ?_
        rcases r with e | temp'
        · exact Tidy.pure _
        · have htemp' := hr temp' rfl
          refine (Data.tidy_assign (hm₄.placed hfr₃) htemp').bind (Data.safe_assign fr htemp')
            fun _ m₅ hm₅ _ => ?_
          exact (Data.tidy_destroy (hm₅.placed htemp')).bind (Data.safe_destroy temp')
            fun _ _ _ _ => Tidy.pure _

theorem tidy_destroyAll {ds : List Data} (h : ∀ d ∈ ds, d.Placed m) :
    Tidy m (destroyAll ds) := by
  induction ds generalizing m with
  | nil => exact Tidy.pure _
  | cons d rest ih =>
      refine (Data.tidy_destroy (h d List.mem_cons_self)).bind (Data.safe_destroy d)
        fun _ _ hm _ => ?_
      exact ih fun x hx => hm.placed (h x (List.mem_cons_of_mem d hx))

end DataDeque

namespace Program

variable {s s' : Program}

/-- After a computation, and whatever is done with its result. -/
theorem run_sound {α : Type} {x : DataM α} {k : α → Program → Program} (h : s.mem.Sound)
    (hx : Tidy s.mem x) (hrun : s.run x k = some s')
    (hk : ∀ a m, (k a { s with mem := m }).mem = m) : s'.mem.Sound := by
  obtain ⟨r, m, hres, ⟨a, -, rfl⟩ | rfl⟩ := run_cases hrun
  · rw [hk]
    exact hx s.mem _ m ⟨Mem.Keeps.refl _, h⟩ hres
  · exact hx s.mem _ m ⟨Mem.Keeps.refl _, h⟩ hres

theorem declare_sound {x : DataM Data} (h : s.mem.Sound) (hx : Tidy s.mem x)
    (hrun : s.declare x = some s') : s'.mem.Sound :=
  run_sound h hx hrun fun _ _ => rfl

/-- **One operation** deletes nothing that was not made. -/
theorem sound_step {op : DataOp} (hplaced : s.Placed) (h : s.mem.Sound)
    (hstep : s.step op = some s') : s'.mem.Sound := by
  cases op with
  | mkDefault => exact declare_sound h (Data.tidy_mkSize 0 []) hstep
  | mkSize size raw => exact declare_sound h (Data.tidy_mkSize size raw) hstep
  | mkBytes size data => exact declare_sound h (Data.tidy_mkBytes size data) hstep
  | mkCopy r =>
      obtain ⟨d, -, hrun⟩ := Option.bind_eq_some_iff.mp hstep
      exact declare_sound h (Data.tidy_mkCopy d) hrun
  | mkSlice r pos si =>
      obtain ⟨d, hd, hrun⟩ := Option.bind_eq_some_iff.mp hstep
      exact declare_sound h (Data.tidy_mkSlice (hplaced.var hd) pos si) hrun
  | assign l r =>
      obtain ⟨self, hself, hrest⟩ := Option.bind_eq_some_iff.mp hstep
      obtain ⟨d, hd, hrun⟩ := Option.bind_eq_some_iff.mp hrest
      exact run_sound h (Data.tidy_assign (hplaced.var hself) (hplaced.var hd)) hrun
        fun _ _ => rfl
  | swap a b =>
      obtain ⟨x, -, hrest⟩ := Option.bind_eq_some_iff.mp hstep
      obtain ⟨y, -, heq⟩ := Option.bind_eq_some_iff.mp hrest
      obtain rfl := Option.some.inj heq
      exact h
  | destroy d =>
      obtain ⟨self, hself, hrun⟩ := Option.bind_eq_some_iff.mp hstep
      exact run_sound h (Data.tidy_destroy (hplaced.var hself)) hrun fun _ _ => rfl
  | getByte d =>
      obtain ⟨self, -, hrun⟩ := Option.bind_eq_some_iff.mp hstep
      exact run_sound h (Data.tidy_getByte self) hrun fun _ _ => rfl
  | fill d value =>
      obtain ⟨self, hself, hrun⟩ := Option.bind_eq_some_iff.mp hstep
      exact run_sound h (Data.tidy_fill (hplaced.var hself) value) hrun fun _ _ => rfl
  | copy d pos other =>
      obtain ⟨self, hself, hrest⟩ := Option.bind_eq_some_iff.mp hstep
      obtain ⟨arg, -, hrun⟩ := Option.bind_eq_some_iff.mp hrest
      exact run_sound h (Data.tidy_copy (hplaced.var hself) pos _) hrun fun _ _ => rfl
  | stores d bs =>
      obtain ⟨self, hself, hrun⟩ := Option.bind_eq_some_iff.mp hstep
      split at hrun
      · exact run_sound h (Data.tidy_stores (hplaced.var hself) bs) hrun fun _ _ => rfl
      · cases hrun
  | dequeNew =>
      obtain rfl := Option.some.inj hstep
      exact h
  | dequeWrite q d =>
      obtain ⟨self, -, hrest⟩ := Option.bind_eq_some_iff.mp hstep
      obtain ⟨data, hdata, hrun⟩ := Option.bind_eq_some_iff.mp hrest
      exact run_sound h (DataDeque.tidy_write self (hplaced.var hdata)) hrun fun _ _ => rfl
  | dequeRead q d =>
      obtain ⟨self, hself, hrest⟩ := Option.bind_eq_some_iff.mp hstep
      obtain ⟨data, hdata, hrun⟩ := Option.bind_eq_some_iff.mp hrest
      exact run_sound h (DataDeque.tidy_read (hplaced.deque hself) (hplaced.var hdata)) hrun
        fun _ _ => rfl
  | dequeReadMax q d maxSize =>
      obtain ⟨self, hself, hrest⟩ := Option.bind_eq_some_iff.mp hstep
      obtain ⟨data, hdata, hrun⟩ := Option.bind_eq_some_iff.mp hrest
      exact run_sound h (DataDeque.tidy_readMax maxSize (hplaced.deque hself) (hplaced.var hdata))
        hrun fun _ _ => rfl
  | dequeDestroy q =>
      obtain ⟨self, hself, hrun⟩ := Option.bind_eq_some_iff.mp hstep
      exact run_sound h (DataDeque.tidy_destroyAll (hplaced.deque hself)) hrun fun _ _ => rfl

/-- **Every run**: what has been deleted was made. -/
theorem sound_of_run {tr : List (Program × DataOp)}
    (hrun : Machine.Run (Machine.Fires step) Program.init tr s) : s.mem.Sound := by
  have hboth : s.Placed ∧ s.mem.Sound := by
    refine hrun.invariant (I := fun s => s.Placed ∧ s.mem.Sound) ?_ ⟨Placed.init, ?_⟩
    · exact fun s op t h hstep => ⟨h.1.step hstep, sound_step h.1 h.2 hstep⟩
    · intro n hn
      cases hn
  exact hboth.2

/-- The next buffer is a fresh one. -/
theorem fresh_of_run {tr : List (Program × DataOp)}
    (hrun : Machine.Run (Machine.Fires step) Program.init tr s) : s.mem.Fresh :=
  (sound_of_run hrun).fresh

end Program

end Craplib
