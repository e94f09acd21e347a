import Mathlib.Order.Nat
import Craplib.Memory.Pointers

/-!
# What each pointer function does to the counters

`Ledger h n s w` says that the counter blocks of `h` (there are `n`, the static
one included) carry exactly the counts `s` and `w`: block `b` has been freed
when `w b = 0`, and otherwise holds `s b` and `w b` modulo the width of a
counter.  The counts are numbers, not counters: they are the book the code's
counters are compared with, and the only place where the modulus matters is a
decrement that reads zero.

Each function of `Pointers` gets one lemma that says how it moves the book, and
no later proof unfolds a pointer function.
-/

namespace Craplib.Memory

/-- The number of values of a counter. -/
def counterRange : ℕ := 2 ^ 32

/-! ## Counters as numbers -/

theorem interlockedIncrement_ofNat (k : ℕ) :
    interlockedIncrement (.ofNat k) = .ofNat (k + 1) := by
  apply UInt32.toNat_inj.mp
  simp [interlockedIncrement, UInt32.toNat_add]

theorem interlockedDecrement_ofNat {k : ℕ} (hk : 0 < k) :
    interlockedDecrement (.ofNat k) = .ofNat (k - 1) := by
  apply UInt32.toNat_inj.mp
  simp only [interlockedDecrement, UInt32.toNat_sub, UInt32.toNat_ofNat', UInt32.toNat_one]
  omega

theorem counter_ofNat_eq_zero {k : ℕ} (hk : k < counterRange) :
    (UInt32.ofNat k = 0) ↔ k = 0 := by
  rw [← UInt32.toNat_inj, UInt32.toNat_ofNat', Nat.mod_eq_of_lt (show k < 2 ^ 32 from hk)]
  rfl

theorem counter_toNat_ofNat {k : ℕ} (hk : k < counterRange) :
    (UInt32.ofNat k).toNat = k := by
  rw [UInt32.toNat_ofNat', Nat.mod_eq_of_lt (show k < 2 ^ 32 from hk)]

/-- Up and down again. -/
@[simp] theorem interlockedDecrement_increment (c : Counter) :
    interlockedDecrement (interlockedIncrement c) = c := by
  simp [interlockedDecrement, interlockedIncrement]

/-! ## The heap -/

namespace Heap

@[simp] theorem deref_store_self {h : Heap} {b : CountersPtr} {c : Counters} (c' : Counters)
    (hc : h.deref b = some c) : (h.store b c').deref b = some c' :=
  Slots.lookup_put_self c' hc

theorem deref_store_ne {h : Heap} {b x : CountersPtr} (c : Counters) (hx : x ≠ b) :
    (h.store b c).deref x = h.deref x :=
  Slots.lookup_put_ne c hx

@[simp] theorem length_store (h : Heap) (b : CountersPtr) (c : Counters) :
    (h.store b c).blocks.length = h.blocks.length := by
  simp [store, Slots.put]

theorem deref_lt {h : Heap} {b : CountersPtr} {c : Counters} (hc : h.deref b = some c) :
    b < h.blocks.length :=
  Slots.lookup_lt hc

@[simp] theorem deleteObject_none (h : Heap) : h.deleteObject none = h := by
  simp [deleteObject]

@[simp] theorem blocks_deleteObject (h : Heap) (p : Option ℕ) :
    (h.deleteObject p).blocks = h.blocks := rfl

end Heap

/-! ## The ledger -/

/-- The count `f` with one more at `b`. -/
def gain (f : ℕ → ℕ) (b : ℕ) : ℕ → ℕ := fun x => f x + if b = x then 1 else 0

/-- The count `f` with one less at `b`. -/
def lose (f : ℕ → ℕ) (b : ℕ) : ℕ → ℕ := fun x => f x - if b = x then 1 else 0

@[simp] theorem gain_self (f : ℕ → ℕ) (b : ℕ) : gain f b b = f b + 1 := by simp [gain]

@[simp] theorem lose_self (f : ℕ → ℕ) (b : ℕ) : lose f b b = f b - 1 := by simp [lose]

theorem gain_ne (f : ℕ → ℕ) {b x : ℕ} (h : x ≠ b) : gain f b x = f x := by
  simp [gain, Ne.symm h]

theorem lose_ne (f : ℕ → ℕ) {b x : ℕ} (h : x ≠ b) : lose f b x = f x := by
  simp [lose, Ne.symm h]

@[simp] theorem lose_gain (f : ℕ → ℕ) (b : ℕ) : lose (gain f b) b = f := by
  funext x
  simp [lose, gain]

theorem gain_lose {f : ℕ → ℕ} {b : ℕ} (h : 0 < f b) : gain (lose f b) b = f := by
  funext x
  simp only [gain, lose]
  split
  · next hx => subst hx; omega
  · rfl

theorem gain_add (f g : ℕ → ℕ) (b : ℕ) :
    (fun x => gain f b x + g x) = gain (fun x => f x + g x) b := by
  funext x
  exact Nat.add_right_comm _ _ _

theorem lose_add {f : ℕ → ℕ} (g : ℕ → ℕ) {b : ℕ} (h : 0 < f b) :
    (fun x => lose f b x + g x) = lose (fun x => f x + g x) b := by
  funext x
  simp only [lose]
  split
  · next hx => subst hx; omega
  · rfl

/-- The deletions `d` after the strong count of `b` went from `s b` down by one:
the object of `b` goes with its last strong reference.  Null has no object. -/
def bury (s d : ℕ → ℕ) (b : ℕ) : ℕ → ℕ :=
  if b ≠ forNulls ∧ s b = 1 then gain d b else d

/-- The blocks of `h` carry the strong counts `s` and the weak counts `w`, and
the object of block `b` has been deleted `d b` times. -/
structure Ledger (h : Heap) (n : ℕ) (s w d : ℕ → ℕ) : Prop where
  len : h.blocks.length = n
  static : ∃ c, h.deref forNulls = some c
  block : ∀ b, b ≠ forNulls → b < n →
    h.deref b = if w b = 0 then none else some ⟨.ofNat (s b), .ofNat (w b)⟩
  deleted : ∀ b, b ≠ forNulls → h.deleted.count b = d b

/-- A handle as every constructor makes it: it names a block that was made, and
the object of that block. -/
def WeakPtr.Made (n : ℕ) (p : WeakPtr) : Prop :=
  p.cnt < n ∧ p.pObj = if p.cnt = forNulls then none else some p.cnt

namespace Ledger

variable {h h' : Heap} {n : ℕ} {s w d : ℕ → ℕ}

theorem lt_of_deref (l : Ledger h n s w d) {b : CountersPtr} {c : Counters}
    (hc : h.deref b = some c) : b < n :=
  l.len ▸ Heap.deref_lt hc

/-- A block that can be read is one that is in use, and it holds its counts. -/
theorem of_deref (l : Ledger h n s w d) {b : CountersPtr} {c : Counters}
    (hc : h.deref b = some c) (hb : b ≠ forNulls) :
    0 < w b ∧ c = ⟨.ofNat (s b), .ofNat (w b)⟩ := by
  have hblock := l.block b hb (l.lt_of_deref hc)
  rw [hc] at hblock
  split at hblock
  · simp at hblock
  · exact ⟨by omega, by simpa using hblock⟩

/-- Only the counts of blocks other than the static one are in the book. -/
theorem congr (l : Ledger h n s w d) {s' w' d' : ℕ → ℕ}
    (hs : ∀ b, b ≠ forNulls → b < n → s' b = s b)
    (hw : ∀ b, b ≠ forNulls → b < n → w' b = w b)
    (hd : ∀ b, b ≠ forNulls → d' b = d b) : Ledger h n s' w' d' where
  len := l.len
  static := l.static
  block b hb hn := by rw [hs b hb hn, hw b hb hn]; exact l.block b hb hn
  deleted b hb := by rw [hd b hb]; exact l.deleted b hb

/-- A write to one block moves the book at that block only. -/
theorem store (l : Ledger h n s w d) {b : CountersPtr} {c c' : Counters}
    (hc : h.deref b = some c) {s' w' : ℕ → ℕ}
    (hs : ∀ x, x ≠ b → s' x = s x) (hw : ∀ x, x ≠ b → w' x = w x)
    (hself : b ≠ forNulls → w' b ≠ 0 ∧ c' = ⟨.ofNat (s' b), .ofNat (w' b)⟩) :
    Ledger (h.store b c') n s' w' d where
  len := by rw [Heap.length_store, l.len]
  static := by
    by_cases hb : forNulls = b
    · subst hb
      exact ⟨c', Heap.deref_store_self c' hc⟩
    · rw [Heap.deref_store_ne c' hb]
      exact l.static
  block x hx hn := by
    by_cases hb : x = b
    · subst hb
      obtain ⟨hw0, rfl⟩ := hself hx
      rw [Heap.deref_store_self _ hc, if_neg hw0]
    · rw [Heap.deref_store_ne c' hb, hs x hb, hw x hb]
      exact l.block x hx hn
  deleted := l.deleted

end Ledger

/-- The ledger of a program that has constructed nothing. -/
theorem ledger_init : Ledger Heap.init 1 (fun _ => 0) (fun _ => 0) (fun _ => 0) where
  len := rfl
  static := ⟨⟨1, 1⟩, rfl⟩
  block _ hb hn := absurd (Nat.lt_one_iff.mp hn) hb
  deleted _ _ := rfl

/-! ## `WeakPtr` -/

section Weak

variable {h h' : Heap} {n : ℕ} {s w d : ℕ → ℕ} {p : WeakPtr}

theorem WeakPtr.attach_spec (l : Ledger h n s w d) (ha : p.attach h = some h') :
    Ledger h' n s (gain w p.cnt) d := by
  obtain ⟨c, hc, hst⟩ := Option.bind_eq_some_iff.mp ha
  obtain rfl : h.store p.cnt _ = h' := Option.some.inj hst
  refine l.store hc (fun _ _ => rfl) (fun _ => gain_ne w) (fun hb => ?_)
  obtain ⟨-, rfl⟩ := l.of_deref hc hb
  simp [interlockedIncrement_ofNat]

/-- `detach` frees the block exactly when the weak count falls to zero.  The
bound on the count is what makes the counter read zero only then. -/
theorem WeakPtr.detach_spec (l : Ledger h n s w d)
    (hcap : p.cnt ≠ forNulls → w p.cnt ≤ counterRange)
    (hd : p.detach h = some h') : Ledger h' n s (lose w p.cnt) d := by
  obtain ⟨c, hc, hst⟩ := Option.bind_eq_some_iff.mp hd
  have hn := l.lt_of_deref hc
  by_cases hb : p.cnt = forNulls
  · -- the static block: the book does not speak of it, and freeing it is undefined
    dsimp only at hst
    split at hst
    · simp [Heap.deleteCounters, hb] at hst
    · obtain rfl : h.store p.cnt _ = h' := Option.some.inj hst
      exact l.store hc (fun _ _ => rfl) (fun _ => lose_ne w) (absurd hb)
  · obtain ⟨hpos, rfl⟩ := l.of_deref hc hb
    have hw : w p.cnt - 1 < counterRange := by have := hcap hb; omega
    dsimp only at hst
    simp only [interlockedDecrement_ofNat hpos, counter_ofNat_eq_zero hw] at hst
    split at hst
    next hzero =>
      rw [Heap.deleteCounters, if_neg hb] at hst
      obtain rfl := Option.some.inj hst
      refine ⟨by simpa [Slots.remove] using l.len, ?_, fun x hx hxn => ?_, l.deleted⟩
      · obtain ⟨c₀, hc₀⟩ := l.static
        have hne : forNulls ≠ p.cnt := Ne.symm hb
        exact ⟨c₀, (Slots.lookup_remove_ne hne).trans
          ((Heap.deref_store_ne _ hne).trans hc₀)⟩
      · by_cases hxb : x = p.cnt
        · subst hxb
          rw [lose_self, if_pos hzero]
          exact Slots.lookup_remove_self _ _
        · rw [lose_ne w hxb, ← l.block x hx hxn]
          exact (Slots.lookup_remove_ne hxb).trans (Heap.deref_store_ne _ hxb)
    next hzero =>
      obtain rfl : h.store p.cnt _ = h' := Option.some.inj hst
      refine l.store hc (fun _ _ => rfl) (fun _ => lose_ne w) (fun _ => ?_)
      simpa using hzero

/-- `WeakPtr()` touches the static block only. -/
theorem WeakPtr.mkDefault_spec (l : Ledger h n s w d)
    (hd : WeakPtr.mkDefault h = some (p, h')) :
    p = ⟨none, forNulls⟩ ∧ Ledger h' n s w d := by
  obtain ⟨h₁, ha, heq⟩ := Option.bind_eq_some_iff.mp hd
  obtain ⟨rfl, rfl⟩ : _ = p ∧ h₁ = h' := by simpa using heq
  exact ⟨rfl, (WeakPtr.attach_spec l ha).congr (fun _ _ _ => rfl)
    (fun b hb _ => (gain_ne w hb).symm) fun _ _ => rfl⟩

theorem WeakPtr.mkCopy_spec {r : WeakPtr} (l : Ledger h n s w d)
    (hc : WeakPtr.mkCopy r h = some (p, h')) :
    p = r ∧ Ledger h' n s (gain w r.cnt) d := by
  obtain ⟨h₁, ha, heq⟩ := Option.bind_eq_some_iff.mp hc
  obtain ⟨rfl, rfl⟩ : _ = p ∧ h₁ = h' := by simpa using heq
  exact ⟨rfl, WeakPtr.attach_spec l ha⟩

theorem WeakPtr.ofShared_spec {q : SharedPtr} (l : Ledger h n s w d)
    (hc : WeakPtr.ofShared q h = some (p, h')) :
    p = q.ptr ∧ Ledger h' n s (gain w q.ptr.cnt) d := by
  obtain ⟨h₁, ha, heq⟩ := Option.bind_eq_some_iff.mp hc
  obtain ⟨rfl, rfl⟩ : _ = p ∧ h₁ = h' := by simpa using heq
  exact ⟨rfl, WeakPtr.attach_spec l ha⟩

theorem WeakPtr.assign_spec {self r : WeakPtr} (l : Ledger h n s w d)
    (hcap : self.cnt ≠ forNulls → w self.cnt < counterRange)
    (ha : self.assign r h = some (p, h')) :
    p = r ∧ Ledger h' n s (lose (gain w r.cnt) self.cnt) d := by
  obtain ⟨⟨temp, h₁⟩, hcopy, hrest⟩ := Option.bind_eq_some_iff.mp ha
  obtain ⟨h₂, hdrop, heq⟩ := Option.bind_eq_some_iff.mp hrest
  obtain ⟨rfl, rfl⟩ : temp = p ∧ h₂ = h' := by simpa using heq
  obtain ⟨rfl, l₁⟩ := WeakPtr.mkCopy_spec l hcopy
  refine ⟨rfl, WeakPtr.detach_spec l₁ (fun hb => ?_) hdrop⟩
  have := hcap hb
  simp only [gain]
  split <;> omega

end Weak

/-! ## `SharedPtr` -/

section Shared

variable {h h' : Heap} {n : ℕ} {s w d : ℕ → ℕ} {p : SharedPtr}

theorem SharedPtr.attach_spec (l : Ledger h n s w d) (ha : p.attach h = some h') :
    Ledger h' n (gain s p.ptr.cnt) w d := by
  obtain ⟨c, hc, hst⟩ := Option.bind_eq_some_iff.mp ha
  obtain rfl : h.store p.ptr.cnt _ = h' := Option.some.inj hst
  refine l.store hc (fun _ => gain_ne s) (fun _ _ => rfl) (fun hb => ?_)
  obtain ⟨hpos, rfl⟩ := l.of_deref hc hb
  simp [interlockedIncrement_ofNat, hpos.ne']

/-- `detach` deletes the object exactly when the strong count falls to zero. -/
theorem SharedPtr.detach_spec (l : Ledger h n s w d) (hmade : p.ptr.Made n)
    (hcap : p.ptr.cnt ≠ forNulls → 0 < s p.ptr.cnt ∧ s p.ptr.cnt ≤ counterRange)
    (hd : p.detach h = some h') :
    Ledger h' n (lose s p.ptr.cnt) w (bury s d p.ptr.cnt) := by
  obtain ⟨c, hc, hst⟩ := Option.bind_eq_some_iff.mp hd
  dsimp only at hst
  by_cases hb : p.ptr.cnt = forNulls
  · -- the null pointer: whatever the static counter reads, nothing is deleted
    have hnull : p.ptr.pObj = none := by simpa [hb] using hmade.2
    have hsame : bury s d p.ptr.cnt = d := by simp [bury, hb]
    rw [hnull, Heap.deleteObject_none, ite_self] at hst
    obtain rfl : h.store p.ptr.cnt _ = h' := Option.some.inj hst
    rw [hsame]
    exact l.store hc (fun _ => lose_ne s) (fun _ _ => rfl) (absurd hb)
  · obtain ⟨hw, rfl⟩ := l.of_deref hc hb
    obtain ⟨hs, hle⟩ := hcap hb
    have hrange : s p.ptr.cnt - 1 < counterRange := by omega
    have hobj : p.ptr.pObj = some p.ptr.cnt := by simpa [hb] using hmade.2
    simp only [interlockedDecrement_ofNat hs, counter_ofNat_eq_zero hrange] at hst
    have l₁ : Ledger (h.store p.ptr.cnt ⟨.ofNat (s p.ptr.cnt - 1), .ofNat (w p.ptr.cnt)⟩) n
        (lose s p.ptr.cnt) w d :=
      l.store hc (fun _ => lose_ne s) (fun _ _ => rfl) (fun _ => by simp [hw.ne'])
    split at hst
    next hzero =>
      obtain rfl := Option.some.inj hst
      have hdies : bury s d p.ptr.cnt = gain d p.ptr.cnt :=
        if_pos ⟨hb, by omega⟩
      refine ⟨by simpa using l₁.len, l₁.static, l₁.block, fun x hx => ?_⟩
      rw [hdies, Heap.deleteObject, hobj, gain, ← l₁.deleted x hx]
      simp [List.count_append, List.count_singleton]
    next hzero =>
      obtain rfl : h.store p.ptr.cnt _ = h' := Option.some.inj hst
      have hlives : bury s d p.ptr.cnt = d := if_neg (by omega)
      rw [hlives]
      exact l₁

theorem SharedPtr.mkDefault_spec (l : Ledger h n s w d)
    (hd : SharedPtr.mkDefault h = some (p, h')) :
    p = ⟨⟨none, forNulls⟩⟩ ∧ Ledger h' n s w d := by
  obtain ⟨⟨q, h₁⟩, hq, hrest⟩ := Option.bind_eq_some_iff.mp hd
  obtain ⟨h₂, ha, heq⟩ := Option.bind_eq_some_iff.mp hrest
  obtain ⟨rfl, rfl⟩ : _ = p ∧ h₂ = h' := by simpa using heq
  obtain ⟨rfl, l₁⟩ := WeakPtr.mkDefault_spec l hq
  exact ⟨rfl, (SharedPtr.attach_spec l₁ ha).congr (fun b hb _ => (gain_ne s hb).symm)
    (fun _ _ _ => rfl) fun _ _ => rfl⟩

/-- The private constructor adds a strong reference and **no** weak one: its
`ptr` was counted against the static block. -/
theorem SharedPtr.ofCounters_spec {o : Option ℕ} {b : CountersPtr} (l : Ledger h n s w d)
    (hc : SharedPtr.ofCounters o b h = some (p, h')) :
    p = ⟨⟨o, b⟩⟩ ∧ Ledger h' n (gain s b) w d := by
  obtain ⟨⟨q, h₁⟩, hq, hrest⟩ := Option.bind_eq_some_iff.mp hc
  obtain ⟨h₂, ha, heq⟩ := Option.bind_eq_some_iff.mp hrest
  obtain ⟨rfl, rfl⟩ : _ = p ∧ h₂ = h' := by simpa using heq
  obtain ⟨-, l₁⟩ := WeakPtr.mkDefault_spec l hq
  exact ⟨rfl, SharedPtr.attach_spec l₁ ha⟩

theorem SharedPtr.mkCopy_spec {r : SharedPtr} (l : Ledger h n s w d)
    (hc : SharedPtr.mkCopy r h = some (p, h')) :
    p = r ∧ Ledger h' n (gain s r.ptr.cnt) (gain w r.ptr.cnt) d := by
  obtain ⟨⟨q, h₁⟩, hq, hrest⟩ := Option.bind_eq_some_iff.mp hc
  obtain ⟨h₂, ha, heq⟩ := Option.bind_eq_some_iff.mp hrest
  obtain ⟨rfl, rfl⟩ : _ = p ∧ h₂ = h' := by simpa using heq
  obtain ⟨rfl, l₁⟩ := WeakPtr.mkCopy_spec l hq
  exact ⟨rfl, SharedPtr.attach_spec l₁ ha⟩

theorem SharedPtr.destroy_spec (l : Ledger h n s w d) (hmade : p.ptr.Made n)
    (hcap : p.ptr.cnt ≠ forNulls →
      0 < s p.ptr.cnt ∧ s p.ptr.cnt ≤ counterRange ∧ w p.ptr.cnt ≤ counterRange)
    (hd : p.destroy h = some h') :
    Ledger h' n (lose s p.ptr.cnt) (lose w p.ptr.cnt) (bury s d p.ptr.cnt) := by
  obtain ⟨h₁, hs, hw⟩ := Option.bind_eq_some_iff.mp hd
  have l₁ := SharedPtr.detach_spec l hmade (fun hb => ⟨(hcap hb).1, (hcap hb).2.1⟩) hs
  exact WeakPtr.detach_spec l₁ (fun hb => (hcap hb).2.2) hw

theorem SharedPtr.assign_spec {self r : SharedPtr} (l : Ledger h n s w d)
    (hmade : self.ptr.Made n)
    (hcap : self.ptr.cnt ≠ forNulls →
      0 < s self.ptr.cnt ∧ s self.ptr.cnt < counterRange ∧ w self.ptr.cnt < counterRange)
    (ha : self.assign r h = some (p, h')) :
    p = r ∧ Ledger h' n (lose (gain s r.ptr.cnt) self.ptr.cnt)
      (lose (gain w r.ptr.cnt) self.ptr.cnt) (bury (gain s r.ptr.cnt) d self.ptr.cnt) := by
  obtain ⟨⟨temp, h₁⟩, hcopy, hrest⟩ := Option.bind_eq_some_iff.mp ha
  obtain ⟨h₂, hdrop, heq⟩ := Option.bind_eq_some_iff.mp hrest
  obtain ⟨rfl, rfl⟩ : temp = p ∧ h₂ = h' := by simpa using heq
  obtain ⟨rfl, l₁⟩ := SharedPtr.mkCopy_spec l hcopy
  refine ⟨rfl, SharedPtr.destroy_spec l₁ hmade (fun hb => ?_) hdrop⟩
  have := hcap hb
  simp only [gain]
  split <;> omega

/-- A copy is the handle it is made from, whatever the heap holds. -/
theorem SharedPtr.mkCopy_fst {r : SharedPtr} (hc : SharedPtr.mkCopy r h = some (p, h')) :
    p = r := by
  obtain ⟨⟨w, h₁⟩, hw, hrest⟩ := Option.bind_eq_some_iff.mp hc
  obtain ⟨h₂, -, heq⟩ := Option.bind_eq_some_iff.mp hrest
  obtain ⟨rfl, -⟩ : _ = p ∧ h₂ = h' := by simpa using heq
  obtain ⟨h₃, -, heq⟩ := Option.bind_eq_some_iff.mp hw
  obtain ⟨rfl, -⟩ : _ = w ∧ h₃ = h₁ := by simpa using heq
  rfl

/-- An assigned handle is a copy of the right-hand side. -/
theorem SharedPtr.assign_fst {self r : SharedPtr} (ha : self.assign r h = some (p, h')) :
    p = r := by
  obtain ⟨⟨temp, h₁⟩, hcopy, hrest⟩ := Option.bind_eq_some_iff.mp ha
  obtain ⟨h₂, -, heq⟩ := Option.bind_eq_some_iff.mp hrest
  obtain ⟨rfl, -⟩ : temp = p ∧ h₂ = h' := by simpa using heq
  exact SharedPtr.mkCopy_fst hcopy

theorem SharedPtr.ofCounters_fst {o : Option ℕ} {b : CountersPtr}
    (hc : SharedPtr.ofCounters o b h = some (p, h')) : p = ⟨⟨o, b⟩⟩ := by
  obtain ⟨⟨w, h₁⟩, -, hrest⟩ := Option.bind_eq_some_iff.mp hc
  obtain ⟨h₂, -, heq⟩ := Option.bind_eq_some_iff.mp hrest
  obtain ⟨rfl, -⟩ : _ = p ∧ h₂ = h' := by simpa using heq
  rfl

/-- A `SharedPtr` made from a pointer manages that object, and nothing is deleted. -/
theorem SharedPtr.ofPtr_obj {o : Option ℕ} (hp : SharedPtr.ofPtr o h = some (p, h')) :
    p.ptr.pObj = o ∧ h'.deleted = h.deleted := by
  obtain ⟨⟨w, h₁⟩, hw, hrest⟩ := Option.bind_eq_some_iff.mp hp
  obtain ⟨h₂, ha, heq⟩ := Option.bind_eq_some_iff.mp hrest
  obtain ⟨rfl, rfl⟩ : _ = p ∧ h₂ = h' := by simpa using heq
  obtain ⟨h₃, hattach, heq⟩ := Option.bind_eq_some_iff.mp hw
  obtain ⟨rfl, rfl⟩ : _ = w ∧ h₃ = h₁ := by simpa using heq
  obtain ⟨cw, -, hst⟩ := Option.bind_eq_some_iff.mp hattach
  obtain ⟨cs, -, hst'⟩ := Option.bind_eq_some_iff.mp ha
  obtain rfl := Option.some.inj hst
  obtain rfl := Option.some.inj hst'
  exact ⟨rfl, rfl⟩

/-- A fresh object gets a block of its own, used by one `SharedPtr`. -/
theorem SharedPtr.ofPtr_spec {o : Option ℕ} (l : Ledger h n s w d) (hs : s n = 0) (hw : w n = 0)
    (hp : SharedPtr.ofPtr o h = some (p, h')) :
    p = ⟨⟨o, n⟩⟩ ∧ Ledger h' (n + 1) (gain s n) (gain w n) d := by
  obtain ⟨⟨q, h₁⟩, hq, hrest⟩ := Option.bind_eq_some_iff.mp hp
  obtain ⟨h₂, ha, heq⟩ := Option.bind_eq_some_iff.mp hrest
  obtain ⟨rfl, rfl⟩ : _ = p ∧ h₂ = h' := by simpa using heq
  obtain ⟨h₀, hwa, hqeq⟩ := Option.bind_eq_some_iff.mp hq
  obtain ⟨rfl, rfl⟩ : _ = q ∧ h₀ = h₁ := by simpa using hqeq
  obtain ⟨cw, hcw, hst⟩ := Option.bind_eq_some_iff.mp hwa
  obtain rfl := Option.some.inj hst
  obtain ⟨cs, hcs, hst⟩ := Option.bind_eq_some_iff.mp ha
  obtain rfl := Option.some.inj hst
  have hn : h.blocks.length = n := l.len
  simp only [hn] at hcw hcs ⊢
  -- the new block reads 0, 0 before the two increments
  obtain rfl : ⟨0, 0⟩ = cw := by
    have hself := Slots.lookup_insert_self h.blocks (⟨0, 0⟩ : Counters)
    rw [hn] at hself
    exact Option.some.inj (hself.symm.trans hcw)
  rw [Heap.deref_store_self _ hcw] at hcs
  obtain rfl := Option.some.inj hcs
  have hone : ∀ x, x ≠ n → x < n + 1 → x < n := by omega
  refine ⟨trivial, by simp [Slots.insert, hn], ?_, fun x hx hxn => ?_, l.deleted⟩
  · obtain ⟨c₀, hc₀⟩ := l.static
    have hlt := l.lt_of_deref hc₀
    refine ⟨c₀, ?_⟩
    rw [Heap.deref_store_ne _ hlt.ne, Heap.deref_store_ne _ hlt.ne]
    exact (Slots.lookup_insert_of_lt _ (hn.symm ▸ hlt)).trans hc₀
  · by_cases hxb : x = n
    · subst hxb
      rw [Heap.deref_store_self _ (Heap.deref_store_self _ hcw), gain_self, gain_self, hs, hw]
      rfl
    · have hlt := hone x hxb hxn
      rw [Heap.deref_store_ne _ hxb, Heap.deref_store_ne _ hxb, gain_ne s hxb, gain_ne w hxb,
        ← l.block x hx hlt]
      exact Slots.lookup_insert_of_lt _ (hn.symm ▸ hlt)

end Shared

/-! ## `WeakPtr::lock` -/

section Lock

variable {h h' : Heap} {n : ℕ} {s w d : ℕ → ℕ} {p : WeakPtr} {q : SharedPtr}

/-- The increment `lock` makes before it knows whether the object is alive. -/
theorem Ledger.incSc (l : Ledger h n s w d) {b : CountersPtr} {c : Counters}
    (hc : h.deref b = some c) :
    Ledger (h.store b { c with sc := interlockedIncrement c.sc }) n (gain s b) w d := by
  refine l.store hc (fun _ => gain_ne s) (fun _ _ => rfl) (fun hb => ?_)
  obtain ⟨hpos, rfl⟩ := l.of_deref hc hb
  simp [interlockedIncrement_ofNat, hpos.ne']

/-- The decrement with which `lock` takes it back; it deletes nothing. -/
theorem Ledger.decSc (l : Ledger h n s w d) {b : CountersPtr} {c : Counters}
    (hc : h.deref b = some c) (hs : b ≠ forNulls → 0 < s b) :
    Ledger (h.store b { c with sc := interlockedDecrement c.sc }) n (lose s b) w d := by
  refine l.store hc (fun _ => lose_ne s) (fun _ _ => rfl) (fun hb => ?_)
  obtain ⟨hpos, rfl⟩ := l.of_deref hc hb
  simp [interlockedDecrement_ofNat (hs hb), hpos.ne']

/-- What `lock` does, statement by statement. -/
theorem WeakPtr.lock_cases (hk : p.lock h = some (q, h')) :
    ∃ c r h₁ h₂ c', h.deref p.cnt = some c ∧
      SharedPtr.mkDefault (h.store p.cnt { c with sc := interlockedIncrement c.sc }) =
        some (r, h₁) ∧
      (if interlockedIncrement c.sc ≠ 1 then p.assignLocked r h₁ else some (r, h₁)) =
        some (q, h₂) ∧
      h₂.deref p.cnt = some c' ∧
      h' = h₂.store p.cnt { c' with sc := interlockedDecrement c'.sc } := by
  obtain ⟨c, hc, hk⟩ := Option.bind_eq_some_iff.mp hk
  obtain ⟨⟨r, h₁⟩, hr, hk⟩ := Option.bind_eq_some_iff.mp hk
  obtain ⟨⟨r', h₂⟩, hif, hk⟩ := Option.bind_eq_some_iff.mp hk
  obtain ⟨c', hc', heq⟩ := Option.bind_eq_some_iff.mp hk
  obtain ⟨rfl, rfl⟩ : r' = q ∧ _ = h' := by simpa using heq
  exact ⟨c, r, h₁, h₂, c', hc, hr, hif, hc', rfl⟩

/-- The object is gone: `lock` returns null and leaves the counters alone. -/
theorem WeakPtr.lock_spec_of_dead (l : Ledger h n s w d) (hb : p.cnt ≠ forNulls)
    (hs : s p.cnt = 0) (hk : p.lock h = some (q, h')) :
    q = ⟨⟨none, forNulls⟩⟩ ∧ Ledger h' n s w d := by
  obtain ⟨c, r, h₁, h₂, c', hc, hr, hif, hc', rfl⟩ := WeakPtr.lock_cases hk
  have hone : interlockedIncrement c.sc = 1 := by
    obtain ⟨-, rfl⟩ := l.of_deref hc hb
    rw [interlockedIncrement_ofNat, hs]
    rfl
  obtain ⟨rfl, rfl⟩ : r = q ∧ h₁ = h₂ := by simpa [hone] using hif
  obtain ⟨rfl, l₁⟩ := SharedPtr.mkDefault_spec (l.incSc hc) hr
  exact ⟨rfl, by simpa using l₁.decSc hc' (fun _ => by simp)⟩

/-- The statement `result = SharedPtr<T>(pObj, cnt);` on a null `result` leaves
one strong reference more, and no weak one: the weak increment that the new
handle owes went to the static block, when its `ptr` was default-constructed. -/
theorem WeakPtr.assignLocked_spec {r : SharedPtr} (l : Ledger h n s w d) (hmade : p.Made n)
    (hr : r = ⟨⟨none, forNulls⟩⟩)
    (hcap : p.cnt ≠ forNulls → s p.cnt + 2 ≤ counterRange ∧ w p.cnt + 1 ≤ counterRange)
    (ha : p.assignLocked r h = some (q, h')) :
    q = ⟨p⟩ ∧ Ledger h' n (gain s p.cnt) w d := by
  obtain ⟨⟨temp, h₁⟩, htemp, ha⟩ := Option.bind_eq_some_iff.mp ha
  obtain ⟨⟨r', h₂⟩, hassign, ha⟩ := Option.bind_eq_some_iff.mp ha
  obtain ⟨h₃, hdrop, heq⟩ := Option.bind_eq_some_iff.mp ha
  obtain ⟨rfl, rfl⟩ : r' = q ∧ h₃ = h' := by simpa using heq
  obtain ⟨rfl, l₁⟩ := SharedPtr.ofCounters_spec l htemp
  subst hr
  have hpos : 0 < n := Nat.zero_lt_of_lt hmade.1
  obtain ⟨rfl, l₂⟩ := SharedPtr.assign_spec l₁ ⟨hpos, rfl⟩ (absurd rfl) hassign
  -- the null handle that `result` was is not in the book
  have l₃ : Ledger h₂ n (gain (gain s p.cnt) p.cnt) (gain w p.cnt) d :=
    l₂.congr (fun b hb _ => (lose_ne _ hb).symm) (fun b hb _ => (lose_ne _ hb).symm)
      fun b _ => by simp [bury]
  have l₄ := SharedPtr.destroy_spec l₃ hmade
    (fun hb => by have := hcap hb; simp only [gain_self]; omega) hdrop
  have hkeep : bury (gain (gain s p.cnt) p.cnt) d p.cnt = d :=
    if_neg (by simp only [gain_self]; omega)
  simp only [lose_gain, hkeep] at l₄
  exact ⟨rfl, l₄⟩

/-- The object is there: the returned `SharedPtr` is counted as a strong
reference, and **not** as a weak one. -/
theorem WeakPtr.lock_spec_of_live (l : Ledger h n s w d) (hmade : p.Made n)
    (hb : p.cnt ≠ forNulls) (hs : 0 < s p.cnt)
    (hcap : s p.cnt + 3 ≤ counterRange ∧ w p.cnt + 1 ≤ counterRange)
    (hk : p.lock h = some (q, h')) :
    q = ⟨p⟩ ∧ Ledger h' n (gain s p.cnt) w d := by
  obtain ⟨c, r, h₁, h₂, c', hc, hr, hif, hc', rfl⟩ := WeakPtr.lock_cases hk
  have hone : interlockedIncrement c.sc ≠ 1 := by
    obtain ⟨-, rfl⟩ := l.of_deref hc hb
    intro h1
    have hzero : UInt32.ofNat (s p.cnt) = 0 := by
      rw [← interlockedDecrement_increment (UInt32.ofNat (s p.cnt)), h1]
      rfl
    have hsmall : s p.cnt < counterRange := by omega
    have := (counter_ofNat_eq_zero hsmall).mp hzero
    omega
  rw [if_pos hone] at hif
  obtain ⟨rfl, l₁⟩ := SharedPtr.mkDefault_spec (l.incSc hc) hr
  obtain ⟨rfl, l₂⟩ := WeakPtr.assignLocked_spec l₁ hmade rfl
    (fun _ => by simp only [gain_self]; omega) hif
  exact ⟨rfl, by simpa using l₂.decSc hc' (fun _ => by simp)⟩

/-- A `lock` that reads a strong count other than zero returns a handle of the
same object and block, whatever else the heap holds. -/
theorem WeakPtr.lock_fst_of_live {c : Counters} (hc : h.deref p.cnt = some c) (hs : c.sc ≠ 0)
    (hk : p.lock h = some (q, h')) : q = ⟨p⟩ := by
  obtain ⟨c', r, h₁, h₂, -, hc', -, hif, -, -⟩ := WeakPtr.lock_cases hk
  obtain rfl : c = c' := Option.some.inj (hc.symm.trans hc')
  have hone : interlockedIncrement c.sc ≠ 1 := by
    intro h1
    apply hs
    rw [← interlockedDecrement_increment c.sc, h1]
    rfl
  rw [if_pos hone] at hif
  obtain ⟨⟨temp, h₃⟩, htemp, hif⟩ := Option.bind_eq_some_iff.mp hif
  obtain ⟨⟨r₁, h₄⟩, hassign, hif⟩ := Option.bind_eq_some_iff.mp hif
  obtain ⟨h₅, -, heq⟩ := Option.bind_eq_some_iff.mp hif
  obtain ⟨rfl, -⟩ : r₁ = q ∧ h₅ = h₂ := by simpa using heq
  rw [SharedPtr.assign_fst hassign, SharedPtr.ofCounters_fst htemp]

/-- A null `WeakPtr` locks to null, whatever the static counters read. -/
theorem WeakPtr.lock_spec_of_null (l : Ledger h n s w d) (hmade : p.Made n)
    (hb : p.cnt = forNulls) (hk : p.lock h = some (q, h')) :
    q = ⟨⟨none, forNulls⟩⟩ ∧ Ledger h' n s w d := by
  obtain rfl : p = ⟨none, forNulls⟩ := by
    obtain ⟨-, hobj⟩ := hmade
    cases p
    simp_all
  obtain ⟨c, r, h₁, h₂, c', hc, hr, hif, hc', rfl⟩ := WeakPtr.lock_cases hk
  have hsame : ∀ s' : ℕ → ℕ, (∀ b, b ≠ forNulls → s' b = s b) → ∀ {h₀},
      Ledger h₀ n s' w d → Ledger h₀ n s w d := fun s' hs' h₀ l₀ =>
    l₀.congr (fun b hb _ => (hs' b hb).symm) (fun _ _ _ => rfl) fun _ _ => rfl
  obtain ⟨rfl, l₁⟩ := SharedPtr.mkDefault_spec (l.incSc hc) hr
  have l₁ := hsame _ (fun b hb => gain_ne s hb) l₁
  have hmid : q = ⟨⟨none, forNulls⟩⟩ ∧ Ledger h₂ n s w d := by
    split at hif
    · obtain ⟨rfl, l₂⟩ := WeakPtr.assignLocked_spec l₁ hmade rfl (absurd rfl) hif
      exact ⟨rfl, hsame _ (fun b hb => gain_ne s hb) l₂⟩
    · obtain ⟨rfl, rfl⟩ : _ = q ∧ h₁ = h₂ := by simpa using hif
      exact ⟨rfl, l₁⟩
  exact ⟨hmid.1, hsame _ (fun b hb => lose_ne s hb) (hmid.2.decSc hc' (absurd rfl))⟩

end Lock

end Craplib.Memory
