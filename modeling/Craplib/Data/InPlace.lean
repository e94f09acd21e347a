import Craplib.Data.Fifo

/-!
# What `fill` and `copy` leave in the handle's own window

`Data::lock` returns `impl->data`, the beginning of the buffer, and `fill` and `copy`
store from there on: bytes meant for offset `i` of the window land at offset `i` of the
buffer, `position` places too early.  The value returned and the exception are right,
and so are the bytes when `position` is zero or when `lock` copies the buffer (a strong
count that reads zero); otherwise they are exactly when the byte that lands on each place
of the window happens to be the one meant for it (`Lands`).

* `shown_write` — the window after a store in the buffer, place by place.
* `lock_shown` — `lock` leaves what the handle shows as it was.
* `own_window_iff` — `fill` and `copy`, for every handle that shows something.
-/

namespace Craplib

open Memory Effects

/-- The byte that lands on offset `i` when `bs` is stored from `start` on. -/
def landed (bs : List Byte) (start i : ℕ) : Option Byte :=
  if start ≤ i then bs[i - start]? else none

/-- Stored `offset` places too early, the bytes that are meant for place `start` of a window
`old` leave every place of it as if they had been stored there. -/
def Lands (old bs : List Byte) (start offset : ℕ) : Prop :=
  ∀ i < old.length, (landed bs start (offset + i)).or old[i]? = (landed bs start i).or old[i]?

instance (old bs : List Byte) (start offset : ℕ) : Decidable (Lands old bs start offset) :=
  inferInstanceAs (Decidable (∀ i < old.length, _))

/-- Nothing is too early in a window at the beginning of its buffer. -/
theorem Lands.of_offset_zero (old bs : List Byte) (start : ℕ) : Lands old bs start 0 := by
  intro i _
  rw [Nat.zero_add]

namespace Data

variable {m m' : Mem} {d e : Data} {old src : List Byte}

/-! ## A store, seen through a window -/

/-- A handle that shows something is a window inside a live buffer. -/
theorem shown_eq_some : shown m d = some old ↔ ∃ b, m.deref d.impl = some b ∧
    0 ≤ d.position ∧ 0 ≤ d.size ∧ d.position.toNat + d.size.toNat ≤ b.data.length ∧
    old = (b.data.drop d.position.toNat).take d.size.toNat := by
  unfold shown
  rw [Option.bind_eq_some_iff]
  constructor
  · rintro ⟨bs, hbs, htake⟩
    obtain ⟨b, hb, hpos, hle, rfl⟩ := bytesFrom_eq_some.mp hbs
    unfold bytesAt at htake
    split at htake
    · next hsize =>
        rw [List.length_drop] at hsize
        exact ⟨b, hb, hpos, hsize.1, by omega, (Option.some.inj htake).symm⟩
    · cases htake
  · rintro ⟨b, hb, hpos, hsize, hle, rfl⟩
    refine ⟨_, bytesFrom_eq_some.mpr ⟨b, hb, hpos, by omega, rfl⟩, ?_⟩
    rw [bytesAt, if_pos ⟨hsize, by rw [List.length_drop]; omega⟩]

theorem length_shown (h : shown m d = some old) : (old.length : ℤ) = d.size := by
  obtain ⟨b, -, -, hsize, hle, rfl⟩ := shown_eq_some.mp h
  rw [List.length_take, List.length_drop]
  omega

theorem placed_of_shown (h : shown m d = some old) : d.Placed m := by
  obtain ⟨b, hb, hpos, hsize, hle, -⟩ := shown_eq_some.mp h
  obtain ⟨n, hn, -, hlookup⟩ := Mem.deref_eq_some.mp hb
  have hbsize := b.size_eq
  exact ⟨n, b, hn, hlookup, hpos, by omega, by omega⟩

/-- The first bytes behind `getData` are the first bytes shown. -/
theorem take_of_shown {n : ℤ} {bs bs' : List Byte} (h : shown m d = some old)
    (hbs : bytesFrom m d = some bs) (htake : bytesAt bs n = some bs') (hn : n ≤ d.size) :
    bs' = old.take n.toNat := by
  rw [shown, hbs, Option.bind_some] at h
  unfold bytesAt at h htake
  split at h
  · split at htake
    · rw [← Option.some.inj h, ← Option.some.inj htake, List.take_take]
      congr 1
      omega
    · cases htake
  · cases h

/-- **The window after a store**: each place holds the byte that landed on it, or its own. -/
theorem shown_write {bs : List Byte} {start : ℤ} (hd : shown m d = some old)
    (hw : m.write d.impl start bs = some m') : ∃ new, shown m' d = some new ∧
      new.length = old.length ∧ ∀ i < old.length,
        new[i]? = (landed bs start.toNat (d.position.toNat + i)).or old[i]? := by
  obtain ⟨b, hb, hpos, hsize, hle, rfl⟩ := shown_eq_some.mp hd
  obtain ⟨n, c, b', hn, hc, hlookup, -, hlen, hdata, -, rfl⟩ := Mem.write_eq_some hw
  obtain rfl : b = c := Option.some.inj (hb.symm.trans hc)
  have halive := (Mem.alive_of_deref hb hn).1
  have hlength : b'.data.length = b.data.length := by
    rw [hdata, Mem.length_overwrite hlen]
  have hderef : Mem.deref { m with impls := Slots.put m.impls n b' } d.impl = some b' :=
    Mem.deref_eq_some.mpr ⟨n, hn, halive, Slots.lookup_put_self b' hlookup⟩
  refine ⟨_, shown_eq_some.mpr ⟨b', hderef, hpos, hsize, hlength ▸ hle, rfl⟩, ?_, ?_⟩
  · rw [List.length_take, List.length_drop, List.length_take, List.length_drop, hlength]
  · intro i hi
    rw [List.length_take, List.length_drop] at hi
    rw [List.getElem?_take_of_lt (by omega), List.getElem?_take_of_lt (by omega),
      List.getElem?_drop, List.getElem?_drop, hdata, getElem?_overwrite hlen]
    rfl

/-- **The store meant for the window**, and the one that is made: they leave the same bytes
exactly when the bytes land well. -/
theorem shown_write_iff {bs : List Byte} {start : ℤ} (hd : shown m d = some old)
    (hfit : start.toNat + bs.length ≤ old.length)
    (hw : m.write d.impl start bs = some m') :
    shown m' d = some (Mem.overwrite old start.toNat bs) ↔
      Lands old bs start.toNat d.position.toNat := by
  obtain ⟨new, hnew, hlen, hplaces⟩ := shown_write hd hw
  rw [hnew, Option.some.injEq]
  constructor
  · rintro rfl i hi
    rw [← hplaces i hi, getElem?_overwrite hfit]
    rfl
  · intro hlands
    apply List.ext_getElem?
    intro i
    by_cases hi : i < old.length
    · rw [hplaces i hi, hlands i hi, getElem?_overwrite hfit]
      rfl
    · rw [List.getElem?_eq_none (by omega),
        List.getElem?_eq_none (by rw [Mem.length_overwrite hfit]; omega)]

/-! ## `lock` -/

/-- What a new buffer shows that a copy of `data` was made in. -/
theorem shown_mkBytes {size : ℤ} {data : List Byte} {x : Data}
    (h : mkBytes size data m = some (.ok x, m')) :
    x.position = 0 ∧ x.size = size ∧ shown m' x = bytesAt data size := by
  unfold mkBytes at h
  rcases Eff.bind_eq_some.mp h with ⟨e, -, he⟩ | ⟨p, m₁, hnew, hrest⟩
  · cases he
  obtain ⟨_, m₂, hmove, hret⟩ := Eff.bind_ofState_eq_some.mp hrest
  obtain ⟨hx, rfl⟩ := Eff.pure_eq_some.mp hret
  obtain rfl := Except.ok.inj hx
  obtain ⟨bs, hbs, hmove'⟩ := Option.bind_eq_some_iff.mp hmove
  obtain ⟨m₃, hw, heq⟩ := Option.bind_eq_some_iff.mp hmove'
  obtain ⟨-, rfl⟩ := Prod.mk.inj (Option.some.inj heq)
  refine ⟨rfl, rfl, ?_⟩
  rw [hbs]
  have hsize : 0 ≤ size ∧ bs.length = size.toNat := by
    unfold bytesAt at hbs
    split at hbs
    · next hin =>
        obtain rfl := Option.some.inj hbs
        exact ⟨hin.1, by rw [List.length_take]; omega⟩
    · cases hbs
  -- the bytes fill the new buffer
  obtain ⟨n, b, _, hn, hderef, hlookup, -, -, -, -, -⟩ := Mem.write_eq_some hw
  obtain ⟨-, n', c, hn', hc, hcsize⟩ :=
    (safe_newImpl size [] m _ _ (Mem.Keeps.refl m) hnew).2 p rfl
  obtain rfl : n = n' := Option.some.inj (hn.symm.trans hn')
  obtain rfl : b = c := Option.some.inj (hlookup.symm.trans hc)
  have hbsize := b.size_eq
  have hfresh : shown m₁ ⟨p, 0, size⟩ = some ((b.data.drop 0).take size.toNat) :=
    shown_eq_some.mpr ⟨b, hderef, Int.le_refl 0, hsize.1, by simp only [Int.toNat_zero]; omega, rfl⟩
  have hfit : (b.data.take size.toNat).length = bs.length := by
    rw [List.length_take]
    omega
  rw [(shown_write_iff hfresh (by simpa using hfit.ge) hw).mpr (Lands.of_offset_zero _ _ _)]
  simp [Mem.overwrite, ← hfit]

/-- A copy of a window that is not negative is not refused. -/
theorem mkBytes_not_throws {size : ℤ} {data : List Byte} {e : Thrown} (hsize : 0 ≤ size) :
    mkBytes size data m ≠ some (.error e, m') := by
  intro h
  unfold mkBytes at h
  rcases Eff.bind_eq_some.mp h with ⟨e', hnew, -⟩ | ⟨p, m₁, -, hrest⟩
  · obtain ⟨p, hp⟩ := (returns_newImpl size [] m _ _ (Mem.Intact.refl m) hnew).2 hsize
    cases hp
  · obtain ⟨_, m₂, -, hret⟩ := Eff.bind_ofState_eq_some.mp hrest
    obtain ⟨he, -⟩ := Eff.pure_eq_some.mp hret
    cases he

/-- What a handle shows depends on the buffers only, and on which of them are deleted. -/
theorem shown_congr (hdel : m'.heap.deleted = m.heap.deleted) (himpls : m'.impls = m.impls) :
    shown m' d = shown m d := by
  have hderef : m'.deref d.impl = m.deref d.impl := by
    unfold Mem.deref
    rw [hdel, himpls]
  simp only [shown, bytesFrom, hderef]

/-- **What `lock` leaves**: the handle as it was, or one at the beginning of a buffer of its
own that shows the same; it does not throw. -/
theorem lock_shown {r : Except Thrown Data} (hd : shown m d = some old)
    (h : d.lock m = some (r, m')) :
    (d.impl.isTheOne m.heap = some true ∧ r = .ok d ∧ m' = m) ∨
      (d.impl.isTheOne m.heap = some false ∧ Untouched m.impls.length m m' ∧
        ∃ x, r = .ok x ∧ x.position = 0 ∧ x.size = d.size ∧ shown m' x = some old) := by
  rcases lock_cases h with hkept | ⟨hone, hsame, -⟩
  · exact Or.inl hkept
  refine Or.inr ⟨hone, hsame, ?_⟩
  unfold lock at h
  obtain ⟨one, hone', hrest⟩ := Eff.bind_ofReader_eq_some.mp h
  obtain rfl : one = false := Option.some.inj (hone'.symm.trans hone)
  rw [if_neg Bool.false_ne_true] at hrest
  obtain ⟨bs, hbs, hcopy⟩ := Eff.bind_ofReader_eq_some.mp hrest
  have hbytes : bytesAt bs d.size = some old := by
    rw [shown, hbs] at hd
    exact hd
  rcases Eff.bind_eq_some.mp hcopy with ⟨e, hmk, rfl⟩ | ⟨x, m₃, hmk, hswap⟩
  · exact absurd hmk (mkBytes_not_throws (length_shown hd ▸ Int.natCast_nonneg _))
  · obtain ⟨hpos, hsize, hshown⟩ := shown_mkBytes hmk
    obtain ⟨_, m₄, hdrop, hret⟩ := Eff.bind_ofState_eq_some.mp hswap
    obtain ⟨rfl, rfl⟩ := Eff.pure_eq_some.mp hret
    obtain ⟨⟨_, h₄⟩, hdrop', heq⟩ := Option.map_eq_some_iff.mp hdrop
    obtain ⟨h₅, hdestroy, heq'⟩ := Option.map_eq_some_iff.mp hdrop'
    obtain ⟨-, rfl⟩ := Prod.mk.inj heq
    obtain ⟨-, rfl⟩ := Prod.mk.inj heq'
    have hdel : h₅.deleted = m₃.heap.deleted := by
      rcases mkBytes_cases hmk with ⟨_, he, -⟩ | ⟨_, -, -, -, hheap⟩
      · cases he
      · -- the strong count of the old buffer still reads zero
        obtain ⟨c, hc, hzero⟩ := Option.bind_eq_some_iff.mp hone
        exact deleted_of_isTheOne_false (Option.bind_eq_some_iff.mpr ⟨c, hheap _ _ hc, hzero⟩)
          hdestroy
    have hkept : shown { m₃ with heap := h₅ } x = shown m₃ x := shown_congr hdel rfl
    exact ⟨x, rfl, hpos, hsize, hkept.trans (hshown.trans hbytes)⟩

/-! ## `fill` and `copy` -/

/-- **`fill`.** -/
theorem fill_shown {value : ℤ} {r : Except Thrown Data} (hd : shown m d = some old)
    (h : d.fill value m = some (r, m')) : ∃ x, r = .ok x ∧ x.size = d.size ∧
      (shown m' x = some (List.replicate old.length (byteOf value)) ↔
        d.impl.isTheOne m.heap = some false ∨
          Lands old (List.replicate old.length (byteOf value)) 0 d.position.toNat) := by
  have hlen := length_shown hd
  unfold fill at h
  rcases Eff.bind_eq_some.mp h with ⟨e, hlock, rfl⟩ | ⟨x, m₁, hlock, hrest⟩
  · rcases lock_shown hd hlock with ⟨-, he, -⟩ | ⟨-, -, _, he, -⟩ <;> cases he
  obtain ⟨_, m₂, hset, hret⟩ := Eff.bind_ofState_eq_some.mp hrest
  obtain ⟨rfl, rfl⟩ := Eff.pure_eq_some.mp hret
  split at hset
  · next hsize =>
      obtain ⟨m₃, hw, heq⟩ := Option.map_eq_some_iff.mp hset
      obtain ⟨-, rfl⟩ := Prod.mk.inj heq
      have hmeant : Mem.overwrite old 0 (List.replicate old.length (byteOf value)) =
          List.replicate old.length (byteOf value) := by simp [Mem.overwrite]
      rcases lock_shown hd hlock with ⟨hone, hx, rfl⟩ | ⟨hone, -, _, hx, hpos, hsz, hshown⟩
      · obtain rfl := Except.ok.inj hx
        rw [← hlen, Int.toNat_natCast] at hw
        refine ⟨x, rfl, rfl, ?_⟩
        have hiff := shown_write_iff hd (by simp) hw
        rw [Int.toNat_zero, hmeant] at hiff
        rw [hiff, hone]
        simp
      · obtain rfl := Except.ok.inj hx
        rw [hsz, ← hlen, Int.toNat_natCast] at hw
        refine ⟨x, rfl, hsz, iff_of_true ?_ (Or.inl hone)⟩
        have hiff := shown_write_iff hshown (by simp) hw
        rw [Int.toNat_zero, hmeant, hpos] at hiff
        exact hiff.mpr (Lands.of_offset_zero _ _ _)
  · cases hset

/-- **`copy`, at a position inside the window.** -/
theorem copy_shown {pos : ℤ} {other : Option Data} {r : Except Thrown (ℤ × Data)}
    (hd : shown m d = some old) (he : shown m (other.getD d) = some src) (hlo : 0 ≤ pos)
    (hhi : pos ≤ d.size) (h : d.copy pos other m = some (r, m')) :
    ∃ k x, k = min (d.size - pos) (other.getD d).size ∧ r = .ok (k, x) ∧ x.size = d.size ∧
      (shown m' x = some (Mem.overwrite old pos.toNat (src.take k.toNat)) ↔
        d.impl.isTheOne m.heap = some false ∨
          Lands old (src.take k.toNat) pos.toNat d.position.toNat) := by
  have hlen := length_shown hd
  have hlen' := length_shown he
  have hin : ¬ (pos < 0 ∨ pos > d.size) := by omega
  unfold copy checkPosition at h
  rw [if_neg hin] at h
  rcases Eff.bind_eq_some.mp h with ⟨e, hlock, rfl⟩ | ⟨x, m₁, hlock, hrest⟩
  · rcases lock_shown hd hlock with ⟨-, he, -⟩ | ⟨-, -, _, he, -⟩ <;> cases he
  obtain ⟨bs, hbs, hrest'⟩ := Eff.bind_ofReader_eq_some.mp hrest
  obtain ⟨_, m₂, hmove, hret⟩ := Eff.bind_ofState_eq_some.mp hrest'
  obtain ⟨rfl, rfl⟩ := Eff.pure_eq_some.mp hret
  obtain ⟨bs', hbs', hmove'⟩ := Option.bind_eq_some_iff.mp hmove
  obtain ⟨m₃, hw, heq⟩ := Option.bind_eq_some_iff.mp hmove'
  obtain ⟨-, rfl⟩ := Prod.mk.inj (Option.some.inj heq)
  refine ⟨_, x, rfl, rfl, ?_⟩
  rcases lock_shown hd hlock with ⟨hone, hx, rfl⟩ | ⟨hone, hsame, _, hx, hpos, hsz, hshown⟩
  · obtain rfl := Except.ok.inj hx
    obtain rfl := take_of_shown he hbs hbs' (by omega)
    have hfit : pos.toNat + (src.take (min (x.size - pos) (other.getD x).size).toNat).length ≤
        old.length := by
      rw [List.length_take]
      omega
    refine ⟨rfl, ?_⟩
    rw [shown_write_iff hd hfit hw, hone]
    simp
  · obtain rfl := Except.ok.inj hx
    -- what is copied is what was shown before the handle moved
    have harg : shown m₁ (other.getD x) = some src ∧ (other.getD x).size = (other.getD d).size := by
      cases other with
      | none =>
          rw [Option.getD_none] at he
          exact ⟨by rw [Option.getD_none, hshown, ← hd, he], hsz⟩
      | some e => exact ⟨(shown_of_untouched (placed_of_shown he) hsame).trans he, rfl⟩
    obtain rfl := take_of_shown harg.1 hbs hbs' (by omega)
    have hfit : pos.toNat + (src.take (min (d.size - pos) (other.getD d).size).toNat).length ≤
        old.length := by
      rw [List.length_take]
      omega
    refine ⟨hsz, iff_of_true ?_ (Or.inl hone)⟩
    refine (shown_write_iff hshown hfit hw).mpr ?_
    rw [hpos]
    exact Lands.of_offset_zero _ _ _

/-- **`copy`, at any other position**: it throws, and nothing has changed. -/
theorem copy_throws {pos : ℤ} (other : Option Data) (h : pos < 0 ∨ pos > d.size) :
    d.copy pos other m = some (.error .outOfRange, m) := by
  unfold copy checkPosition
  rw [if_pos h]
  rfl

/-- A store inside a live buffer is defined. -/
theorem write_isSome (bs : List Byte) (start : ℤ) (hd : shown m d = some old) (hlo : 0 ≤ start)
    (hfit : start.toNat + bs.length ≤ old.length) : (m.write d.impl start bs).isSome := by
  obtain ⟨b, hb, -, -, hle, rfl⟩ := shown_eq_some.mp hd
  obtain ⟨n, hn, -, -⟩ := Mem.deref_eq_some.mp hb
  rw [List.length_take, List.length_drop] at hfit
  unfold Mem.write
  simp only [hn, hb, Option.bind_eq_bind, Option.bind_some]
  rw [dif_pos ⟨hlo, by omega⟩]
  rfl

/-- When `lock` has nothing to copy, `fill` is defined. -/
theorem fill_isSome (hd : shown m d = some old) (hone : d.impl.isTheOne m.heap = some true)
    (value : ℤ) : (d.fill value m).isSome := by
  have hlen := length_shown hd
  obtain ⟨m', hw⟩ := Option.isSome_iff_exists.mp (write_isSome
    (List.replicate d.size.toNat (byteOf value)) 0 hd (Int.le_refl 0) (by simp; omega))
  refine Option.isSome_iff_exists.mpr ⟨(.ok d, m'), ?_⟩
  unfold fill
  refine Eff.bind_eq_some.mpr (Or.inr ⟨d, m, Eff.bind_ofReader_eq_some.mpr ⟨true, hone, rfl⟩, ?_⟩)
  refine Eff.bind_ofState_eq_some.mpr ⟨(), m', ?_, rfl⟩
  rw [if_pos (by omega), hw]
  rfl

/-- When `lock` has nothing to copy, `copy` is defined. -/
theorem copy_isSome {other : Option Data} {pos : ℤ} (hd : shown m d = some old)
    (he : shown m (other.getD d) = some src) (hone : d.impl.isTheOne m.heap = some true) :
    (d.copy pos other m).isSome := by
  have hlen := length_shown hd
  have hlen' := length_shown he
  by_cases hout : pos < 0 ∨ pos > d.size
  · rw [copy_throws other hout]
    rfl
  obtain ⟨bs, hbs, hbytes⟩ := Option.bind_eq_some_iff.mp he
  have hlong : (other.getD d).size.toNat ≤ bs.length := by
    unfold bytesAt at hbytes
    split at hbytes
    · next hin => exact hin.2
    · cases hbytes
  obtain ⟨m', hw⟩ := Option.isSome_iff_exists.mp (write_isSome
    (bs.take (min (d.size - pos) (other.getD d).size).toNat) pos hd (by omega)
    (by rw [List.length_take]; omega))
  refine Option.isSome_iff_exists.mpr
    ⟨(.ok (min (d.size - pos) (other.getD d).size, d), m'), ?_⟩
  unfold copy checkPosition
  rw [if_neg hout]
  refine Eff.bind_eq_some.mpr (Or.inr ⟨d, m, Eff.bind_ofReader_eq_some.mpr ⟨true, hone, rfl⟩, ?_⟩)
  refine Eff.bind_ofReader_eq_some.mpr ⟨bs, hbs, ?_⟩
  refine Eff.bind_ofState_eq_some.mpr ⟨(), m', ?_, rfl⟩
  rw [bytesAt, if_pos ⟨by omega, by omega⟩]
  simp [hw]

/-! ## The handle's own window -/

/-- **`fill` and `copy` write the handle's own window exactly when the bytes land well.**
For every handle `d` that shows `old`: the size of the handle and what `copy` returns are
right, and so is the exception; the bytes are right exactly when `lock` copied the buffer or
each place of the window gets the byte meant for it.  Both functions are defined unless
`lock` copies the buffer. -/
theorem own_window_iff (hd : shown m d = some old) :
    (∀ value r m', d.fill value m = some (r, m') → ∃ x, r = .ok x ∧ x.size = d.size ∧
      (shown m' x = some (List.replicate old.length (byteOf value)) ↔
        d.impl.isTheOne m.heap = some false ∨
          Lands old (List.replicate old.length (byteOf value)) 0 d.position.toNat)) ∧
    (∀ pos other src r m', 0 ≤ pos → pos ≤ d.size → shown m (other.getD d) = some src →
      d.copy pos other m = some (r, m') →
      ∃ k x, k = min (d.size - pos) (other.getD d).size ∧ r = .ok (k, x) ∧ x.size = d.size ∧
        (shown m' x = some (Mem.overwrite old pos.toNat (src.take k.toNat)) ↔
          d.impl.isTheOne m.heap = some false ∨
            Lands old (src.take k.toNat) pos.toNat d.position.toNat)) ∧
    (∀ pos other, pos < 0 ∨ pos > d.size →
      d.copy pos other m = some (.error .outOfRange, m)) ∧
    (d.impl.isTheOne m.heap = some true → (∀ value, (d.fill value m).isSome) ∧
      ∀ pos other src, shown m (other.getD d) = some src → (d.copy pos other m).isSome) :=
  ⟨fun _ _ _ h => fill_shown hd h, fun _ _ _ _ _ hlo hhi he h => copy_shown hd he hlo hhi h,
    fun _ other h => copy_throws other h, fun hone => ⟨fun value => fill_isSome hd hone value,
      fun _ _ _ he => copy_isSome hd he hone⟩⟩

/-- A slice that is filled with what its last byte already is, copied into at its end, and
at a position outside it. -/
theorem own_window_iff_example :
    let shared : SharedPtr := ⟨⟨some 1, 1⟩⟩
    let m : Mem := ⟨⟨[some ⟨1, 1⟩, some ⟨2, 2⟩], []⟩, [none, some ⟨[7, 5, 7], 3, rfl⟩]⟩
    let d : Data := ⟨shared, 1, 2⟩
    let e : Data := ⟨shared, 0, 3⟩
    shown m d = some [5, 7] ∧
    (∃ x m', d.fill 7 m = some (.ok x, m') ∧ shown m' x = some [7, 7]) ∧
    (∃ x m', d.copy 0 (some e) m = some (.ok (2, x), m') ∧
      (shown m' x = some [7, 5] ↔
        d.impl.isTheOne m.heap = some false ∨ Lands [5, 7] [7, 5] 0 1)) ∧
    d.copy 3 none m = some (.error .outOfRange, m) := by
  intro shared m d e
  have hd : shown m d = some [5, 7] := by decide
  have he : shown m e = some [7, 5, 7] := by decide
  have hone : d.impl.isTheOne m.heap = some true := by decide
  obtain ⟨hfill, hcopy, hthrow, hdefined⟩ := own_window_iff hd
  refine ⟨hd, ?_, ?_, hthrow 3 none (by decide)⟩
  · obtain ⟨⟨r, m'⟩, h⟩ := Option.isSome_iff_exists.mp ((hdefined hone).1 7)
    obtain ⟨x, rfl, -, hiff⟩ := hfill 7 r m' h
    exact ⟨x, m', h, hiff.mpr (Or.inr (by decide))⟩
  · obtain ⟨⟨r, m'⟩, h⟩ := Option.isSome_iff_exists.mp ((hdefined hone).2 0 (some e) _ he)
    obtain ⟨k, x, rfl, rfl, -, hiff⟩ := hcopy 0 (some e) _ r m' (by decide) (by decide) he h
    exact ⟨x, m', h, hiff⟩

end Data

namespace Program

/-- The second half of a buffer is filled: the bytes go to the first half, and the slice shows
what it showed. -/
theorem fill_misses_slice : ∃ tr s, Machine.Run (Machine.Fires step) Program.init tr s ∧
    Machine.actions tr = [.mkBytes 4 [1, 2, 3, 4], .mkSlice 0 2 2, .fill 1 9] ∧
    s.seen (.var 1) = some (2, some [3, 4]) ∧
    s.seen (.var 1) ≠ some (2, some (List.replicate 2 (byteOf 9))) ∧
    s.seen (.var 0) = some (4, some [9, 9, 3, 4]) := by
  let acts : List DataOp := [.mkBytes 4 [1, 2, 3, 4], .mkSlice 0 2 2, .fill 1 9]
  let s := (Machine.exec step Program.init acts).get (by decide)
  have hs : Machine.exec step Program.init acts = some s := (Option.some_get _).symm
  obtain ⟨hrun, hacts⟩ := Machine.exec_trace _ _ _ _ hs
  exact ⟨_, s, hrun, hacts, by decide, by decide, by decide⟩

end Program

end Craplib
