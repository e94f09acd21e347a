import Craplib.Lib.Runs
import Craplib.Lib.Weights
import Craplib.Memory.Ledger

/-!
# `WeakPtr::lock` on several threads

Any number of threads copy and release `SharedPtr`s to one object and call
`WeakPtr::lock` on it.  What they share is the strong counter of one counter block, which
they touch with `interlocked_increment` and `interlocked_decrement` only, and each of
these, like the `delete` of the object, is a step of its own.

`lock` increments before it knows whether the object is alive, and goes by whether the
result is 1.  On an object that is gone a second `lock` that overlaps with the first sees
a 2, and returns a `SharedPtr` to it.

`lock_protects` says that nothing else goes wrong: as long as no `lock` increments the
counter of a dead object while it is not zero, the object is deleted once at most, and
never while there is a `SharedPtr` to it; and once one does, there is a way to go on that
ends in a `SharedPtr` to a deleted object.
-/

namespace Craplib.Memory

namespace ConcurrentLock

open Machine Weights

/-! ## The threads -/

/-- Where a thread is in the functions that touch the strong counter. -/
inductive Point
  /-- Outside of them. -/
  | idle
  /-- In `detach`, which has read zero: before `delete ptr.pObj`. -/
  | deleting
  /-- In `lock`, after `c = interlocked_increment(&cnt->sc)`. -/
  | locked (c : Counter)
  /-- There, with the temporary `SharedPtr<T>(pObj, cnt)`. -/
  | temporary
  /-- There, with `result` assigned, before the temporary is destroyed. -/
  | assigned
  /-- There, in `detach` of the temporary, which has read zero. -/
  | discarding
  /-- There, before the last `interlocked_decrement`; `result` is a `SharedPtr` to the
  object, or a null one. -/
  | leaving (result : Bool)
deriving DecidableEq

/-- The counter block, the object, the `SharedPtr`s to it that are outside of `lock`, and
the threads. -/
structure State where
  sc : Counter
  handles : ℕ
  /-- How many times `delete pObj` has run. -/
  deleted : ℕ
  threads : List Point

/-- What a thread can do: copy or release a `SharedPtr`, call `lock`, or go on with what it
is in. -/
inductive Action
  | copy (i : ℕ)
  | release (i : ℕ)
  | lock (i : ℕ)
  | advance (i : ℕ)

namespace State

/-- `n` threads, and the one `SharedPtr` that `SharedPtr(T* p)` made. -/
def init (n : ℕ) : State := ⟨1, 1, 0, List.replicate n .idle⟩

/-- The thread `i` gets to a point. -/
def goto (s : State) (i : ℕ) (p : Point) : State := { s with threads := s.threads.set i p }

/-- `SharedPtr::attach` for a copy of a `SharedPtr`. -/
def copy (s : State) : State :=
  { s with sc := interlockedIncrement s.sc, handles := s.handles + 1 }

/-- `SharedPtr::detach` for a `SharedPtr` that is destroyed. -/
def release (s : State) (i : ℕ) : State :=
  let sc := interlockedDecrement s.sc
  let s := { s with sc := sc, handles := s.handles - 1 }
  if sc = 0 then s.goto i .deleting else s

/-- The first step of `lock`. -/
def lock (s : State) (i : ℕ) : State :=
  let c := interlockedIncrement s.sc
  { s with sc := c }.goto i (.locked c)

/-- The next step of the function that the thread `i` is in. -/
def advance (s : State) (i : ℕ) : Point → Option State
  | .idle => none
  | .deleting => some ({ s with deleted := s.deleted + 1 }.goto i .idle)
  | .locked c =>
      if c ≠ 1 then some ({ s with sc := interlockedIncrement s.sc }.goto i .temporary)
      else some (s.goto i (.leaving false))
  | .temporary => some ({ s with sc := interlockedIncrement s.sc }.goto i .assigned)
  | .assigned =>
      let sc := interlockedDecrement s.sc
      some ({ s with sc := sc }.goto i (if sc = 0 then .discarding else .leaving true))
  | .discarding => some ({ s with deleted := s.deleted + 1 }.goto i (.leaving true))
  | .leaving result =>
      some ({ s with
        sc := interlockedDecrement s.sc
        handles := if result then s.handles + 1 else s.handles }.goto i .idle)

/-- One step of a thread.  It copies and releases a `SharedPtr` that there is. -/
def step (s : State) : Action → Option State
  | .copy i => if s.threads[i]? = some .idle ∧ 0 < s.handles then some s.copy else none
  | .release i =>
      if s.threads[i]? = some .idle ∧ 0 < s.handles then some (s.release i) else none
  | .lock i => if s.threads[i]? = some .idle then some (s.lock i) else none
  | .advance i => s.threads[i]?.bind (s.advance i)

end State

/-- Runs of the threads. -/
abbrev Runs (s : State) : List (State × Action) → State → Prop :=
  Machine.Run (Machine.Fires State.step) s

/-! ## What the threads hold -/

namespace Point

/-- What a thread has added to the strong counter and not taken away again. -/
def uses : Point → ℕ
  | .idle | .deleting => 0
  | .locked _ | .leaving false => 1
  | .temporary | .discarding | .leaving true => 2
  | .assigned => 3

/-- The `SharedPtr`s to the object that a thread has inside of `lock`. -/
def holds : Point → ℕ
  | .idle | .deleting | .locked _ | .leaving false => 0
  | .temporary | .discarding | .leaving true => 1
  | .assigned => 2

/-- Whether the thread keeps the object alive: it has a `SharedPtr` to it, or is in a
`lock` that has seen another one. -/
def protects : Point → ℕ
  | .locked c => if c = 1 then 0 else 1
  | p => p.holds

/-- The `delete`s of the object that a thread is about to do. -/
def deletes : Point → ℕ
  | .deleting | .discarding => 1
  | _ => 0

end Point

namespace State

/-- What the strong counter should be. -/
def uses (s : State) : ℕ := s.handles + total Point.uses s.threads

/-- The `SharedPtr`s to the object. -/
def sharedPtrs (s : State) : ℕ := s.handles + total Point.holds s.threads

/-- What keeps the object alive. -/
def protectors (s : State) : ℕ := s.handles + total Point.protects s.threads

/-- The strong counter has room for its uses. -/
def Fits (s : State) : Prop := s.uses < counterRange

/-- **The object is protected.**  A `lock` that is about to return a `SharedPtr` to the
object returns one to an object that has not been deleted, an object with a `SharedPtr` to
it has not been deleted, and it has been deleted once at most. -/
structure Protected (s : State) : Prop where
  lock : ∀ i : ℕ, s.threads[i]? = some (.leaving true) → s.deleted = 0
  shared : 0 < s.sharedPtrs → s.deleted = 0
  once : s.deleted ≤ 1

/-- The condition on a step: a `lock` that increments the counter of an object that
nothing keeps alive finds it zero, so no other `lock` is between its two. -/
def NoRevival (s : State) (act : Action) : Prop :=
  ∀ i, act = .lock i → s.protectors = 0 → s.sc = 0

instance (s : State) : DecidablePred s.NoRevival
  | .lock i => decidable_of_iff (s.protectors = 0 → s.sc = 0)
      ⟨fun h _ _ => h, fun h => h i rfl⟩
  | .copy _ | .release _ | .advance _ => .isTrue fun _ h => by cases h

instance : DecidablePred Fits := fun s => inferInstanceAs (Decidable (s.uses < counterRange))

end State

/-! ## The two phases of the object -/

/-- The points where a thread can be while the object is alive. -/
def Point.Living : Point → Prop
  | .idle | .temporary | .assigned | .leaving true => True
  | .locked c => c ≠ 1
  | .deleting | .discarding | .leaving false => False

/-- The points where a thread can be once the object is dead. -/
def Point.Dying : Point → Prop
  | .idle | .deleting | .leaving false => True
  | .locked c => c = 1
  | .temporary | .assigned | .discarding | .leaving true => False

namespace State

variable {s t : State}

/-- The object is there, and something uses it. -/
structure Alive (s : State) : Prop where
  deleted : s.deleted = 0
  points : ∀ p ∈ s.threads, p.Living
  used : 0 < s.uses

/-- The object is deleted or about to be, and one `lock` at most is finding that out. -/
structure Dead (s : State) : Prop where
  handles : s.handles = 0
  points : ∀ p ∈ s.threads, p.Dying
  one : total Point.uses s.threads ≤ 1
  deletion : s.deleted + total Point.deletes s.threads = 1

/-- What holds between the steps. -/
structure Inv (s : State) : Prop where
  counts : s.sc = .ofNat s.uses
  phase : s.Alive ∨ s.Dead

theorem Alive.protectors_pos (h : s.Alive) : 0 < s.protectors := by
  by_contra hnone
  have hzero : s.handles = 0 ∧ total Point.protects s.threads = 0 := by
    unfold protectors at hnone
    omega
  -- a thread that uses a living object protects it
  have hunused : total Point.uses s.threads = 0 := by
    refine total_eq_zero.mpr fun p hp => ?_
    have hprotects := total_eq_zero.mp hzero.2 p hp
    have hliving := h.points p hp
    cases p with
    | locked c =>
        have hc : c ≠ 1 := hliving
        simp [Point.protects, hc] at hprotects
    | leaving result =>
        cases result with
        | false => exact hliving.elim
        | true => cases hprotects
    | temporary => cases hprotects
    | assigned => cases hprotects
    | discarding => exact hliving.elim
    | idle => rfl
    | deleting => rfl
  have hused := h.used
  unfold uses at hused
  omega

theorem Dead.protectors (h : s.Dead) : s.protectors = 0 ∧ s.sharedPtrs = 0 := by
  have hpoints : ∀ p ∈ s.threads, p.protects = 0 ∧ p.holds = 0 := by
    intro p hp
    have hdying := h.points p hp
    cases p with
    | locked c => exact ⟨if_pos hdying, rfl⟩
    | leaving result =>
        cases result with
        | false => exact ⟨rfl, rfl⟩
        | true => exact hdying.elim
    | temporary => exact hdying.elim
    | assigned => exact hdying.elim
    | discarding => exact hdying.elim
    | idle => exact ⟨rfl, rfl⟩
    | deleting => exact ⟨rfl, rfl⟩
  unfold State.protectors sharedPtrs
  rw [h.handles, total_eq_zero.mpr fun p hp => (hpoints p hp).1,
    total_eq_zero.mpr fun p hp => (hpoints p hp).2]
  exact ⟨rfl, rfl⟩

/-- Without a use, no thread is in the middle of something. -/
theorem Alive.idle_of_unused (h : s.Alive) (hunused : total Point.uses s.threads = 0) :
    ∀ p ∈ s.threads, p = .idle := by
  intro p hp
  have hnone := total_eq_zero.mp hunused p hp
  have hliving := h.points p hp
  cases p with
  | idle => rfl
  | deleting => exact hliving.elim
  | discarding => exact hliving.elim
  | locked c => cases hnone
  | temporary => cases hnone
  | assigned => cases hnone
  | leaving result => cases result <;> cases hnone

/-- In either phase the object is protected. -/
theorem Inv.protected (h : s.Inv) : s.Protected := by
  rcases h.phase with halive | hdead
  · exact ⟨fun _ _ => halive.deleted, fun _ => halive.deleted, by rw [halive.deleted]; simp⟩
  · refine ⟨fun i hi => ?_, fun hshared => ?_, ?_⟩
    · exact (hdead.points _ (List.mem_of_getElem? hi)).elim
    · exact absurd hdead.protectors.2 (Nat.ne_of_gt hshared)
    · have hone := hdead.deletion
      omega

theorem Inv.init (n : ℕ) : (State.init n).Inv where
  counts := by simp [State.init, uses, Point.uses]
  phase := by
    refine .inl ⟨rfl, fun p hp => ?_, by simp [State.init, uses]⟩
    rw [List.eq_of_mem_replicate hp]
    trivial

/-! ## What the steps do to the phase -/

variable {i : ℕ} {p : Point}

/-- A thread comes to a point of the living. -/
theorem Alive.goto (h : s.Alive) (q : Point) (hq : q.Living) {sc : Counter} {handles n : ℕ}
    (hsc : sc = .ofNat n) (hn : handles + total Point.uses (s.threads.set i q) = n)
    (hused : 0 < n) :
    Inv { sc := sc, handles := handles, deleted := s.deleted,
          threads := s.threads.set i q } where
  counts := hsc.trans (congrArg UInt32.ofNat hn.symm)
  phase := by
    refine .inl ⟨h.deleted, fun r hr => ?_, hused.trans_eq hn.symm⟩
    rcases List.mem_or_eq_of_mem_set hr with hr | rfl
    · exact h.points r hr
    · exact hq

/-- A thread comes to a point of the dying. -/
theorem Dead.goto (h : s.Dead) (q : Point) (hq : q.Dying) {sc : Counter} {deleted n : ℕ}
    (hsc : sc = .ofNat n) (hn : total Point.uses (s.threads.set i q) = n) (hone : n ≤ 1)
    (hdeletion : deleted + total Point.deletes (s.threads.set i q) = 1) :
    Inv { sc := sc, handles := s.handles, deleted := deleted,
          threads := s.threads.set i q } where
  counts := by
    rw [uses, h.handles, Nat.zero_add, hn]
    exact hsc
  phase := by
    refine .inr ⟨h.handles, fun r hr => ?_, hn.trans_le hone, hdeletion⟩
    rcases List.mem_or_eq_of_mem_set hr with hr | rfl
    · exact h.points r hr
    · exact hq

/-- The increment and the decrement of a counter that is exact. -/
theorem counts_moves (hcounts : s.sc = .ofNat s.uses) :
    interlockedIncrement s.sc = .ofNat (s.uses + 1) ∧
      (0 < s.uses → interlockedDecrement s.sc = .ofNat (s.uses - 1)) := by
  rw [hcounts]
  exact ⟨interlockedIncrement_ofNat _, fun hpos => interlockedDecrement_ofNat hpos⟩

theorem Inv.copy (h : s.Inv) (hhandles : 0 < s.handles) : s.copy.Inv where
  counts := by
    change interlockedIncrement s.sc = .ofNat (s.handles + 1 + total Point.uses s.threads)
    rw [h.counts, interlockedIncrement_ofNat, uses, Nat.add_right_comm]
  phase := by
    rcases h.phase with halive | hdead
    · exact .inl ⟨halive.deleted, halive.points, Nat.add_pos_left (Nat.succ_pos _) _⟩
    · exact absurd hdead.handles (Nat.ne_of_gt hhandles)

theorem release_eq (s : State) (i : ℕ) :
    s.release i =
      if interlockedDecrement s.sc = 0 then
        { sc := 0, handles := s.handles - 1, deleted := s.deleted,
          threads := s.threads.set i .deleting }
      else { s with sc := interlockedDecrement s.sc, handles := s.handles - 1 } := by
  unfold State.release
  dsimp only
  split
  · next hzero => rw [hzero]; rfl
  · rfl

theorem Inv.release (h : s.Inv) (hfits : s.Fits) (hi : s.threads[i]? = some .idle)
    (hhandles : 0 < s.handles) : (s.release i).Inv := by
  have halive := h.phase.resolve_right fun hdead => absurd hdead.handles (Nat.ne_of_gt hhandles)
  have huses : s.uses = s.handles + total Point.uses s.threads := rfl
  have hpos : 0 < s.uses := by omega
  have hsc := (counts_moves h.counts).2 hpos
  have hrange : s.uses - 1 < counterRange := Nat.lt_of_le_of_lt (Nat.sub_le _ _) hfits
  rw [release_eq]
  by_cases hzero : interlockedDecrement s.sc = 0
  · -- the last use: the object is dead
    rw [if_pos hzero]
    rw [hsc, counter_ofNat_eq_zero hrange] at hzero
    have hthreads : total Point.uses s.threads = 0 := by omega
    have hmove : total Point.uses (s.threads.set i .deleting) + 0 = _ := total_set hi .deleting
    have hdelete : total Point.deletes (s.threads.set i .deleting) + 0 = _ :=
      total_set hi .deleting
    have hidle := halive.idle_of_unused hthreads
    have hnone : total Point.deletes s.threads = 0 := by
      refine total_eq_zero.mpr fun p hp => ?_
      rw [hidle p hp]
      rfl
    refine ⟨?_, .inr ⟨?_, ?_, ?_, ?_⟩⟩
    · change 0 = UInt32.ofNat (s.handles - 1 + total Point.uses (s.threads.set i .deleting))
      rw [show s.handles - 1 + total Point.uses (s.threads.set i .deleting) = 0 by
        simp only [Point.uses] at hmove
        omega]
      rfl
    · change s.handles - 1 = 0
      omega
    · intro p hp
      rcases List.mem_or_eq_of_mem_set hp with hp | rfl
      · rw [hidle p hp]
        trivial
      · trivial
    · change total Point.uses (s.threads.set i .deleting) ≤ 1
      simp only [Point.uses] at hmove
      omega
    · change s.deleted + total Point.deletes (s.threads.set i .deleting) = 1
      simp only [Point.deletes] at hdelete
      rw [halive.deleted]
      omega
  · rw [if_neg hzero]
    rw [hsc, counter_ofNat_eq_zero hrange] at hzero
    refine ⟨?_, .inl ⟨halive.deleted, halive.points, ?_⟩⟩
    · change interlockedDecrement s.sc =
        UInt32.ofNat (s.handles - 1 + total Point.uses s.threads)
      rw [hsc, show s.handles - 1 + total Point.uses s.threads = s.uses - 1 by omega]
    · change 0 < s.handles - 1 + total Point.uses s.threads
      omega

theorem Inv.lock (h : s.Inv) (hfits : (s.lock i).Fits) (hi : s.threads[i]? = some .idle)
    (hgood : s.protectors = 0 → s.sc = 0) : (s.lock i).Inv := by
  have huses : s.uses = s.handles + total Point.uses s.threads := rfl
  have hc := (counts_moves h.counts).1
  have hmove : total Point.uses (s.threads.set i (.locked (interlockedIncrement s.sc))) + 0 =
      total Point.uses s.threads + 1 := total_set hi _
  have hdelete : total Point.deletes (s.threads.set i (.locked (interlockedIncrement s.sc))) + 0 =
      total Point.deletes s.threads + 0 := total_set hi _
  have hfit : s.handles +
      total Point.uses (s.threads.set i (.locked (interlockedIncrement s.sc))) < counterRange :=
    hfits
  rcases h.phase with halive | hdead
  · -- it sees another use
    have hused := halive.used
    have hn : s.handles + total Point.uses
        (s.threads.set i (.locked (interlockedIncrement s.sc))) = s.uses + 1 := by omega
    have hne : interlockedIncrement s.sc ≠ 1 := by
      intro hone
      rw [hc, ← UInt32.toNat_inj, counter_toNat_ofNat (by omega), UInt32.toNat_one] at hone
      omega
    exact halive.goto (.locked _) hne hc hn (Nat.succ_pos _)
  · -- it is the only one
    have hzero := hgood hdead.protectors.1
    have hone := hdead.one
    have hhandles := hdead.handles
    have hdeletion := hdead.deletion
    have hunused : s.uses = 0 := by
      rw [h.counts, counter_ofNat_eq_zero (by unfold counterRange; omega)] at hzero
      exact hzero
    have hseen : interlockedIncrement s.sc = 1 := by
      rw [hzero]
      rfl
    have hn : total Point.uses (s.threads.set i (.locked (interlockedIncrement s.sc))) =
        s.uses + 1 := by omega
    have hdeleted : s.deleted + total Point.deletes
        (s.threads.set i (.locked (interlockedIncrement s.sc))) = 1 := by omega
    exact hdead.goto (.locked _) hseen hc hn (by omega) hdeleted

/-- A thread moves on while the object is alive. -/
theorem Alive.advance (h : s.Alive) (hcounts : s.sc = .ofNat s.uses) (hfits : s.Fits)
    (hi : s.threads[i]? = some p) (hstep : s.advance i p = some t) : t.Inv := by
  have huses : s.uses = s.handles + total Point.uses s.threads := rfl
  have hmem := List.mem_of_getElem? hi
  have hmove := fun q => total_set (f := Point.uses) hi q
  have hle := le_total (f := Point.uses) hmem
  have hfit : s.uses < counterRange := hfits
  obtain ⟨hup, hdown⟩ := counts_moves hcounts
  have hliving := h.points p hmem
  cases p with
  | idle => cases hstep
  | deleting => exact hliving.elim
  | discarding => exact hliving.elim
  | locked c =>
      have hc : c ≠ 1 := hliving
      simp only [State.advance, State.goto, if_pos hc, Option.some.injEq] at hstep
      subst hstep
      have htemp := hmove .temporary
      simp only [Point.uses] at htemp
      exact h.goto .temporary trivial hup (by omega) (Nat.succ_pos _)
  | temporary =>
      simp only [State.advance, State.goto, Option.some.injEq] at hstep
      subst hstep
      have hassigned := hmove .assigned
      simp only [Point.uses] at hassigned
      exact h.goto .assigned trivial hup (by omega) (Nat.succ_pos _)
  | assigned =>
      -- `result` still counts, so the temporary is not the last
      simp only [Point.uses] at hle
      have hsc := hdown (by omega)
      have hmore : interlockedDecrement s.sc ≠ 0 := by
        rw [hsc, Ne, counter_ofNat_eq_zero (by omega)]
        omega
      simp only [State.advance, State.goto, if_neg hmore, Option.some.injEq] at hstep
      subst hstep
      have hleaving := hmove (.leaving true)
      simp only [Point.uses] at hleaving
      exact h.goto (.leaving true) trivial hsc (by omega) (by omega)
  | leaving result =>
      cases result with
      | false => exact hliving.elim
      | true =>
          simp only [Point.uses] at hle
          have hsc := hdown (by omega)
          simp only [State.advance, State.goto, if_pos, Option.some.injEq] at hstep
          subst hstep
          have hidle := hmove .idle
          simp only [Point.uses] at hidle
          exact h.goto .idle trivial hsc (by omega) (by omega)

/-- A thread moves on when the object is dead. -/
theorem Dead.advance (h : s.Dead) (hcounts : s.sc = .ofNat s.uses)
    (hi : s.threads[i]? = some p) (hstep : s.advance i p = some t) : t.Inv := by
  have huses : s.uses = s.handles + total Point.uses s.threads := rfl
  have hmem := List.mem_of_getElem? hi
  have hmove := fun q => total_set (f := Point.uses) hi q
  have hle := le_total (f := Point.uses) hmem
  obtain ⟨-, hdown⟩ := counts_moves hcounts
  have hdying := h.points p hmem
  have hdelete := fun q => total_set (f := Point.deletes) hi q
  have hone := h.one
  have hhandles := h.handles
  have hdeletion := h.deletion
  cases p with
  | idle => cases hstep
  | temporary => exact hdying.elim
  | assigned => exact hdying.elim
  | discarding => exact hdying.elim
  | deleting =>
      simp only [State.advance, State.goto, Option.some.injEq] at hstep
      subst hstep
      have hidle := hmove .idle
      have hdone := hdelete .idle
      simp only [Point.uses, Point.deletes] at hidle hdone
      exact h.goto .idle trivial hcounts (by omega) (by omega) (by omega)
  | locked c =>
      have hc : c = 1 := hdying
      simp only [State.advance, State.goto, hc, ne_eq, not_true_eq_false, if_false,
        Option.some.injEq] at hstep
      subst hstep
      have hleaving := hmove (.leaving false)
      have hsame := hdelete (.leaving false)
      simp only [Point.uses, Point.deletes] at hleaving hsame
      exact h.goto (.leaving false) trivial hcounts (by omega) (by omega) (by omega)
  | leaving result =>
      cases result with
      | true => exact hdying.elim
      | false =>
          simp only [Point.uses] at hle
          have hsc := hdown (by omega)
          simp only [State.advance, State.goto, Bool.false_eq_true, if_false,
            Option.some.injEq] at hstep
          subst hstep
          have hidle := hmove .idle
          have hsame := hdelete .idle
          simp only [Point.uses, Point.deletes] at hidle hsame
          exact h.goto .idle trivial hsc (by omega) (by omega) (by omega)

/-- The step of a thread that is past the increment of `lock`, or about to delete. -/
theorem Inv.advance (h : s.Inv) (hfits : s.Fits) (hi : s.threads[i]? = some p)
    (hstep : s.advance i p = some t) : t.Inv :=
  h.phase.elim (fun halive => halive.advance h.counts hfits hi hstep)
    fun hdead => hdead.advance h.counts hi hstep

/-- Every step that revives nothing keeps the invariant. -/
theorem Inv.step {act : Action} (h : s.Inv) (hstep : s.step act = some t)
    (hgood : s.NoRevival act) (hfits : s.Fits) (hfits' : t.Fits) : t.Inv := by
  cases act with
  | copy i =>
      simp only [State.step] at hstep
      split at hstep
      · next hguard =>
          obtain rfl := Option.some.inj hstep
          exact h.copy hguard.2
      · cases hstep
  | release i =>
      simp only [State.step] at hstep
      split at hstep
      · next hguard =>
          obtain rfl := Option.some.inj hstep
          exact h.release hfits hguard.1 hguard.2
      · cases hstep
  | lock i =>
      simp only [State.step] at hstep
      split at hstep
      · next hi =>
          obtain rfl := Option.some.inj hstep
          exact h.lock hfits' hi (hgood i rfl)
      · cases hstep
  | advance i =>
      obtain ⟨p, hi, hstep⟩ := Option.bind_eq_some_iff.mp hstep
      exact h.advance hfits hi hstep

/-- …and so do runs of such steps. -/
theorem Inv.run {tr : List (State × Action)} (hrun : Runs s tr t) (h : s.Inv)
    (hgood : ∀ p ∈ tr, p.1.NoRevival p.2) (hfits : ∀ x ∈ visited tr t, x.Fits) :
    ∀ x ∈ visited tr t, x.Inv :=
  hrun.invariant_good (I := Inv) (Q := Fits)
    (fun x act _ hinv hstep (hrevival : x.NoRevival act) => hinv.step hstep hrevival)
    h hgood hfits

/-! ## A `lock` that revives -/

/-- A temporary `SharedPtr` to an object that has been deleted. -/
theorem not_protected (hdeleted : s.deleted ≠ 0) (hi : s.threads[i]? = some .temporary) :
    ¬ s.Protected := by
  intro hprotected
  refine hdeleted (hprotected.shared ?_)
  have hle := le_total (f := Point.holds) (List.mem_of_getElem? hi)
  simp only [Point.holds] at hle
  unfold sharedPtrs
  omega

/-- A `lock` that increments the counter of a dead object and does not get 1 goes on to
make a `SharedPtr` to it. -/
theorem Dead.lock_step (h : s.Dead) (hi : s.threads[i]? = some .idle) (hsc : s.sc ≠ 0) :
    ∃ u, (s.lock i).step (.advance i) = some u ∧ u.deleted = s.deleted ∧
      u.threads = s.threads.set i .temporary ∧ (s.lock i).Fits ∧ u.Fits := by
  have hlen : i < s.threads.length := (List.getElem?_eq_some_iff.mp hi).1
  have hc : interlockedIncrement s.sc ≠ 1 := by
    intro hone
    refine hsc ?_
    rw [← interlockedDecrement_increment s.sc, hone]
    rfl
  have hat : (s.lock i).threads[i]? = some (.locked (interlockedIncrement s.sc)) :=
    List.getElem?_set_self hlen
  have hone := h.one
  have hlocked : total Point.uses (s.threads.set i (.locked (interlockedIncrement s.sc))) + 0 =
      total Point.uses s.threads + 1 := total_set hi _
  have htemp : total Point.uses (s.threads.set i .temporary) + 0 =
      total Point.uses s.threads + 2 := total_set hi _
  refine ⟨{ s with sc := interlockedIncrement (interlockedIncrement s.sc),
                   threads := s.threads.set i .temporary }, ?_, rfl, rfl, ?_, ?_⟩
  · change (s.lock i).threads[i]?.bind ((s.lock i).advance i) = _
    rw [hat, Option.bind_some]
    simp only [State.advance, if_pos hc, State.goto, State.lock, List.set_set]
  · change s.handles +
      total Point.uses (s.threads.set i (.locked (interlockedIncrement s.sc))) < counterRange
    rw [h.handles]
    unfold counterRange
    omega
  · change s.handles + total Point.uses (s.threads.set i .temporary) < counterRange
    rw [h.handles]
    unfold counterRange
    omega

/-- A `lock` on a dead object with another `lock` under way gets a `SharedPtr` to an object
that is deleted, at the latest when the thread that found the counter zero goes on. -/
theorem revives (h : s.Inv) {act : Action} (hstep : s.step act = some t)
    (hbad : ¬ s.NoRevival act) :
    ∃ tr u, Runs t tr u ∧ (∀ p ∈ tr, p.1.NoRevival p.2) ∧ (∀ x ∈ visited tr u, x.Fits) ∧
      ¬ u.Protected := by
  unfold NoRevival at hbad
  push Not at hbad
  obtain ⟨i, rfl, hprotectors, hsc⟩ := hbad
  have hdead := h.phase.resolve_left fun halive =>
    absurd hprotectors (Nat.ne_of_gt halive.protectors_pos)
  simp only [State.step] at hstep
  split at hstep
  · next hi =>
      obtain rfl := Option.some.inj hstep
      have hlen : i < s.threads.length := (List.getElem?_eq_some_iff.mp hi).1
      obtain ⟨u, hadvance, hdeleted, hthreads, hfits, hfits'⟩ := hdead.lock_step hi hsc
      have htemp : u.threads[i]? = some .temporary := by
        rw [hthreads, List.getElem?_set_self hlen]
      have hdeletion := hdead.deletion
      by_cases hzero : s.deleted = 0
      · -- the thread that is about to delete goes on
        obtain ⟨q, hq, hpos⟩ := exists_pos (f := Point.deletes) (l := s.threads) (by omega)
        obtain ⟨j, hj⟩ := List.mem_iff_getElem?.mp hq
        have hqpoint : q = .deleting := by
          have hdying := hdead.points q hq
          cases q <;> first | rfl | exact hdying.elim | cases hpos
        subst hqpoint
        have hne : i ≠ j := by
          rintro rfl
          rw [hi] at hj
          cases hj
        have hj' : u.threads[j]? = some .deleting := by
          rw [hthreads, List.getElem?_set_ne hne]
          exact hj
        let v : State := { u with deleted := u.deleted + 1, threads := u.threads.set j .idle }
        have hdelete : u.step (.advance j) = some v := by
          simp only [State.step, hj', Option.bind_some, State.advance, State.goto, v]
        refine ⟨[(s.lock i, Action.advance i), (u, Action.advance j)], v, ?_, ?_, ?_, ?_⟩
        · exact Run.cons_iff.mpr ⟨rfl, u, hadvance, Run.single hdelete⟩
        · simp [NoRevival]
        · have hsame : total Point.uses (u.threads.set j .idle) + 0 = _ := total_set hj' _
          have hfitsv : v.Fits := by
            have hfitsu : u.handles + total Point.uses u.threads < counterRange := hfits'
            change u.handles + total Point.uses (u.threads.set j .idle) < counterRange
            simp only [Point.uses] at hsame
            omega
          simp [visited, hfits, hfits', hfitsv]
        · refine not_protected (i := i) (Nat.succ_ne_zero _) ?_
          change (u.threads.set j .idle)[i]? = _
          rw [List.getElem?_set_ne (Ne.symm hne)]
          exact htemp
      · refine ⟨[(s.lock i, Action.advance i)], u, Run.single hadvance, ?_, ?_, ?_⟩
        · simp [NoRevival]
        · simp [visited, hfits, hfits']
        · exact not_protected (by rwa [hdeleted]) htemp
  · cases hstep

end State

open State

/-- **When `lock` revives nothing.**  First, in every run of any number of threads in which
no `lock` increments the counter of a dead object over another `lock`, and the counter has
room for its uses, the object is protected all the time.  Second, no weaker condition would
do: once a `lock` of such a run does so, the threads can go on in such a way that there is
a `SharedPtr` to a deleted object. -/
theorem lock_protects {n : ℕ} {tr : List (State × Action)} {s : State}
    (hrun : Runs (.init n) tr s) (hgood : ∀ p ∈ tr, p.1.NoRevival p.2)
    (hfits : ∀ x ∈ visited tr s, x.Fits) :
    (∀ x ∈ visited tr s, x.Protected) ∧
    ∀ act t, s.step act = some t →
      ((∀ tr' u, Runs t tr' u → (∀ p ∈ tr', p.1.NoRevival p.2) →
        (∀ x ∈ visited tr' u, x.Fits) → u.Protected) ↔ s.NoRevival act) := by
  have hinv := (Inv.init n).run hrun hgood hfits
  refine ⟨fun x hx => (hinv x hx).protected, fun act t hstep => ⟨fun hprotected => ?_, ?_⟩⟩
  · by_contra hbad
    obtain ⟨tr', u, hrun', hgood', hfits', hnot⟩ := revives (hinv s (by simp)) hstep hbad
    exact hnot (hprotected tr' u hrun' hgood' hfits')
  · intro hrevival tr' u hrun' hgood' hfits'
    have hinvt := (hinv s (by simp)).step hstep hrevival (hfits s (by simp))
      (hfits' t hrun'.start_mem_visited)
    exact (hinvt.run hrun' hgood' hfits' u (by simp)).protected

/-- A `lock` that overlaps with the release of the last `SharedPtr`, and one on the object
when it is gone. -/
theorem lock_protects_example : ∃ tr s, Runs (.init 2) tr s ∧
    actions tr = [.lock 0, .release 1, .advance 0, .advance 0, .advance 0, .advance 0,
      .release 0, .advance 0, .lock 1, .advance 1, .advance 1] ∧
    ((∀ x ∈ visited tr s, x.Protected) ∧
      ∀ act t, s.step act = some t →
        ((∀ tr' u, Runs t tr' u → (∀ p ∈ tr', p.1.NoRevival p.2) →
          (∀ x ∈ visited tr' u, x.Fits) → u.Protected) ↔ s.NoRevival act)) := by
  let acts : List Action := [.lock 0, .release 1, .advance 0, .advance 0, .advance 0,
    .advance 0, .release 0, .advance 0, .lock 1, .advance 1, .advance 1]
  let s := (exec State.step (.init 2) acts).get (by decide)
  have hs : exec State.step (.init 2) acts = some s := (Option.some_get _).symm
  obtain ⟨hrun, hacts⟩ := exec_trace _ _ _ _ hs
  exact ⟨_, s, hrun, hacts, lock_protects hrun (by decide) (by decide)⟩

/-- **A dead object is revived.**  The last `SharedPtr` is released; two threads call
`lock`, and the second one gets 2 from its increment because the first has not taken its
own away yet.  It is about to return a `SharedPtr` to an object that has been deleted, and
when that one is released the object is deleted again. -/
theorem dead_object_revived : ∃ s s',
    exec State.step (.init 3) [.release 0, .lock 1, .lock 2, .advance 0, .advance 2,
      .advance 2, .advance 2, .advance 1, .advance 1] = some s ∧
    s.threads[2]? = some (.leaving true) ∧ s.deleted = 1 ∧ ¬ s.Protected ∧
    exec State.step s [.advance 2, .release 2, .advance 2] = some s' ∧ s'.deleted = 2 := by
  let acts : List Action := [.release 0, .lock 1, .lock 2, .advance 0, .advance 2, .advance 2,
    .advance 2, .advance 1, .advance 1]
  let s := (exec State.step (.init 3) acts).get (by decide)
  have hreturns : s.threads[2]? = some (.leaving true) := by decide
  have hdeleted : s.deleted = 1 := by decide
  refine ⟨s, (exec State.step s [.advance 2, .release 2, .advance 2]).get (by decide),
    (Option.some_get _).symm, hreturns, hdeleted, fun hprotected => ?_,
    (Option.some_get _).symm, by decide⟩
  have hzero := hprotected.lock 2 hreturns
  rw [hdeleted] at hzero
  cases hzero

end ConcurrentLock

end Craplib.Memory
