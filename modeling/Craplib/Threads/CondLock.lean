import Craplib.Threads.CondVar

/-!
# What a `CondLock` is good for

* `exclusive` — a lock excludes all others, and what its constructor has found in the flag is
  there until the lock does something.
* `overslept_iff` — when no thread ever sleeps although the flag has the value that it waits
  for: `signal` wakes one thread only, so every `set` has to find no other one that would go on.
-/

namespace Craplib

namespace Condition

namespace CondVar

variable {s s' last : CondVar} {d : Bool} {t : ThreadId} {pre mid tr : List (CondVar × Action)}

/-! ## Exclusion -/

/-- While a thread is inside, the steps of the others leave it there, and the flag alone. -/
theorem step_of_other {act : Action} (h : s.Consistent) (hin : s.position t = .inside)
    (hother : act.thread ≠ t) (hstep : s.step act = some s') :
    s'.position t = .inside ∧ s'.d = s.d := by
  have hinside : ∀ u, s.position u = .inside → u = t := by
    intro u hu
    have hboth := ((h.holder u).mp hu).symm.trans ((h.holder t).mp hin)
    exact Option.some.inj hboth
  cases act with
  | begin u ctor =>
      obtain ⟨-, rfl⟩ := begin_spec hstep
      have hne : t ≠ u := Ne.symm hother
      rw [position_setPosition, if_neg hne]
      exact ⟨hin, rfl⟩
  | lock u =>
      obtain ⟨-, -, -, hfree, -⟩ := lock_spec hstep
      rw [(h.holder t).mp hin] at hfree
      cases hfree
  | set u val woken => exact absurd (hinside u (set_spec hstep).1) hother
  | leave u => exact absurd (hinside u (leave_spec hstep).1) hother
  | wake u timeReached =>
      obtain ⟨ctor, -, rfl⟩ := wakeUp_spec (wake_spec hstep)
      have hne : t ≠ u := Ne.symm hother
      rw [position_setPosition, if_neg hne]
      exact ⟨hin, rfl⟩

/-- **A lock excludes all others.**  In every run of any number of threads, from the moment on
that a constructor of `CondLock` returns and until its thread does something: no other thread is
inside, and the flag is what the constructor has found; which is the value that it was to wait
for, unless the time was reached. -/
theorem exclusive {ctor : Ctor} {timeReached : Bool} (hpre : Runs (init d) pre s)
    (hctor : s.position t = .locking ctor timeReached) (hlock : s.step (.lock t) = some s')
    (hin : s'.position t = .inside) (hmid : Runs s' mid last)
    (hothers : ∀ p ∈ mid, p.2.thread ≠ t) :
    (∀ u, last.position u = .inside ↔ u = t) ∧ last.d = s.d ∧
      (timeReached = false → ∀ val ∈ ctor.val, last.d = val) := by
  have hs := consistent_of_run hpre
  have hkeep : ∀ x act y, (x.Consistent ∧ x.position t = .inside ∧ x.d = s'.d) →
      Machine.Fires step x act y → act.thread ≠ t →
      (y.Consistent ∧ y.position t = .inside ∧ y.d = s'.d) := by
    rintro x act y ⟨hx, hxin, hxd⟩ hstep hother
    obtain ⟨hyin, hyd⟩ := step_of_other hx hxin hother hstep
    exact ⟨hx.step hstep, hyin, hyd.trans hxd⟩
  have hlast := hmid.invariant_steps hkeep ⟨hs.step hlock, hin, rfl⟩ hothers last
    (Machine.mem_visited.mpr (Or.inr rfl))
  obtain ⟨hconsistent, hinside, hd⟩ := hlast
  refine ⟨fun u => ?_, ?_⟩
  · rw [hconsistent.holder, (hconsistent.holder t).mp hinside, Option.some.injEq]
    exact eq_comm
  · obtain ⟨ctor', timeReached', hctor', -, ⟨hpasses, rfl⟩ | ⟨-, rfl⟩⟩ := lock_spec hlock
    · rw [hctor] at hctor'
      obtain ⟨rfl, rfl⟩ := Position.locking.inj hctor'
      refine ⟨hd, fun htime val hval => ?_⟩
      have hflag := hpasses.resolve_left (by simp [htime])
      exact hd.trans (hflag val hval)
    · rw [position_setPosition, if_pos rfl] at hin
      cases hin

/-- Thread 1 waits until the flag is true, and thread 0 makes it true; when thread 1 is inside,
thread 0 comes back. -/
theorem exclusive_example : ∃ pre s s' mid last,
    Runs (init false) pre s ∧ s.step (.lock 1) = some s' ∧ Runs s' mid last ∧
    Machine.actions mid = [.begin 0 .plain] ∧
    (∀ u, last.position u = .inside ↔ u = 1) ∧ last.d = true := by
  let before : List Action := [.begin 1 (.wait true), .lock 1, .begin 0 .plain, .lock 0,
    .set 0 true (some 1), .leave 0]
  let s := (Machine.exec step (init false) before).get (by decide)
  let s' := (s.step (.lock 1)).get (by decide)
  let last := (s'.step (.begin 0 .plain)).get (by decide)
  obtain ⟨pre, hpre, -⟩ := Machine.exec_run step (init false) before s (Option.some_get _).symm
  have hlock : s.step (.lock 1) = some s' := (Option.some_get _).symm
  have hlast : s'.step (.begin 0 .plain) = some last := (Option.some_get _).symm
  have hmid : Runs s' [(s', .begin 0 .plain)] last := Machine.Run.single hlast
  have hall := @exclusive _ _ _ _ 1 _ _ (.wait true) false hpre (by decide) hlock
    (by decide) hmid (by simp [Action.thread])
  exact ⟨pre, s, s', _, last, hpre, hlock, hmid, rfl, hall.1, hall.2.2 rfl true rfl⟩

/-! ## Sleeping -/

/-- A thread sleeps although the flag has the value that it waits for. -/
def Overslept (s : CondVar) : Prop := ∃ t ctor, s.position t = .waiting ctor ∧ s.d ∈ ctor.val

/-- A `set` wakes every thread that waits for the new value. -/
def WakesAll (s : CondVar) (act : Action) : Prop :=
  ∀ t val woken, act = .set t val woken →
    ∀ u ctor, s.position u = .waiting ctor → val ∈ ctor.val → woken = some u

theorem not_overslept_wakeUp {timeReached : Bool} (h : ¬ s.Overslept)
    (hwake : s.wakeUp t timeReached = some s') : ¬ s'.Overslept := by
  obtain ⟨ctor, -, rfl⟩ := wakeUp_spec hwake
  rintro ⟨u, ctor', hwaiting, hval⟩
  rw [position_setPosition] at hwaiting
  split_ifs at hwaiting
  exact h ⟨u, ctor', hwaiting, hval⟩

/-- Steps that wake everybody they should leave nobody asleep. -/
theorem not_overslept_step {act : Action} (h : ¬ s.Overslept) (hstep : s.step act = some s')
    (hwakes : s.WakesAll act) : ¬ s'.Overslept := by
  cases act with
  | begin u ctor =>
      obtain ⟨-, rfl⟩ := begin_spec hstep
      rintro ⟨v, ctor', hwaiting, hval⟩
      rw [position_setPosition] at hwaiting
      split_ifs at hwaiting
      exact h ⟨v, ctor', hwaiting, hval⟩
  | lock u =>
      obtain ⟨ctor, timeReached, -, -, ⟨-, rfl⟩ | ⟨hfails, rfl⟩⟩ := lock_spec hstep
      · rintro ⟨v, ctor', hwaiting, hval⟩
        rw [position_setPosition] at hwaiting
        split_ifs at hwaiting
        exact h ⟨v, ctor', hwaiting, hval⟩
      · -- the thread that goes to sleep has just seen another value
        rintro ⟨v, ctor', hwaiting, hval⟩
        rw [position_setPosition] at hwaiting
        split_ifs at hwaiting with heq
        · obtain rfl := Position.waiting.inj hwaiting
          refine hfails (Or.inr fun val hwant => ?_)
          rw [Option.mem_def] at hval hwant
          rw [hwant] at hval
          exact (Option.some.inj hval).symm
        · exact h ⟨v, ctor', hwaiting, hval⟩
  | set u val woken =>
      obtain ⟨-, ⟨rfl, hnone, rfl⟩ | ⟨v, rfl, hwake⟩⟩ := set_spec hstep
      · rintro ⟨v, ctor, hwaiting, hval⟩
        cases hwakes u val none rfl v ctor hwaiting hval
      · obtain ⟨ctor, -, rfl⟩ := wakeUp_spec hwake
        rintro ⟨x, ctor', hwaiting, hval⟩
        rw [position_setPosition] at hwaiting
        split_ifs at hwaiting with heq
        exact heq (Option.some.inj (hwakes u val (some v) rfl x ctor' hwaiting hval)).symm
  | leave u =>
      obtain ⟨-, rfl⟩ := leave_spec hstep
      rintro ⟨v, ctor', hwaiting, hval⟩
      rw [position_setPosition] at hwaiting
      split_ifs at hwaiting
      exact h ⟨v, ctor', hwaiting, hval⟩
  | wake u timeReached => exact not_overslept_wakeUp h (wake_spec hstep)

/-- A `set` that does not leaves one of them asleep. -/
theorem overslept_of_not_wakesAll {act : Action} (hstep : s.step act = some s')
    (hbad : ¬ s.WakesAll act) : s'.Overslept := by
  simp only [WakesAll, not_forall] at hbad
  obtain ⟨u, val, woken, rfl, v, ctor, hwaiting, hval, hnot⟩ := hbad
  obtain ⟨-, ⟨rfl, -, rfl⟩ | ⟨x, rfl, hwake⟩⟩ := set_spec hstep
  · exact ⟨v, ctor, hwaiting, hval⟩
  · obtain ⟨ctor', -, rfl⟩ := wakeUp_spec hwake
    refine ⟨v, ctor, ?_, hval⟩
    rw [position_setPosition, if_neg]
    · exact hwaiting
    · rintro rfl
      exact hnot rfl

/-- **When no thread oversleeps.**  In every run of any number of threads: no state has a thread
that sleeps although the flag has the value it waits for exactly when every `set` wakes all the
threads that wait for the new value, which are at most one then. -/
theorem overslept_iff (hrun : Runs (init d) tr last) :
    (∀ x ∈ Machine.visited tr last, ¬ x.Overslept) ↔ ∀ p ∈ tr, p.1.WakesAll p.2 := by
  refine hrun.visited_iff_good (I := fun x => ¬ x.Overslept)
    (fun _ _ _ h hstep hwakes => not_overslept_step h hstep hwakes)
    (fun _ _ _ _ hstep hbad => not_not_intro (overslept_of_not_wakesAll hstep hbad))
    (fun _ h => h) ?_
  rintro ⟨t, ctor, hwaiting, -⟩
  cases hwaiting

/-- Threads 1 and 2 wait until the flag is true, and `set` wakes thread 1: thread 2 oversleeps. -/
theorem overslept_iff_example : ∃ tr last, Runs (init false) tr last ∧ last.Overslept ∧
    ¬ ∀ p ∈ tr, p.1.WakesAll p.2 := by
  let acts : List Action := [.begin 1 (.wait true), .lock 1, .begin 2 (.wait true), .lock 2,
    .begin 0 .plain, .lock 0, .set 0 true (some 1), .leave 0]
  let last := (Machine.exec step (init false) acts).get (by decide)
  obtain ⟨tr, hrun, -⟩ := Machine.exec_run step (init false) acts last (Option.some_get _).symm
  have hslept : last.Overslept := ⟨2, .wait true, by decide, by decide⟩
  refine ⟨tr, last, hrun, hslept, fun hall => ?_⟩
  exact (overslept_iff hrun).mpr hall last (Machine.mem_visited.mpr (Or.inr rfl)) hslept

/-- Where at most one thread waits, every `set` wakes it. -/
theorem wakesAll_of_one {act : Action} (h : s.Consistent) (hone : s.waiters.length ≤ 1)
    (hstep : s.step act = some s') : s.WakesAll act := by
  rintro t val woken rfl u ctor hwaiting -
  have hu : u ∈ s.waiters := (h.waiters u).mpr ⟨ctor, hwaiting⟩
  obtain ⟨-, ⟨-, hnone, -⟩ | ⟨v, rfl, hwake⟩⟩ := set_spec hstep
  · rw [hnone] at hu
    cases hu
  · obtain ⟨ctor', hv, -⟩ := wakeUp_spec hwake
    have hv' : v ∈ s.waiters := (h.waiters v).mpr ⟨ctor', hv⟩
    obtain ⟨x, hx⟩ := List.length_eq_one_iff.mp
      (Nat.le_antisymm hone (List.length_pos_of_mem hu))
    rw [hx, List.mem_singleton] at hu hv'
    rw [hu, hv']

end CondVar

end Condition

end Craplib
