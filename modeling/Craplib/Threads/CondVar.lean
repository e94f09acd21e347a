import Mathlib.Data.List.Nodup
import Mathlib.Logic.Function.Basic
import Craplib.Lib.Runs

/-!
# `CondVar` and `CondLock`

A flag with a mutex and a condition.  A `CondLock` takes the mutex, for as long as it lives; it
may be told to wait until the flag has a value, for a limited time or without a limit.  `set`
changes the flag and signals, which wakes one of the threads that wait, if there are any,
whatever they wait for.  A wait may also end without a signal.

A step is what a thread does between two points where it may have to wait.  The numbers of
threads and of locks are not bounded.
-/

namespace Craplib

namespace Condition

abbrev ThreadId := ℕ

/-- The constructors of `CondLock`. -/
inductive Ctor
  /-- `CondLock(cvar)` -/
  | plain
  /-- `CondLock(cvar, val)` -/
  | wait (val : Bool)
  /-- `CondLock(cvar, val, time)` -/
  | timedWait (val : Bool)
deriving DecidableEq, Repr

/-- The value that a constructor waits for. -/
def Ctor.val : Ctor → Option Bool
  | .plain => none
  | .wait val => some val
  | .timedWait val => some val

/-- Its wait has a time limit. -/
def Ctor.timed : Ctor → Bool
  | .timedWait _ => true
  | _ => false

/-- Where a thread is with its `CondLock`. -/
inductive Position
  | out
  /-- It needs the mutex: in `Threads::lock`, or at the end of `Threads::wait`, which may have
  run out of time. -/
  | locking (ctor : Ctor) (timeReached : Bool)
  /-- In `Threads::wait`. -/
  | waiting (ctor : Ctor)
  /-- The constructor has returned. -/
  | inside
deriving DecidableEq, Repr

/-- A `CondVar`, and the threads that use it. -/
structure CondVar where
  d : Bool
  /-- Who holds `m_`. -/
  holder : Option ThreadId := none
  /-- Who waits on `c_`. -/
  waiters : List ThreadId := []
  position : ThreadId → Position := fun _ => .out

/-- What a thread can do. -/
inductive Action
  /-- A `CondLock` is declared. -/
  | begin (t : ThreadId) (ctor : Ctor)
  /-- The mutex is free; the flag is tested, if the constructor has to. -/
  | lock (t : ThreadId)
  /-- `set(val)`; the signal wakes the thread `woken`. -/
  | set (t : ThreadId) (val : Bool) (woken : Option ThreadId)
  /-- `~CondLock` -/
  | leave (t : ThreadId)
  /-- `Threads::wait` ends without a signal. -/
  | wake (t : ThreadId) (timeReached : Bool)
deriving DecidableEq, Repr

/-- Whose step it is. -/
def Action.thread : Action → ThreadId
  | .begin t _ | .lock t | .set t _ _ | .leave t | .wake t _ => t

namespace CondVar

/-- `CondVar(d)` -/
def init (d : Bool) : CondVar := { d := d }

def setPosition (s : CondVar) (t : ThreadId) (position : Position) : CondVar :=
  { s with position := Function.update s.position t position }

/-- The thread leaves `Threads::wait`, and needs the mutex. -/
def wakeUp (s : CondVar) (t : ThreadId) (timeReached : Bool) : Option CondVar :=
  match s.position t with
  | .waiting ctor =>
      some ({ s with waiters := s.waiters.erase t }.setPosition t (.locking ctor timeReached))
  | _ => none

/-- `Threads::signal(c_)`: a thread wakes up, if one waits. -/
def signal (s : CondVar) : Option ThreadId → Option CondVar
  | none => if s.waiters = [] then some s else none
  | some t => s.wakeUp t false

/-- The constructor is done with its test: `wait` is left, or was not called. -/
def Passes (s : CondVar) (ctor : Ctor) (timeReached : Bool) : Prop :=
  timeReached = true ∨ ∀ val ∈ ctor.val, s.d = val

instance (s : CondVar) (ctor : Ctor) (timeReached : Bool) :
    Decidable (s.Passes ctor timeReached) :=
  inferInstanceAs (Decidable (_ ∨ ∀ val ∈ ctor.val, s.d = val))

/-- One step of a thread. -/
def step (s : CondVar) : Action → Option CondVar
  | .begin t ctor =>
      match s.position t with
      | .out => some (s.setPosition t (.locking ctor false))
      | _ => none
  | .lock t =>
      match s.position t with
      | .locking ctor timeReached =>
          if s.holder = none then
            if s.Passes ctor timeReached then
              some ({ s with holder := some t }.setPosition t .inside)
            else some ({ s with waiters := s.waiters ++ [t] }.setPosition t (.waiting ctor))
          else none
      | _ => none
  | .set t val woken =>
      match s.position t with
      | .inside => { s with d := val }.signal woken
      | _ => none
  | .leave t =>
      match s.position t with
      | .inside => some ({ s with holder := none }.setPosition t .out)
      | _ => none
  | .wake t timeReached =>
      match s.position t with
      | .waiting ctor => if timeReached && !ctor.timed then none else s.wakeUp t timeReached
      | _ => none

end CondVar

/-- Runs of the threads. -/
abbrev Runs (s : CondVar) : List (CondVar × Action) → CondVar → Prop :=
  Machine.Run (Machine.Fires CondVar.step) s

/-! ## What a step does -/

section Steps

variable {s s' : CondVar} {t : ThreadId}

namespace CondVar

@[simp] theorem position_setPosition (s : CondVar) (t u : ThreadId) (position : Position) :
    (s.setPosition t position).position u = if u = t then position else s.position u := by
  unfold setPosition
  simp only [Function.update_apply]

@[simp] theorem d_setPosition (s : CondVar) (t : ThreadId) (position : Position) :
    (s.setPosition t position).d = s.d := rfl

@[simp] theorem holder_setPosition (s : CondVar) (t : ThreadId) (position : Position) :
    (s.setPosition t position).holder = s.holder := rfl

@[simp] theorem waiters_setPosition (s : CondVar) (t : ThreadId) (position : Position) :
    (s.setPosition t position).waiters = s.waiters := rfl

theorem begin_spec {ctor : Ctor} (h : s.step (.begin t ctor) = some s') :
    s.position t = .out ∧ s' = s.setPosition t (.locking ctor false) := by
  simp only [step] at h
  split at h
  · next hout => exact ⟨hout, (Option.some.inj h).symm⟩
  · cases h

/-- A thread gets the mutex: it is inside, or goes to sleep. -/
theorem lock_spec (h : s.step (.lock t) = some s') :
    ∃ ctor timeReached, s.position t = .locking ctor timeReached ∧ s.holder = none ∧
      ((s.Passes ctor timeReached ∧ s' = { s with holder := some t }.setPosition t .inside) ∨
        (¬ s.Passes ctor timeReached ∧
          s' = { s with waiters := s.waiters ++ [t] }.setPosition t (.waiting ctor))) := by
  simp only [step] at h
  split at h
  · next ctor timeReached hlocking =>
      split_ifs at h with hfree hpasses
      · exact ⟨ctor, timeReached, hlocking, hfree, Or.inl ⟨hpasses, (Option.some.inj h).symm⟩⟩
      · exact ⟨ctor, timeReached, hlocking, hfree, Or.inr ⟨hpasses, (Option.some.inj h).symm⟩⟩
  · cases h

theorem lock_in {ctor : Ctor} {timeReached : Bool} (hpos : s.position t = .locking ctor timeReached)
    (hfree : s.holder = none) (hpasses : s.Passes ctor timeReached) :
    s.step (.lock t) = some ({ s with holder := some t }.setPosition t .inside) := by
  simp only [step, hpos, if_pos hfree, if_pos hpasses]

theorem lock_sleep {ctor : Ctor} {timeReached : Bool}
    (hpos : s.position t = .locking ctor timeReached) (hfree : s.holder = none)
    (hfails : ¬ s.Passes ctor timeReached) : s.step (.lock t) =
      some ({ s with waiters := s.waiters ++ [t] }.setPosition t (.waiting ctor)) := by
  simp only [step, hpos, if_pos hfree, if_neg hfails]

theorem wakeUp_spec {timeReached : Bool} (h : s.wakeUp t timeReached = some s') :
    ∃ ctor, s.position t = .waiting ctor ∧
      s' = { s with waiters := s.waiters.erase t }.setPosition t (.locking ctor timeReached) := by
  simp only [wakeUp] at h
  split at h
  · next ctor hwaiting => exact ⟨ctor, hwaiting, (Option.some.inj h).symm⟩
  · cases h

theorem set_spec {val : Bool} {woken : Option ThreadId}
    (h : s.step (.set t val woken) = some s') :
    s.position t = .inside ∧
      ((woken = none ∧ s.waiters = [] ∧ s' = { s with d := val }) ∨
        ∃ u, woken = some u ∧ { s with d := val }.wakeUp u false = some s') := by
  simp only [step] at h
  split at h
  · next hinside =>
      cases woken with
      | none =>
          simp only [signal] at h
          split_ifs at h with hnone
          exact ⟨hinside, Or.inl ⟨rfl, hnone, (Option.some.inj h).symm⟩⟩
      | some u => exact ⟨hinside, Or.inr ⟨u, rfl, h⟩⟩
  · cases h

theorem leave_spec (h : s.step (.leave t) = some s') :
    s.position t = .inside ∧ s' = { s with holder := none }.setPosition t .out := by
  simp only [step] at h
  split at h
  · next hinside => exact ⟨hinside, (Option.some.inj h).symm⟩
  · cases h

theorem wake_spec {timeReached : Bool} (h : s.step (.wake t timeReached) = some s') :
    s.wakeUp t timeReached = some s' := by
  simp only [step] at h
  split at h
  · split_ifs at h
    exact h
  · cases h

/-! ## Who is inside, and who waits -/

/-- The thread that holds the mutex is inside, and those that wait are the waiters. -/
structure Consistent (s : CondVar) : Prop where
  holder : ∀ t, s.position t = .inside ↔ s.holder = some t
  waiters : ∀ t, t ∈ s.waiters ↔ ∃ ctor, s.position t = .waiting ctor
  nodup : s.waiters.Nodup

theorem consistent_init (d : Bool) : (init d).Consistent :=
  ⟨by simp [init], by simp [init], List.nodup_nil⟩

/-- A move between two positions that are neither inside nor waiting. -/
theorem Consistent.setPosition {position : Position} (h : s.Consistent)
    (hout : s.position t ≠ .inside) (hwait : ∀ ctor, s.position t ≠ .waiting ctor)
    (hout' : position ≠ .inside) (hwait' : ∀ ctor, position ≠ .waiting ctor) :
    (s.setPosition t position).Consistent := by
  refine ⟨fun u => ?_, fun u => ?_, h.nodup⟩
  · rw [position_setPosition]
    split_ifs with heq
    · subst heq
      exact iff_of_false hout' (mt (h.holder u).mpr hout)
    · exact h.holder u
  · rw [position_setPosition]
    split_ifs with heq
    · subst heq
      refine iff_of_false (fun hmem => ?_) (by simpa using hwait')
      obtain ⟨ctor, hctor⟩ := (h.waiters u).mp hmem
      exact hwait ctor hctor
    · exact h.waiters u

theorem Consistent.wakeUp {timeReached : Bool} (h : s.Consistent)
    (hstep : s.wakeUp t timeReached = some s') : s'.Consistent := by
  obtain ⟨ctor, hwaiting, rfl⟩ := wakeUp_spec hstep
  refine ⟨fun u => ?_, fun u => ?_, h.nodup.erase t⟩
  · rw [position_setPosition]
    split_ifs with heq
    · subst heq
      refine iff_of_false (by simp) fun hholder => ?_
      rw [(h.holder u).mpr hholder] at hwaiting
      cases hwaiting
    · exact h.holder u
  · rw [position_setPosition]
    refine (h.nodup.mem_erase_iff).trans ?_
    split_ifs with heq
    · simp [heq]
    · simpa [heq] using h.waiters u

/-- **Every step keeps this.** -/
theorem Consistent.step {act : Action} (h : s.Consistent) (hstep : s.step act = some s') :
    s'.Consistent := by
  cases act with
  | begin t ctor =>
      obtain ⟨hout, rfl⟩ := begin_spec hstep
      exact h.setPosition (by simp [hout]) (by simp [hout]) (by simp) (by simp)
  | lock t =>
      obtain ⟨ctor, timeReached, hlocking, hfree, ⟨-, rfl⟩ | ⟨-, rfl⟩⟩ := lock_spec hstep
      · refine ⟨fun u => ?_, fun u => ?_, h.nodup⟩
        · rw [position_setPosition]
          split_ifs with heq
          · simp [heq]
          · have hnot : s.position u ≠ .inside := by simp [h.holder, hfree]
            simpa [hnot] using fun hu => heq hu.symm
        · rw [position_setPosition]
          split_ifs with heq
          · subst heq
            simpa [hlocking] using h.waiters u
          · exact h.waiters u
      · refine ⟨fun u => ?_, fun u => ?_, ?_⟩
        · rw [position_setPosition]
          split_ifs with heq
          · simp [hfree]
          · exact h.holder u
        · rw [position_setPosition]
          split_ifs with heq
          · simp [heq]
          · simpa [heq] using h.waiters u
        · refine List.nodup_append.mpr ⟨h.nodup, List.nodup_singleton t, ?_⟩
          rintro u hu _ ht rfl
          rw [List.mem_singleton] at ht
          subst ht
          obtain ⟨ctor', hwaiting⟩ := (h.waiters u).mp hu
          rw [hlocking] at hwaiting
          cases hwaiting
  | set t val woken =>
      obtain ⟨-, ⟨-, -, rfl⟩ | ⟨u, -, hwake⟩⟩ := set_spec hstep
      · exact ⟨h.holder, h.waiters, h.nodup⟩
      · exact Consistent.wakeUp (by exact ⟨h.holder, h.waiters, h.nodup⟩) hwake
  | leave t =>
      obtain ⟨hinside, rfl⟩ := leave_spec hstep
      refine ⟨fun u => ?_, fun u => ?_, h.nodup⟩
      · rw [position_setPosition]
        have hholder := (h.holder t).mp hinside
        split_ifs with heq
        · simp
        · have hnot : s.position u ≠ .inside := by
            rw [ne_eq, h.holder, hholder]
            exact fun hu => heq (Option.some.inj hu).symm
          simp [hnot]
      · rw [position_setPosition]
        split_ifs with heq
        · subst heq
          simpa [hinside] using h.waiters u
        · exact h.waiters u
  | wake t timeReached => exact h.wakeUp (wake_spec hstep)

theorem consistent_of_run {d : Bool} {tr : List (CondVar × Action)}
    (hrun : Runs (init d) tr s) : s.Consistent :=
  hrun.invariant (fun _ _ _ h hstep => h.step hstep) (consistent_init d)

end CondVar

end Steps

end Condition

end Craplib
