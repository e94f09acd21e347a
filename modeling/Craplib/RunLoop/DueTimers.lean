import Craplib.Lib.Weights
import Craplib.RunLoop.Timers

/-!
# The loop over the due timers

`RunLoop::run` takes timers from the front of the deque and calls them, as long as the first
one is due.  It reads the clock again for every timer, and a callback may set timers, its own
too: one that is set for a time that the clock reaches is called in the same loop.  So the
loop does not end when callbacks go on setting such timers, as `AsyncFileReader` sets its timer
with `set(0)` for a delegate that reads on.

Every call takes one timer out, so there are no more calls than timers set (`calls_le`);
`loop_ends_iff` says that the loop ends exactly when only finitely many of the sets that its
callbacks make are for a time that the clock reaches.
-/

namespace Craplib

namespace Timers

open LowerBound

universe u

variable {T : Type u} [LinearOrder T] [Add T]

/-- What a callback does to a timer.  `now` is what `set` reads from the clock. -/
inductive TimerOp (T : Type u)
  | set (timer : TimerPtr) (now time : T)
  | cancel (timer : TimerPtr)

/-- One turn of the loop: what `ct` is, and what `onTimer` does if it is called. -/
structure Turn (T : Type u) where
  ct : T
  ops : List (TimerOp T)

namespace State

/-- `Timer::set` and `Timer::cancel` in a callback. -/
def apply (s : State T) : TimerOp T → State T
  | .set timer now time => { s with clock := now }.set timer time
  | .cancel timer => s.dequeue timer

/-- One turn of the loop, with the call of the first timer if it is due. -/
def turn (s : State T) (a : Turn T) : Option (State T) :=
  match s.timers with
  | [] => none
  | timer :: rest =>
      if a.ct < s.fire timer then none
      else some (a.ops.foldl apply { s with clock := a.ct, timers := rest })

/-- The loop after `n` calls, or nothing when it has ended before. -/
def loop (turns : ℕ → Turn T) (s : State T) : ℕ → Option (State T)
  | 0 => some s
  | n + 1 => (loop turns s n).bind fun t => t.turn (turns n)

variable {s t : State T}

/-- A turn with a call: the first timer is due. -/
theorem turn_cases {a : Turn T} (h : s.turn a = some t) :
    ∃ timer rest, s.timers = timer :: rest ∧ s.fire timer ≤ a.ct ∧
      t = a.ops.foldl apply { s with clock := a.ct, timers := rest } := by
  unfold turn at h
  cases htimers : s.timers with
  | nil => simp [htimers] at h
  | cons timer rest =>
      rw [htimers] at h
      dsimp only at h
      split at h
      · simp at h
      · next hdue => exact ⟨timer, rest, rfl, not_lt.mp hdue, (Option.some.inj h).symm⟩

/-- It is the turn in which `run` goes into `onTimer`. -/
theorem checkTimers_of_turn {a : Turn T} (h : s.turn a = some t) (outer : List Frame) :
    ∃ timer rest, t = a.ops.foldl apply { s with clock := a.ct, timers := rest } ∧
      { s with clock := a.ct }.checkTimers outer =
        { s with clock := a.ct, timers := rest, calls := .inTimer timer :: outer } := by
  obtain ⟨timer, rest, htimers, hdue, ht⟩ := turn_cases h
  refine ⟨timer, rest, ht, ?_⟩
  unfold checkTimers
  rw [htimers]
  exact if_neg (not_lt.mpr hdue)

/-- A turn without a call is the one in which `run` leaves the loop over the due timers. -/
theorem checkTimers_of_turn_eq_none {a : Turn T} (h : s.turn a = none) (outer : List Frame) :
    { s with clock := a.ct }.checkTimers outer =
      { s with clock := a.ct }.leaveTimerLoop outer := by
  unfold turn at h
  unfold checkTimers
  cases htimers : s.timers with
  | nil => rfl
  | cons timer rest =>
      rw [htimers] at h
      dsimp only at h ⊢
      split at h
      · next hlater => rw [if_pos hlater]
      · simp at h

/-! ## Counting the timers that are set -/

section Count

variable (R : T → Bool)

/-- The timers in the deque whose time is in `R`. -/
def armed (s : State T) : ℕ := s.timers.countP fun timer => R (s.fire timer)

/-- How many timers an operation sets for a time in `R`. -/
def sets : TimerOp T → ℕ
  | .set _ now time => if R (now + time) then 1 else 0
  | .cancel _ => 0

variable {R}

theorem armed_set_le (timer : TimerPtr) (time : T) :
    (s.set timer time).armed R ≤ s.armed R + if R (s.clock + time) then 1 else 0 := by
  -- the other timers keep their times
  have hothers : (s.timers.filter (· ≠ timer)).countP
      (fun x => R (Function.update s.fire timer (s.clock + time) x)) =
      (s.timers.filter (· ≠ timer)).countP fun x => R (s.fire x) := by
    refine List.countP_congr fun x hx => ?_
    have hne : x ≠ timer := by simpa using (List.mem_filter.mp hx).2
    rw [Function.update_of_ne hne]
  have hfewer : (s.timers.filter (· ≠ timer)).countP (fun x => R (s.fire x)) ≤
      s.timers.countP fun x => R (s.fire x) :=
    List.filter_sublist.countP_le
  unfold set enqueue dequeue armed insertAt
  dsimp only
  generalize lowerBound _ _ = n
  rw [List.countP_append, List.countP_cons, Function.update_self, ← Nat.add_assoc,
    ← List.countP_append, List.take_append_drop, hothers]
  omega

theorem armed_apply_le (op : TimerOp T) : (s.apply op).armed R ≤ s.armed R + sets R op := by
  cases op with
  | set timer now time => exact armed_set_le (s := { s with clock := now }) timer time
  | cancel timer => exact List.filter_sublist.countP_le

theorem armed_foldl_le (ops : List (TimerOp T)) :
    (ops.foldl apply s).armed R ≤ s.armed R + Weights.total (sets R) ops := by
  induction ops generalizing s with
  | nil => exact Nat.le_refl _
  | cons op ops ih =>
      have hop := armed_apply_le (R := R) (s := s) op
      have hops := ih (s := s.apply op)
      rw [List.foldl_cons, Weights.total_cons]
      omega

/-- **One turn** takes a timer out, and adds those that the callback sets. -/
theorem armed_turn {a : Turn T} (h : s.turn a = some t) (hR : ∀ f, f ≤ a.ct → R f = true) :
    t.armed R + 1 ≤ s.armed R + Weights.total (sets R) a.ops := by
  obtain ⟨timer, rest, htimers, hdue, rfl⟩ := turn_cases h
  have hops := armed_foldl_le (R := R) (s := { s with clock := a.ct, timers := rest }) a.ops
  have htaken : s.armed R = rest.countP (fun x => R (s.fire x)) + 1 := by
    rw [armed, htimers]
    exact List.countP_cons_of_pos (hR _ hdue)
  unfold armed at hops htaken ⊢
  dsimp only at hops
  omega

/-- What the first `n` callbacks set for a time in `R`. -/
def setsBefore (R : T → Bool) (turns : ℕ → Turn T) : ℕ → ℕ
  | 0 => 0
  | n + 1 => setsBefore R turns n + Weights.total (sets R) (turns n).ops

/-- **The calls of a loop**: each one is for a timer that was set before the loop or by a
callback. -/
theorem calls_le {turns : ℕ → Turn T} {n : ℕ} (h : loop turns s n = some t)
    (hR : ∀ n f, f ≤ (turns n).ct → R f = true) :
    t.armed R + n ≤ s.armed R + setsBefore R turns n := by
  induction n generalizing t with
  | zero =>
      obtain rfl : s = t := by simpa [loop] using h
      exact Nat.le_refl _
  | succ n ih =>
      obtain ⟨s', hs', hturn⟩ := Option.bind_eq_some_iff.mp h
      have hbefore := ih hs'
      have hnow := armed_turn hturn (hR n)
      rw [setsBefore]
      omega

end Count

/-! ## When the loop ends -/

/-- The clock reaches the time at some turn. -/
def Reached (turns : ℕ → Turn T) (f : T) : Prop := ∃ m, f ≤ (turns m).ct

/-- The callback of turn `n` sets a timer for a time that the clock reaches. -/
def SetsReached (turns : ℕ → Turn T) (n : ℕ) : Prop :=
  ∃ timer now time, .set timer now time ∈ (turns n).ops ∧ Reached turns (now + time)

variable {turns : ℕ → Turn T}

theorem loop_eq_none_of_le {s : State T} {n m : ℕ} (h : loop turns s n = none) (hle : n ≤ m) :
    loop turns s m = none := by
  induction m, hle using Nat.le_induction with
  | base => exact h
  | succ m _ ih => rw [loop, ih, Option.bind_none]

/-- Behind the last callback that sets such a timer their number does not grow. -/
theorem setsBefore_eq {R : T → Bool} (hR : ∀ f, R f = true → Reached turns f) {N : ℕ}
    (h : ∀ n, N ≤ n → ¬ SetsReached turns n) {n : ℕ} (hn : N ≤ n) :
    setsBefore R turns n = setsBefore R turns N := by
  have hnone : ∀ n, N ≤ n → Weights.total (sets R) (turns n).ops = 0 := by
    intro n hn
    refine Weights.total_eq_zero.mpr fun op hop => ?_
    cases op with
    | cancel timer => rfl
    | set timer now time => exact if_neg fun hreach => h n hn ⟨timer, now, time, hop, hR _ hreach⟩
  induction n, hn using Nat.le_induction with
  | base => rfl
  | succ n hn ih => rw [setsBefore, hnone n hn, ih, Nat.add_zero]

/-- **When the loop ends**: exactly when only finitely many of the callbacks that it makes set
a timer for a time that the clock reaches. -/
theorem loop_ends_iff (turns : ℕ → Turn T) (s : State T) :
    (∃ n, loop turns s n = none) ↔
      ∃ N, ∀ n, N ≤ n → loop turns s (n + 1) ≠ none → ¬ SetsReached turns n := by
  constructor
  · rintro ⟨N, hN⟩
    exact ⟨N, fun n hn hcall => absurd (loop_eq_none_of_le hN (Nat.le_succ_of_le hn)) hcall⟩
  · rintro ⟨N, hN⟩
    by_contra hnever
    push Not at hnever
    classical
    -- each call of an endless loop would be for another timer
    let R : T → Bool := fun f => decide (Reached turns f)
    have hsets : ∀ n, N ≤ n → setsBefore R turns n = setsBefore R turns N := fun n hn =>
      setsBefore_eq (fun _ => of_decide_eq_true) (fun n hn => hN n hn (hnever (n + 1))) hn
    obtain ⟨t, ht⟩ := Option.ne_none_iff_exists'.mp
      (hnever (N + s.armed R + setsBefore R turns N + 1))
    have hcalls := calls_le (R := R) ht fun n f hf => decide_eq_true ⟨n, hf⟩
    have hsame := hsets (N + s.armed R + setsBefore R turns N + 1) (by omega)
    omega

/-- The timer that sets itself again with `set(0)`, called at the times 0, 1, 2 and so on. -/
def rearmed : ℕ → Turn ℤ := fun n => { ct := n, ops := [.set 0 n 0] }

/-- The clock goes on from call to call, and the loop does not end. -/
theorem loop_rearmed (n : ℕ) :
    ∃ t, loop rearmed { clock := 0, fire := fun _ => 0, timers := [0] } n = some t ∧
      t.timers = [0] ∧ t.fire 0 ≤ n := by
  induction n with
  | zero => exact ⟨_, rfl, rfl, Int.le_refl 0⟩
  | succ n ih =>
      obtain ⟨t, ht, htimers, hfire⟩ := ih
      have hturn : t.turn (rearmed n) =
          some (({ t with clock := (n : ℤ), timers := [] } : State ℤ).set 0 0) := by
        rw [turn, htimers]
        exact if_neg (not_lt.mpr hfire)
      refine ⟨_, by rw [loop, ht, Option.bind_some, hturn], rfl, ?_⟩
      simp only [set, enqueue, dequeue, Function.update_self]
      omega

theorem loop_rearmed_never_ends :
    (∀ n, (rearmed n).ct ≤ (rearmed (n + 1)).ct) ∧
    ¬ ∃ n, loop rearmed { clock := 0, fire := fun _ => 0, timers := [0] } n = none := by
  refine ⟨fun n => ?_, ?_⟩
  · simp only [rearmed]
    omega
  · rintro ⟨n, hn⟩
    obtain ⟨t, ht, -⟩ := loop_rearmed n
    rw [hn] at ht
    cases ht

end State

end Timers

end Craplib
