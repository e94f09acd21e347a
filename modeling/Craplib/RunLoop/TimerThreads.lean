import Craplib.RunLoop.TimerDeadlines

/-!
# Timers and the run loops of several threads

A `Timer` has no run loop of its own: `set`, `cancel` and the destructor go through
`RunLoop::CurrentLoop`, the loop of the thread that they are called on, while a timer that is
set waits in the deque of the loop it was set on.  Each loop orders its deque by the field
`fire` of the timers.

`asked` is what the callers asked for: which timers are to be called, when, and on which
thread.  `kept_iff` says that the loops wait for exactly these timers, each loop in the order
of the fire times, if and only if every timer that waits is set, cancelled and destroyed on
the thread it waits on.  One that is set on another thread waits twice, one that is cancelled
there still waits, and one that is destroyed there is called after its end.
-/

namespace Craplib

namespace Timers

open LowerBound Machine

universe u

/-- A thread, and the run loop that is its `CurrentLoop`. -/
abbrev ThreadId := ℕ

/-- The timers of a process, and the deques of its run loops; a thread without a run loop has
none. -/
structure Threads (T : Type u) where
  /-- `Timing::currentTime()` -/
  clock : T
  /-- The field `fire` of each timer. -/
  fire : TimerPtr → T
  /-- The timers that have been constructed and not destroyed. -/
  alive : Finset TimerPtr := ∅
  /-- `RunLoop::timers`, of the `CurrentLoop` of a thread. -/
  loops : ThreadId → Option (List TimerPtr) := fun _ => none

namespace Threads

variable {T : Type u}

/-- No run loop and no timer yet. -/
def init [Zero T] (now : T) : Threads T := { clock := now, fire := fun _ => 0 }

/-- The timers that wait on a thread. -/
def deque (s : Threads T) (thread : ThreadId) : List TimerPtr := (s.loops thread).getD []

/-- What one thread has of it. -/
def view (s : Threads T) (thread : ThreadId) : State T where
  clock := s.clock
  fire := s.fire
  alive := s.alive
  timers := s.deque thread

/-- What the run loop of one thread has made of it. -/
def setView (s : Threads T) (thread : ThreadId) (v : State T) : Threads T where
  clock := v.clock
  fire := v.fire
  alive := v.alive
  loops := Function.update s.loops thread (some v.timers)

/-- What can happen next. -/
inductive Act (T : Type u)
  /-- Time passes. -/
  | tick (now : T)
  /-- `RunLoop()` -/
  | newLoop (thread : ThreadId)
  /-- `~RunLoop()` -/
  | deleteLoop (thread : ThreadId)
  /-- `Timer(del)` -/
  | construct (timer : TimerPtr)
  | set (thread : ThreadId) (timer : TimerPtr) (time : T)
  | cancel (thread : ThreadId) (timer : TimerPtr)
  | destroy (thread : ThreadId) (timer : TimerPtr)
  /-- The first timer of a loop is due; `run` takes it out and calls it. -/
  | process (thread : ThreadId)

section Step

variable [LinearOrder T] [Add T] [Zero T]

/-- One step.  Without a run loop `set` and `cancel` have a null pointer for it, the destructor
leaves it out. -/
def step (s : Threads T) : Act T → Option (Threads T)
  | .tick now => if s.clock ≤ now then some { s with clock := now } else none
  | .newLoop thread =>
      -- throws where there is one
      if s.loops thread = none then
        some { s with loops := Function.update s.loops thread (some []) }
      else none
  | .deleteLoop thread =>
      if s.loops thread = none then none
      else some { s with loops := Function.update s.loops thread none }
  | .construct timer =>
      if timer ∈ s.alive then none
      else some { s with alive := insert timer s.alive, fire := Function.update s.fire timer 0 }
  | .set thread timer time =>
      if timer ∈ s.alive ∧ s.loops thread ≠ none then
        some (s.setView thread ((s.view thread).set timer time))
      else none
  | .cancel thread timer =>
      if timer ∈ s.alive ∧ s.loops thread ≠ none then
        some (s.setView thread ((s.view thread).dequeue timer))
      else none
  | .destroy thread timer =>
      if timer ∈ s.alive then
        let s :=
          if s.loops thread = none then s
          else s.setView thread ((s.view thread).dequeue timer)
        some { s with alive := s.alive.erase timer }
      else none
  | .process thread =>
      (s.view thread).due.map fun _ =>
        s.setView thread { s.view thread with timers := (s.deque thread).tail }

/-- What the callers ask for in a step: a timer is to be called on the thread that has set it,
at the time it was set for, unless it is cancelled or destroyed, or the loop goes. -/
def asks (s : Threads T) (act : Act T) (wanted : TimerPtr → Option (ThreadId × T)) :
    TimerPtr → Option (ThreadId × T) :=
  match act with
  | .set thread timer time => Function.update wanted timer (some (thread, s.clock + time))
  | .cancel _ timer | .destroy _ timer => Function.update wanted timer none
  | .deleteLoop thread => fun timer => (wanted timer).filter fun w => w.1 ≠ thread
  | .process thread =>
      match (s.view thread).due with
      | some timer => Function.update wanted timer none
      | none => wanted
  | _ => wanted

/-- What the callers have asked for in a run. -/
def asked (tr : List (Threads T × Act T)) : TimerPtr → Option (ThreadId × T) :=
  tr.foldl (fun wanted p => p.1.asks p.2 wanted) fun _ => none

omit [Zero T] in
theorem asked_snoc (tr : List (Threads T × Act T)) (s : Threads T) (act : Act T) :
    asked (tr ++ [(s, act)]) = s.asks act (asked tr) := by
  simp [asked]

end Step

/-- The timer that an action sets, cancels or destroys, and the thread that does it. -/
def touches : Act T → Option (ThreadId × TimerPtr)
  | .set thread timer _ | .cancel thread timer | .destroy thread timer => some (thread, timer)
  | _ => none

/-- A timer that waits is set, cancelled or destroyed on the thread it waits on. -/
def AtHome (s : Threads T) (act : Act T) : Prop :=
  ∀ thread timer, touches act = some (thread, timer) →
    ∀ other, timer ∈ s.deque other → other = thread

/-- The step is the call of `onTimer` of this timer on this thread. -/
def Calls [LinearOrder T] (s : Threads T) (act : Act T) (thread : ThreadId) (timer : TimerPtr) :
    Prop :=
  act = .process thread ∧ (s.view thread).due = some timer

/-- The loops wait for the timers that are wanted, each on its thread, until its time. -/
def Waits (s : Threads T) (wanted : TimerPtr → Option (ThreadId × T)) : Prop :=
  ∀ timer thread due,
    wanted timer = some (thread, due) ↔ timer ∈ s.deque thread ∧ s.fire timer = due

/-- **The loops keep what they are asked for**, and each of them keeps its deque in order. -/
structure Kept [LinearOrder T] [Add T] (tr : List (Threads T × Act T)) (s : Threads T) : Prop where
  waits : s.Waits (asked tr)
  sorted : ∀ thread, (s.view thread).Sorted

/-! ## The deques of a state -/

variable {s s' : Threads T} {wanted : TimerPtr → Option (ThreadId × T)} {thread other : ThreadId}
  {timer : TimerPtr}

theorem deque_setView (s : Threads T) (thread other : ThreadId) (v : State T) :
    (s.setView thread v).deque other = if other = thread then v.timers else s.deque other := by
  unfold deque setView
  by_cases hother : other = thread
  · simp [hother]
  · simp [hother]

/-- No timer waits on two threads. -/
theorem Waits.thread_unique (h : s.Waits wanted) (hmem : timer ∈ s.deque thread)
    (hmem' : timer ∈ s.deque other) : other = thread := by
  have hone := (h timer thread _).mpr ⟨hmem, rfl⟩
  have hother := (h timer other _).mpr ⟨hmem', rfl⟩
  rw [hone, Option.some.injEq, Prod.mk.injEq] at hother
  exact hother.1.symm

/-- Nothing has been asked for, and no timer has moved. -/
theorem Waits.same (h : s.Waits wanted) (hdeque : ∀ other, s'.deque other = s.deque other)
    (hfire : ∀ other, ∀ x ∈ s.deque other, s'.fire x = s.fire x) : s'.Waits wanted := by
  intro x other due
  rw [h x other due, hdeque other]
  refine and_congr_right fun hx => ?_
  rw [hfire other x hx]

/-- A timer is taken out of all deques. -/
theorem Waits.removed (h : s.Waits wanted)
    (hmem : ∀ other x, x ∈ s'.deque other ↔ x ∈ s.deque other ∧ x ≠ timer)
    (hfire : s'.fire = s.fire) : s'.Waits (Function.update wanted timer none) := by
  intro x other due
  rw [hmem other x, hfire]
  by_cases hx : x = timer
  · simp [hx]
  · rw [Function.update_of_ne hx, h x other due]
    simp [hx]

/-- A deque whose timers keep their times stays in order. -/
theorem sorted_of_same [LinearOrder T] (h : (s.view other).Sorted)
    (hdeque : s'.deque other = s.deque other)
    (hfire : ∀ x ∈ s.deque other, s'.fire x = s.fire x)
    (halive : ∀ x ∈ s.deque other, x ∈ s'.alive) : (s'.view other).Sorted := by
  have htimers : (s'.view other).timers = s.deque other := hdeque
  refine ⟨htimers ▸ h.nodup, ?_, ?_⟩
  · rw [htimers]
    refine h.sorted.imp_of_mem fun ha hb hle => ?_
    change s'.fire _ ≤ s'.fire _
    rw [hfire _ ha, hfire _ hb]
    exact hle
  · rw [htimers]
    exact halive

/-- A deque that loses timers stays in order. -/
theorem sorted_of_sublist [LinearOrder T] (h : (s.view other).Sorted)
    (hdeque : (s'.deque other).Sublist (s.deque other)) (hfire : s'.fire = s.fire)
    (halive : ∀ x ∈ s'.deque other, x ∈ s.alive → x ∈ s'.alive) : (s'.view other).Sorted := by
  refine ⟨h.nodup.sublist hdeque, ?_, fun x hx => halive x hx (h.alive x (hdeque.subset hx))⟩
  change (s'.deque other).Pairwise fun a b => s'.fire a ≤ s'.fire b
  rw [hfire]
  exact h.sorted.sublist hdeque

/-! ## One step -/

section Keep

variable [LinearOrder T] [Add T] {tr : List (Threads T × Act T)}

omit [LinearOrder T] [Add T] in
/-- In a view no call of `run` goes on. -/
theorem not_callsTimer_view (s : Threads T) (thread : ThreadId) {v : State T} (timer : TimerPtr) :
    ¬ (s.view thread).CallsTimer v timer := by
  rintro ⟨outer, hcalls, -⟩
  cases hcalls

/-- What is left of a deque without this timer. -/
abbrev Without (s : Threads T) (thread : ThreadId) (timer : TimerPtr) : List TimerPtr :=
  (s.deque thread).filter (· ≠ timer)

omit [LinearOrder T] [Add T] in
theorem mem_without {x : TimerPtr} :
    x ∈ s.Without thread timer ↔ x ∈ s.deque thread ∧ x ≠ timer :=
  State.mem_dequeued (s := s.view thread)

/-- A timer that waits nowhere else goes out of the deque of a thread. -/
theorem Kept.removed (h : Kept tr s) (hhome : ∀ other, timer ∈ s.deque other → other = thread)
    (hown : s'.deque thread = s.Without thread timer)
    (hothers : ∀ other, other ≠ thread → s'.deque other = s.deque other)
    (hfire : s'.fire = s.fire) (halive : ∀ x ∈ s.alive, x ≠ timer → x ∈ s'.alive) :
    s'.Waits (Function.update (asked tr) timer none) ∧ ∀ other, (s'.view other).Sorted := by
  have hmem : ∀ other x, x ∈ s'.deque other ↔ x ∈ s.deque other ∧ x ≠ timer := by
    intro other x
    by_cases hother : other = thread
    · rw [hother, hown]
      exact mem_without
    · rw [hothers other hother]
      refine ⟨fun hx => ⟨hx, ?_⟩, And.left⟩
      rintro rfl
      exact hother (hhome other hx)
  refine ⟨h.waits.removed hmem hfire, fun other => ?_⟩
  refine sorted_of_sublist (h.sorted other) ?_ hfire
    fun x hx hlives => halive x hlives ((hmem other x).mp hx).2
  by_cases hother : other = thread
  · rw [hother, hown]
    exact List.filter_sublist
  · rw [hothers other hother]

/-- **`Timer::set`, on the thread where the timer waits** if it waits at all. -/
theorem Kept.set (h : Kept tr s) (hhome : ∀ other, timer ∈ s.deque other → other = thread)
    (hlives : timer ∈ s.alive) (time : T) :
    let s' := s.setView thread ((s.view thread).set timer time)
    s'.Waits (Function.update (asked tr) timer (some (thread, s.clock + time))) ∧
      ∀ other, (s'.view other).Sorted := by
  intro s'
  have hfire : s'.fire = Function.update s.fire timer (s.clock + time) := rfl
  have hothers : ∀ other, other ≠ thread → s'.deque other = s.deque other := by
    intro other hother
    rw [deque_setView, if_neg hother]
  have hfar : ∀ other, other ≠ thread → ∀ x ∈ s.deque other, s'.fire x = s.fire x := by
    intro other hother x hx
    rw [hfire, Function.update_of_ne]
    rintro rfl
    exact hother (hhome other hx)
  have htimers : s'.deque thread = insertAt (s.Without thread timer)
      (lowerBound (fun a => s'.fire a < s'.fire timer) (s.Without thread timer)) timer := by
    rw [deque_setView, if_pos rfl]
    rfl
  have hinsert : s'.deque thread = (s.Without thread timer).orderedInsert
      (fun a b => s'.fire a ≤ s'.fire b) timer :=
    State.timers_of_set (t := s'.view thread) (h.sorted thread) hfire htimers
  have hmem : ∀ other x, x ∈ s'.deque other ↔
      x = timer ∧ other = thread ∨ x ∈ s.deque other ∧ x ≠ timer := by
    intro other x
    by_cases hother : other = thread
    · subst hother
      rw [hinsert, List.mem_orderedInsert, mem_without]
      exact or_congr_left (and_iff_left rfl).symm
    · rw [hothers other hother]
      refine ⟨fun hx => Or.inr ⟨hx, ?_⟩, fun hx => (hx.resolve_left fun h => hother h.2).1⟩
      rintro rfl
      exact hother (hhome other hx)
  refine ⟨fun x other due => ?_, fun other => ?_⟩
  · rw [hmem other x, hfire]
    by_cases hx : x = timer
    · subst hx
      simp only [Function.update_self, Option.some.injEq, Prod.mk.injEq, true_and, ne_eq,
        not_true_eq_false, and_false, or_false]
      rw [eq_comm (a := thread)]
    · rw [Function.update_of_ne hx, Function.update_of_ne hx, h.waits x other due]
      simp [hx]
  · by_cases hother : other = thread
    · subst hother
      exact (h.sorted other).effect (t := s'.view other)
        (.set timer _ hfire htimers hlives (not_callsTimer_view s other) rfl rfl)
    · exact sorted_of_same (h.sorted other) (hothers other hother) (hfar other hother)
        (h.sorted other).alive

omit [Add T] in
/-- The timer that is due is the first one of the deque. -/
theorem deque_of_due (h : (s.view thread).due = some timer) :
    s.deque thread = timer :: (s.deque thread).tail ∧ s.fire timer ≤ s.clock := by
  obtain ⟨hhead, hdue⟩ := Option.filter_eq_some_iff.mp h
  exact ⟨List.eq_cons_of_mem_head? hhead, of_decide_eq_true hdue⟩

theorem asks_process (hdue : (s.view thread).due = some timer) :
    s.asks (.process thread) wanted = Function.update wanted timer none := by
  simp [asks, hdue]

/-- The first timer is taken out, and is wanted no more. -/
theorem Kept.process (h : Kept tr s) (hdue : (s.view thread).due = some timer) :
    let s' := s.setView thread { s.view thread with timers := (s.deque thread).tail }
    s'.Waits (Function.update (asked tr) timer none) ∧ ∀ other, (s'.view other).Sorted := by
  obtain ⟨hdeque, -⟩ := deque_of_due hdue
  have hfirst : timer ∈ s.deque thread := by
    rw [hdeque]
    exact List.mem_cons_self
  have hnotin : timer ∉ (s.deque thread).tail := by
    have hnodup : (s.deque thread).Nodup := (h.sorted thread).nodup
    rw [hdeque] at hnodup
    exact (List.nodup_cons.mp hnodup).1
  refine h.removed (fun other hother => h.waits.thread_unique hfirst hother) ?_ ?_ rfl
    fun x hx _ => hx
  · rw [deque_setView, if_pos rfl]
    unfold Without
    rw [hdeque, List.filter_cons_of_neg (by simp)]
    refine (List.filter_eq_self.mpr fun x hx => ?_).symm
    simp only [ne_eq, decide_not, Bool.not_eq_eq_eq_not, Bool.not_true, decide_eq_false_iff_not]
    rintro rfl
    exact hnotin hx
  · intro other hother
    rw [deque_setView, if_neg hother]

/-- With a run loop the timers go that wait on its thread. -/
theorem Kept.deleteLoop (h : Kept tr s) (thread : ThreadId) :
    let s' : Threads T := { s with loops := Function.update s.loops thread none }
    s'.Waits (s.asks (.deleteLoop thread) (asked tr)) ∧ ∀ other, (s'.view other).Sorted := by
  intro s'
  have hgone : s'.deque thread = [] := by simp [s', deque]
  have hothers : ∀ other, other ≠ thread → s'.deque other = s.deque other := by
    intro other hother
    simp [s', deque, hother]
  refine ⟨fun x other due => ?_, fun other => ?_⟩
  · simp only [asks, Option.filter_eq_some_iff, decide_eq_true_eq]
    rw [h.waits x other due]
    by_cases hother : other = thread
    · simp [hother, hgone]
    · simp [hother, hothers other hother, s']
  · refine sorted_of_sublist (h.sorted other) ?_ rfl fun _ _ hlives => hlives
    by_cases hother : other = thread
    · rw [hother, hgone]
      exact List.nil_sublist _
    · rw [hothers other hother]

variable [Zero T] {act : Act T} {due : T}

omit [LinearOrder T] [Add T] [Zero T] in
/-- Without a run loop nothing waits. -/
theorem deque_of_no_loop (h : s.loops thread = none) : s.deque thread = [] := by
  unfold deque
  rw [h]
  rfl

/-- **One step** of which every timer is at home keeps what the loops are asked for. -/
theorem Kept.step (h : Kept tr s) (hstep : s.step act = some s') (hhome : s.AtHome act) :
    Kept (tr ++ [(s, act)]) s' := by
  suffices hnext : s'.Waits (s.asks act (asked tr)) ∧ ∀ other, (s'.view other).Sorted by
    rw [← asked_snoc] at hnext
    exact ⟨hnext.1, hnext.2⟩
  cases act with
  | tick now =>
      simp only [Threads.step] at hstep
      split_ifs at hstep
      obtain rfl := Option.some.inj hstep
      exact ⟨h.waits.same (fun _ => rfl) fun _ _ _ => rfl, fun other =>
        sorted_of_same (h.sorted other) rfl (fun _ _ => rfl) (h.sorted other).alive⟩
  | newLoop thread =>
      simp only [Threads.step] at hstep
      split_ifs at hstep with hnone
      obtain rfl := Option.some.inj hstep
      have hdeque : ∀ other, Threads.deque
          { s with loops := Function.update s.loops thread (some []) } other = s.deque other := by
        intro other
        by_cases hother : other = thread
        · rw [hother, deque_of_no_loop hnone]
          simp [deque]
        · simp [deque, hother]
      exact ⟨h.waits.same hdeque fun _ _ _ => rfl, fun other =>
        sorted_of_same (h.sorted other) (hdeque other) (fun _ _ => rfl) (h.sorted other).alive⟩
  | deleteLoop thread =>
      simp only [Threads.step] at hstep
      split_ifs at hstep with hnone
      obtain rfl := Option.some.inj hstep
      exact h.deleteLoop thread
  | construct timer =>
      simp only [Threads.step] at hstep
      split_ifs at hstep with hlives
      obtain rfl := Option.some.inj hstep
      -- nothing waits at the address of a timer that is not there
      have hfire : ∀ other, ∀ x ∈ s.deque other, Function.update s.fire timer 0 x = s.fire x := by
        intro other x hx
        refine Function.update_of_ne ?_ _ _
        rintro rfl
        exact hlives ((h.sorted other).alive _ hx)
      exact ⟨h.waits.same (fun _ => rfl) hfire, fun other =>
        sorted_of_same (h.sorted other) rfl (hfire other) fun x hx =>
          Finset.mem_insert_of_mem ((h.sorted other).alive x hx)⟩
  | set thread timer time =>
      simp only [Threads.step] at hstep
      split_ifs at hstep with hok
      obtain rfl := Option.some.inj hstep
      exact h.set (hhome thread timer rfl) hok.1 time
  | cancel thread timer =>
      simp only [Threads.step] at hstep
      split_ifs at hstep with hok
      obtain rfl := Option.some.inj hstep
      refine h.removed (hhome thread timer rfl) ?_ ?_ rfl fun x hx _ => hx
      · rw [deque_setView, if_pos rfl]
        rfl
      · intro other hother
        rw [deque_setView, if_neg hother]
  | destroy thread timer =>
      simp only [Threads.step] at hstep
      split_ifs at hstep with hlives hnone
      · obtain rfl := Option.some.inj hstep
        refine h.removed (hhome thread timer rfl) ?_ (fun _ _ => rfl) rfl
          fun x hx hne => Finset.mem_erase.mpr ⟨hne, hx⟩
        have hnothing := deque_of_no_loop hnone
        unfold Without
        rw [hnothing]
        exact hnothing
      · obtain rfl := Option.some.inj hstep
        refine h.removed (hhome thread timer rfl) ?_ ?_ rfl
          fun x hx hne => Finset.mem_erase.mpr ⟨hne, hx⟩
        · exact (deque_setView _ _ _ _).trans (if_pos rfl)
        · exact fun other hother => (deque_setView _ _ _ _).trans (if_neg hother)
  | process thread =>
      obtain ⟨timer, hdue, rfl⟩ := Option.map_eq_some_iff.mp hstep
      rw [asks_process hdue]
      exact h.process hdue

/-- What a thread does to a timer leaves the deques of the other threads alone. -/
theorem deque_of_touches (hstep : s.step act = some s')
    (htouch : touches act = some (thread, timer)) (hother : other ≠ thread) :
    s'.deque other = s.deque other := by
  cases act with
  | set thread' timer' time | cancel thread' timer' =>
      obtain ⟨rfl, rfl⟩ := Prod.mk.inj (Option.some.inj htouch)
      simp only [Threads.step] at hstep
      split_ifs at hstep
      obtain rfl := Option.some.inj hstep
      rw [deque_setView, if_neg hother]
  | destroy thread' timer' =>
      obtain ⟨rfl, rfl⟩ := Prod.mk.inj (Option.some.inj htouch)
      simp only [Threads.step] at hstep
      split_ifs at hstep with hlives hnone
      · obtain rfl := Option.some.inj hstep
        rfl
      · obtain rfl := Option.some.inj hstep
        exact (deque_setView _ _ _ _).trans (if_neg hother)
  | tick _ | newLoop _ | deleteLoop _ | construct _ | process _ => cases htouch

omit [Zero T] in
/-- A timer that a thread sets, cancels or destroys is wanted there or nowhere. -/
theorem asks_of_touches (htouch : touches act = some (thread, timer))
    (hwanted : s.asks act wanted timer = some (other, due)) : other = thread := by
  cases act with
  | set thread' timer' time =>
      obtain ⟨rfl, rfl⟩ := Prod.mk.inj (Option.some.inj htouch)
      rw [asks, Function.update_self] at hwanted
      exact (Prod.mk.inj (Option.some.inj hwanted)).1.symm
  | cancel thread' timer' | destroy thread' timer' =>
      obtain ⟨rfl, rfl⟩ := Prod.mk.inj (Option.some.inj htouch)
      rw [asks, Function.update_self] at hwanted
      cases hwanted
  | tick _ | newLoop _ | deleteLoop _ | construct _ | process _ => cases htouch

/-- A timer that is touched away from home waits afterwards where nobody wants it. -/
theorem not_waits_of_away (hstep : s.step act = some s') (haway : ¬ s.AtHome act) :
    ¬ s'.Waits (s.asks act wanted) := by
  intro hwaits
  refine haway fun thread timer htouch other hmem => ?_
  by_contra hother
  rw [← deque_of_touches hstep htouch hother] at hmem
  exact hother (asks_of_touches htouch ((hwaits timer other _).mpr ⟨hmem, rfl⟩))

/-! ## Whole runs -/

theorem kept_init (now : T) : Kept [] (init now) := by
  refine ⟨fun timer thread due => ?_, fun thread => State.sorted_init now⟩
  simp [asked, init, deque]

omit [Zero T] in
/-- A call of `onTimer`, where the loops have kept what they are asked for: the timer lives, it
was to be called on this thread, its time has come, and none was to be called there before. -/
theorem Kept.calls (h : Kept tr s) (hcalls : s.Calls act thread timer) :
    timer ∈ s.alive ∧ ∃ due, asked tr timer = some (thread, due) ∧ due ≤ s.clock ∧
      ∀ x due', asked tr x = some (thread, due') → due ≤ due' := by
  obtain ⟨hdeque, hdue⟩ := deque_of_due hcalls.2
  have hfirst : timer ∈ s.deque thread := by
    rw [hdeque]
    exact List.mem_cons_self
  refine ⟨(h.sorted thread).alive _ hfirst, _, (h.waits _ _ _).mpr ⟨hfirst, rfl⟩, hdue, ?_⟩
  intro x due' hx
  obtain ⟨hmem, rfl⟩ := (h.waits _ _ _).mp hx
  exact (h.sorted thread).first_le hdeque x hmem

/-- Runs of the threads. -/
abbrev Runs (s : Threads T) : List (Threads T × Act T) → Threads T → Prop :=
  Run (Fires step) s

/-- **When the run loops of all threads keep what they are asked for.**  In every run of any
number of threads, in whatever order they set, cancel and destroy timers, each loop waits for
exactly the timers that are wanted on its thread, in the order of their fire times and all of
them alive, if and only if no timer that waits is set, cancelled or destroyed on another thread
than the one it waits on.  And then a call of `onTimer` is always of a timer that lives and is
wanted on this thread, whose time has come, and that no other one there is to be called
before. -/
theorem kept_iff {now : T} (hrun : Runs (init now) tr s) :
    ((∀ pre x, pre <+: tr → Runs (init now) pre x → Kept pre x) ↔
      ∀ p ∈ tr, p.1.AtHome p.2) ∧
    ((∀ p ∈ tr, p.1.AtHome p.2) → ∀ pre p post, tr = pre ++ p :: post →
      ∀ thread timer, p.1.Calls p.2 thread timer →
        timer ∈ p.1.alive ∧ ∃ due, asked pre timer = some (thread, due) ∧ due ≤ p.1.clock ∧
          ∀ x due', asked pre x = some (thread, due') → due ≤ due') := by
  have hiff : (∀ pre x, pre <+: tr → Runs (init now) pre x → Kept pre x) ↔
      ∀ p ∈ tr, p.1.AtHome p.2 := by
    apply hrun.prefixes_iff_good (I := Kept)
    · exact fun pre x act y _ hkept hstep hhome => hkept.step hstep hhome
    · intro pre x act y _ _ hstep haway hkept
      have hwaits := hkept.waits
      rw [asked_snoc] at hwaits
      exact not_waits_of_away hstep haway hwaits
    · exact fun _ _ hkept => hkept
    · exact kept_init now
  refine ⟨hiff, ?_⟩
  rintro hhome pre p post rfl thread timer hcalls
  obtain ⟨x, hpre, hpost⟩ := hrun.split
  obtain ⟨rfl, -⟩ := Run.cons_iff.mp hpost
  exact (hiff.mpr hhome pre p.1 (List.prefix_append _ _) hpre).calls hcalls

end Keep

/-- Two threads with a loop each.  A timer that waits on the first one is set on the second. -/
def moved : List (Act ℕ) :=
  [.newLoop 0, .newLoop 1, .construct 7, .set 0 7 5, .set 1 7 9, .tick 9, .process 0]

/-- It has been called on the first thread, and it waits on the second one to be called again. -/
theorem kept_iff_example : ∃ s : Threads ℕ, exec step (init 0) moved = some s ∧
    s.deque 1 = [7] ∧ asked (trace step (init 0) moved) 7 = none ∧
    ¬ ∀ p ∈ trace step (init 0) moved, p.1.AtHome p.2 := by
  have hexec : (exec step (init 0) moved).map (fun s => s.deque 1) = some [7] := by decide
  obtain ⟨s, hs, hdeque⟩ := Option.map_eq_some_iff.mp hexec
  have hnone : asked (trace step (init 0) moved) 7 = none := by decide
  have hrun := (exec_trace step (init 0) moved s hs).1
  refine ⟨s, hs, hdeque, hnone, fun hhome => ?_⟩
  have hkept := (kept_iff hrun).1.mpr hhome _ s List.prefix_rfl hrun
  have hwanted := (hkept.waits 7 1 _).mpr ⟨by rw [hdeque]; decide, rfl⟩
  rw [hnone] at hwanted
  cases hwanted

end Threads

end Timers

end Craplib
