import Craplib.Threads.CondLock

/-!
# A condition on which one thread waits

In this library a condition mostly stands between one thread that waits on it, thread 0, and
others that come by to change the flag.  Such a `CondVar` is known by its flag, its holder and
where the threads are (`oneWaiter`); where there is only one other thread, by its flag and the
two positions (`pair`).  The lemmas say which steps lead from one to the next, and
`not_overslept_of_waiter` that the thread never oversleeps.
-/

namespace Craplib

namespace Condition

open Machine

namespace Position

/-- In `Threads::wait`. -/
def waits : Position → Bool
  | .waiting _ => true
  | _ => false

/-- The position after a signal. -/
def signalled : Position → Position
  | .waiting ctor => .locking ctor false
  | position => position

theorem signalled_eq_inside (position : Position) :
    position.signalled = .inside ↔ position = .inside := by
  cases position <;> simp [signalled]

/-- Whom a signal wakes, when this is the position of thread 0. -/
def woken (position : Position) : Option ThreadId := if position.waits then some 0 else none

end Position

namespace CondVar

/-- There is a run with these actions. -/
def Leads (s : CondVar) (acts : List Action) (s' : CondVar) : Prop :=
  ∃ tr, Runs s tr s' ∧ actions tr = acts

theorem Leads.refl (s : CondVar) : s.Leads [] s := ⟨[], .nil, rfl⟩

theorem Leads.of_eq {s s' : CondVar} (h : s' = s) : s.Leads [] s' := h ▸ .refl s

theorem Leads.single {s s' : CondVar} {act : Action} (h : s.step act = some s') :
    s.Leads [act] s' := ⟨[(s, act)], Run.single h, rfl⟩

theorem Leads.append {s s' s'' : CondVar} {acts acts' : List Action}
    (h : s.Leads acts s') (h' : s'.Leads acts' s'') : s.Leads (acts ++ acts') s'' := by
  obtain ⟨tr, hrun, rfl⟩ := h
  obtain ⟨tr', hrun', rfl⟩ := h'
  exact ⟨tr ++ tr', hrun.append hrun', actions_append tr tr'⟩

/-- A system whose steps are, seen through `abs`, what the threads do with a condition. -/
theorem leads_of_run {σ α : Type} {next : σ → α → σ → Prop} {I : σ → Prop} {abs : σ → CondVar}
    {label : σ → α → List Action} (keep : ∀ s a t, I s → next s a t → I t)
    (sim : ∀ s a t, I s → next s a t → (abs s).Leads (label s a) (abs t)) {s t : σ}
    {tr : List (σ × α)} (hrun : Run next s tr t) (hs : I s) :
    (abs s).Leads (tr.flatMap fun p => label p.1 p.2) (abs t) :=
  hrun.refine_many keep sim hs

/-- The condition that thread 0, at `a`, waits on, and the others, thread `t + 1` at `f t`, do
not. -/
def oneWaiter (d : Bool) (holder : Option ThreadId) (a : Position) (f : ℕ → Position) :
    CondVar where
  d := d
  holder := holder
  waiters := if a.waits then [0] else []
  position
    | 0 => a
    | t + 1 => f t

variable {a b : Position} {f : ℕ → Position} {d val : Bool} {ctor : Ctor}
  {holder : Option ThreadId} {t : ℕ}

theorem eq_oneWaiter {s : CondVar} (hd : s.d = d) (hholder : s.holder = holder)
    (hwaiters : s.waiters = if a.waits then [0] else []) (hzero : s.position 0 = a)
    (hsucc : ∀ t, s.position (t + 1) = f t) : s = oneWaiter d holder a f := by
  obtain ⟨d', holder', waiters', position'⟩ := s
  subst hd hholder hwaiters
  unfold oneWaiter
  simp only [mk.injEq, true_and]
  funext t
  cases t with
  | zero => exact hzero
  | succ t => exact hsucc t

theorem init_eq_oneWaiter (d : Bool) : init d = oneWaiter d none .out fun _ => .out :=
  eq_oneWaiter rfl rfl rfl rfl fun _ => rfl

/-! ## Steps of the thread that waits -/

theorem oneWaiter_begin : (oneWaiter d holder .out f).step (.begin 0 ctor) =
    some (oneWaiter d holder (.locking ctor false) f) :=
  congrArg some (eq_oneWaiter rfl rfl rfl (by simp) (by simp [oneWaiter]))

/-- It gets in. -/
theorem oneWaiter_lock_in {timeReached : Bool}
    (hpasses : timeReached = true ∨ ∀ val ∈ ctor.val, d = val) :
    (oneWaiter d none (.locking ctor timeReached) f).step (.lock 0) =
      some (oneWaiter d (some 0) .inside f) :=
  (lock_in (s := oneWaiter d none (.locking ctor timeReached) f) rfl rfl hpasses).trans
    (congrArg some (eq_oneWaiter rfl rfl rfl (by simp) (by simp [oneWaiter])))

/-- It goes to sleep. -/
theorem oneWaiter_lock_sleep (hd : ctor.val = some (!d)) :
    (oneWaiter d none (.locking ctor false) f).step (.lock 0) =
      some (oneWaiter d none (.waiting ctor) f) := by
  have hfails : ¬ (oneWaiter d none (.locking ctor false) f).Passes ctor false := by
    rintro (htime | hval)
    · cases htime
    · have hflag : d = !d := hval (!d) hd
      cases d <;> cases hflag
  exact (lock_sleep rfl rfl hfails).trans
    (congrArg some (eq_oneWaiter rfl rfl rfl (by simp) (by simp [oneWaiter])))

theorem oneWaiter_set : (oneWaiter d holder .inside f).step (.set 0 val none) =
    some (oneWaiter val holder .inside f) := rfl

theorem oneWaiter_leave : (oneWaiter d holder .inside f).step (.leave 0) =
    some (oneWaiter d none .out f) :=
  congrArg some (eq_oneWaiter rfl rfl rfl (by simp) (by simp [oneWaiter]))

theorem oneWaiter_wakeUp (timeReached : Bool) :
    (oneWaiter d holder (.waiting ctor) f).wakeUp 0 timeReached =
      some (oneWaiter d holder (.locking ctor timeReached) f) :=
  congrArg some (eq_oneWaiter rfl rfl rfl (by simp) (by simp [oneWaiter]))

theorem oneWaiter_wake {timeReached : Bool} (htime : timeReached = true → ctor.timed = true) :
    (oneWaiter d holder (.waiting ctor) f).step (.wake 0 timeReached) =
      some (oneWaiter d holder (.locking ctor timeReached) f) := by
  have hthen : (oneWaiter d holder (.waiting ctor) f).step (.wake 0 timeReached) =
      if timeReached && !ctor.timed then none
      else (oneWaiter d holder (.waiting ctor) f).wakeUp 0 timeReached := rfl
  rw [hthen, if_neg (by simpa using htime), oneWaiter_wakeUp]

/-! ## Steps of another thread -/

/-- It takes the lock. -/
def locks (t : ℕ) : List Action := [.begin (t + 1) .plain, .lock (t + 1)]

theorem oneWaiter_locks (hout : f t = .out) : (oneWaiter d none a f).Leads (locks t)
    (oneWaiter d (some (t + 1)) a (Function.update f t .inside)) := by
  have hbegin : (oneWaiter d none a f).step (.begin (t + 1) .plain) =
      some ((oneWaiter d none a f).setPosition (t + 1) (.locking .plain false)) := by
    have hthen : (oneWaiter d none a f).position (t + 1) = .out := hout
    simp only [step, hthen]
  have hlock := lock_in (s := (oneWaiter d none a f).setPosition (t + 1) (.locking .plain false))
    (t := t + 1) (position_setPosition .. |>.trans (if_pos rfl)) rfl (Or.inr (by simp [Ctor.val]))
  refine .append (.single hbegin) (.single (hlock.trans (congrArg some ?_)))
  refine eq_oneWaiter rfl rfl rfl (by simp [oneWaiter]) fun u => ?_
  by_cases hu : u = t <;> simp [oneWaiter, hu]

/-- It changes the flag, and signals. -/
theorem oneWaiter_set_succ (hin : f t = .inside) :
    (oneWaiter d holder a f).step (.set (t + 1) val a.woken) =
      some (oneWaiter val holder a.signalled f) := by
  have hthen : (oneWaiter d holder a f).position (t + 1) = .inside := hin
  simp only [step, hthen]
  cases a with
  | waiting ctor => exact oneWaiter_wakeUp false
  | out | locking | inside => rfl

theorem oneWaiter_leave_succ (hin : f t = .inside) :
    (oneWaiter d holder a f).step (.leave (t + 1)) =
      some (oneWaiter d none a (Function.update f t .out)) := by
  have hthen : (oneWaiter d holder a f).position (t + 1) = .inside := hin
  simp only [step, hthen]
  refine congrArg some (eq_oneWaiter rfl rfl rfl (by simp [oneWaiter]) fun u => ?_)
  simp [oneWaiter, Function.update_apply]

/-! ## Two threads -/

/-- The position of thread 1, when there is no other one besides thread 0. -/
def second (b : Position) : ℕ → Position
  | 0 => b
  | _ => .out

@[simp] theorem update_second (b b' : Position) :
    Function.update (second b) 0 b' = second b' := by
  funext t
  cases t <;> rfl

/-- The condition between two threads with these positions. -/
def pair (d : Bool) (a b : Position) : CondVar :=
  oneWaiter d (if a = .inside then some 0 else if b = .inside then some 1 else none) a (second b)

theorem init_eq_pair (d : Bool) : init d = pair d .out .out :=
  eq_oneWaiter rfl rfl rfl rfl fun t => by cases t <;> rfl

theorem pair_begin : (pair d .out b).step (.begin 0 ctor) =
    some (pair d (.locking ctor false) b) := by
  unfold pair
  simp only [reduceCtorEq, if_false]
  exact oneWaiter_begin

theorem pair_lock_in (hb : b ≠ .inside) : (pair d (.locking (.wait d) false) b).step (.lock 0) =
    some (pair d .inside b) := by
  unfold pair
  simp only [reduceCtorEq, if_false, if_neg hb, if_true]
  exact oneWaiter_lock_in (Or.inr fun val hval => Option.some.inj hval)

theorem pair_lock_sleep (hb : b ≠ .inside) :
    (pair d (.locking (.wait (!d)) false) b).step (.lock 0) =
      some (pair d (.waiting (.wait (!d))) b) := by
  unfold pair
  simp only [reduceCtorEq, if_false, if_neg hb]
  exact oneWaiter_lock_sleep rfl

theorem pair_set : (pair d .inside b).step (.set 0 val none) = some (pair val .inside b) := rfl

theorem pair_leave (hb : b ≠ .inside) :
    (pair d .inside b).step (.leave 0) = some (pair d .out b) := by
  unfold pair
  simp only [reduceCtorEq, if_false, if_neg hb, if_true]
  exact oneWaiter_leave

theorem pair_wake : (pair d (.waiting ctor) b).step (.wake 0 false) =
    some (pair d (.locking ctor false) b) := by
  unfold pair
  simp only [reduceCtorEq, if_false]
  exact oneWaiter_wake fun htime => by cases htime

/-- The other thread takes the lock, and changes the flag. -/
def visits (a : Position) (val : Bool) : List Action := locks 0 ++ [.set 1 val a.woken]

theorem pair_visits (ha : a ≠ .inside) :
    (pair d a .out).Leads (visits a val) (pair val a.signalled .inside) := by
  have ha' : a.signalled ≠ .inside := mt (Position.signalled_eq_inside a).mp ha
  unfold pair
  simp only [reduceCtorEq, if_false, if_neg ha, if_neg ha', if_true]
  refine .append (oneWaiter_locks rfl) (.single ?_)
  rw [update_second]
  exact oneWaiter_set_succ rfl

theorem pair_leaves (ha : a ≠ .inside) :
    (pair d a .inside).step (.leave 1) = some (pair d a .out) := by
  unfold pair
  simp only [reduceCtorEq, if_false, if_neg ha, if_true]
  rw [← update_second .inside .out]
  exact oneWaiter_leave_succ rfl

/-! ## Only one thread waits -/

/-- Only this thread uses a constructor that may wait. -/
def Waiter (t : ThreadId) (act : Action) : Prop :=
  ∀ u ctor, act = .begin u ctor → ctor.val ≠ none → u = t

/-- A thread that comes by to change the flag does not wait for a value. -/
theorem waiter_visits (t : ThreadId) (a : Position) (val : Bool) :
    ∀ act ∈ visits a val, Waiter t act := by
  rintro act hact u ctor rfl hval
  simp only [visits, locks, List.mem_append, List.mem_cons, List.not_mem_nil, or_false,
    Action.begin.injEq, reduceCtorEq] at hact
  rw [hact.2] at hval
  exact absurd rfl hval

/-- Only this thread may come to wait, or waits. -/
structure OnlyWaiter (t : ThreadId) (s : CondVar) : Prop where
  locking : ∀ u ctor timeReached, s.position u = .locking ctor timeReached → ctor.val ≠ none →
    u = t
  waiting : ∀ u ctor, s.position u = .waiting ctor → ctor.val ≠ none ∧ u = t

theorem onlyWaiter_init (t : ThreadId) : (init d).OnlyWaiter t :=
  ⟨by simp [init], by simp [init]⟩

/-- A thread goes to a position where it does not wait. -/
theorem OnlyWaiter.setPosition {s : CondVar} {t u : ThreadId} {position : Position}
    (h : s.OnlyWaiter t) (hlocking : ∀ ctor timeReached, position = .locking ctor timeReached →
      ctor.val ≠ none → u = t) (hwaits : ∀ ctor, position = .waiting ctor →
      ctor.val ≠ none ∧ u = t) : (s.setPosition u position).OnlyWaiter t := by
  refine ⟨fun v ctor timeReached hv hval => ?_, fun v ctor hv => ?_⟩
  · rw [position_setPosition] at hv
    split_ifs at hv with heq
    · exact heq.trans (hlocking ctor timeReached hv hval)
    · exact h.locking v ctor timeReached hv hval
  · rw [position_setPosition] at hv
    split_ifs at hv with heq
    · exact heq ▸ hwaits ctor hv
    · exact h.waiting v ctor hv

theorem OnlyWaiter.wakeUp {s s' : CondVar} {t u : ThreadId} {timeReached : Bool}
    (h : s.OnlyWaiter t) (hwake : s.wakeUp u timeReached = some s') : s'.OnlyWaiter t := by
  obtain ⟨ctor, hwaiting, rfl⟩ := wakeUp_spec hwake
  exact OnlyWaiter.setPosition ⟨h.locking, h.waiting⟩
    (fun _ _ _ _ => (h.waiting u ctor hwaiting).2) (by simp)

theorem OnlyWaiter.step {s s' : CondVar} {t : ThreadId} {act : Action} (h : s.OnlyWaiter t)
    (hact : Waiter t act) (hstep : s.step act = some s') : s'.OnlyWaiter t := by
  cases act with
  | begin u ctor =>
      obtain ⟨-, rfl⟩ := begin_spec hstep
      refine h.setPosition (fun ctor' timeReached heq hval => ?_) (by simp)
      obtain ⟨rfl, -⟩ := Position.locking.inj heq
      exact hact u ctor rfl hval
  | lock u =>
      obtain ⟨ctor, timeReached, hlocking, -, ⟨-, rfl⟩ | ⟨hfails, rfl⟩⟩ := lock_spec hstep
      · exact OnlyWaiter.setPosition ⟨h.locking, h.waiting⟩ (by simp) (by simp)
      · refine OnlyWaiter.setPosition ⟨h.locking, h.waiting⟩ (by simp) fun ctor' heq => ?_
        -- without a value to wait for the test does not fail
        have hval : ctor.val ≠ none := fun hnone => hfails (Or.inr (by simp [hnone]))
        obtain rfl := Position.waiting.inj heq
        exact ⟨hval, h.locking u ctor timeReached hlocking hval⟩
  | set u val woken =>
      obtain ⟨-, ⟨-, -, rfl⟩ | ⟨v, -, hwake⟩⟩ := set_spec hstep
      · exact ⟨h.locking, h.waiting⟩
      · exact OnlyWaiter.wakeUp (by exact ⟨h.locking, h.waiting⟩) hwake
  | leave u =>
      obtain ⟨-, rfl⟩ := leave_spec hstep
      exact OnlyWaiter.setPosition ⟨h.locking, h.waiting⟩ (by simp) (by simp)
  | wake u timeReached => exact h.wakeUp (wake_spec hstep)

/-- **A thread that is the only one to wait never oversleeps.** -/
theorem not_overslept_of_waiter {tr : List (CondVar × Action)} {last : CondVar} (t : ThreadId)
    (hrun : Runs (init d) tr last) (hwaiter : ∀ act ∈ actions tr, Waiter t act) :
    ∀ x ∈ visited tr last, ¬ x.Overslept := by
  have honly : ∀ x ∈ visited tr last, x.OnlyWaiter t :=
    hrun.invariant_steps (fun _ act _ h hstep (hact : Waiter t act) => h.step hact hstep)
      (onlyWaiter_init t) fun p hp => hwaiter p.2 (List.mem_map_of_mem hp)
  refine (overslept_iff hrun).mpr fun p hp => ?_
  obtain ⟨pre, post, y, -, hpre, hstep, -⟩ := hrun.of_mem hp
  have hs := consistent_of_run hpre
  have hmine := honly p.1 (mem_visited.mpr (Or.inl ⟨p, hp, rfl⟩))
  have hsub : p.1.waiters ⊆ [t] := by
    intro u hu
    obtain ⟨ctor, hwaiting⟩ := (hs.waiters u).mp hu
    exact List.mem_singleton.mpr (hmine.waiting u ctor hwaiting).2
  exact wakesAll_of_one hs (hs.nodup.length_le_of_subset hsub) hstep

end CondVar

end Condition

end Craplib
