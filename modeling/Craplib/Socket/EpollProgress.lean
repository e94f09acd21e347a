import Craplib.Socket.EpollDispatch

/-!
# The epoll dispatch ends

From the moment a batch has been handed over (`c.call()`) the loop thread takes a bounded
number of steps of `onCall`, whatever the callbacks do, and until `onCall` has returned
there is a next one: `dispatchEnds`.  The bound is `stepsLeft`: two steps for every address
in the deques, and one for the condition of every loop.

The one way for a dispatch not to end so is the end of the worker itself, in a callback
that destroys the last socket.
-/

namespace Craplib

namespace Epoll

open Machine

namespace State

/-! ## Runs within one dispatch -/

/-- The message of the worker is with the run loop: a batch is being dispatched. -/
def pending (s : State) : Bool := s.sta.any (·.called)

/-- A run of the two threads within one dispatch: the message of the worker is with the
run loop in every state but perhaps the last. -/
def Dispatch (s : State) (tr : List (State × Action)) (t : State) : Prop :=
  Runs s tr t ∧ ∀ p ∈ tr, p.1.pending = true

/-- The steps that the run loop takes to dispatch a batch. -/
def ofDispatch : Action → Bool
  | .dispatch => true
  | .turn => true
  | .ret => true
  | _ => false

/-- The dispatch of the batch ends: it takes a bounded number of steps, and until it is
over there is a next one. -/
def DispatchEnds (s : State) (batch : Batch) : Prop :=
  ∀ s', s.collect batch = some s' → ∃ bound, ∀ tr t, Dispatch s' tr t →
    tr.countP (ofDispatch ·.2) ≤ bound ∧
      (t.pending = true → ∃ act u, ofDispatch act = true ∧ t.step act = some u)

variable {s t : State} {w : SocketWorker}

theorem pending_some (h : s.sta = some w) : s.pending = w.called := by
  rw [pending, h]
  rfl

/-- A turn of `onCall`, as its loop and deque say. -/
theorem turn_eq {n : ℕ} {loop : Callback} (hcontrol : s.control = .draining n loop)
    (hw : s.sta = some w) (hserial : w.serial = n) :
    s.turn = match w.deque loop with
      | cur :: _ =>
          if cur ∈ w.clients then
            some { s with sta := some (w.popFront loop), control := .calling n loop cur }
          else
            some { s with sta := some ((w.popFront loop).afterCall loop cur) }
      | [] =>
          match loop.next with
          | some loop' => some { s with control := .draining n loop' }
          | none => some { s with sta := some { w with called := false }, control := .idle } := by
  have hworker : s.worker? n = some w := worker?_eq_some.mpr ⟨hw, hserial⟩
  unfold turn
  rw [hcontrol]
  exact congrArg (fun o => Option.bind o _) hworker

theorem ret_eq {n : ℕ} {loop : Callback} {cur : SocketPtr}
    (hcontrol : s.control = .calling n loop cur) (hw : s.sta = some w) (hserial : w.serial = n) :
    s.ret = some { s with sta := some (w.afterCall loop cur), control := .draining n loop } := by
  have hworker : s.worker? n = some w := worker?_eq_some.mpr ⟨hw, hserial⟩
  unfold ret
  rw [hcontrol]
  exact congrArg (fun o => Option.bind o _) hworker

theorem Dispatch.cons {tr : List (State × Action)} {u : State} {act : Action}
    (hpending : s.pending = true) (hstep : s.step act = some t) (h : Dispatch t tr u) :
    Dispatch s ((s, act) :: tr) u :=
  ⟨Run.cons_iff.mpr ⟨rfl, t, hstep, h.1⟩, List.forall_mem_cons.mpr ⟨hpending, h.2⟩⟩

/-! ## What the program does in a callback leaves the worker alone -/

/-- As long as there is a worker, a constructor only registers the new socket with it. -/
theorem construct_worker {a : SocketPtr} {registers : Option Bool} (hok : s.Ok)
    (hw : s.sta = some w) (h : s.construct a registers = some t) :
    t.sta = some w ∨ ∃ added, t.sta = some (w.registerSocket a added) := by
  have hmore : ¬ s.refCounter + 1 = 1 := by
    intro hone
    have hnone := hok.shared.mpr (Nat.succ.inj hone)
    rw [hw] at hnone
    cases hnone
  obtain ⟨sockets, -, -, ⟨-, rfl⟩ | ⟨added, w', -, hw', rfl⟩⟩ := construct_cases h
  · left
    rw [addRef, if_neg hmore]
    exact hw
  · right
    rw [addRef, if_neg hmore] at hw'
    obtain rfl : w = w' := Option.some.inj (hw.symm.trans hw')
    exact ⟨added, rfl⟩

/-- A destructor deregisters the socket, and the worker goes with the last one only. -/
theorem destroy_worker {a c : SocketPtr} {i : ℕ} (hok : s.Ok) (hw : s.sta = some w)
    (h : s.destroy a = some t) (hother : t.sockets.serial c = some i) :
    t.sta = some (w.deregisterSocket a) := by
  have hpos := Arena.size_pos hother
  rw [← (hok.destroy h).count] at hpos
  obtain ⟨j, w', -, -, hw', rfl⟩ := destroy_cases h
  obtain rfl : w = w' := Option.some.inj (hw.symm.trans hw')
  unfold release at hpos ⊢
  split at hpos
  · next hlast => exact absurd hlast (Nat.ne_of_gt hpos)
  · next hmore => rw [if_neg hmore]

/-! ## The dispatch ends -/

/-- How many loops of `onCall` are left, this one included. -/
def loopsLeft : Callback → ℕ
  | .onDisconnect => 3
  | .onCanRead => 2
  | .onCanWrite => 1

/-- How many addresses wait in the deques of a worker. -/
def queued (w : SocketWorker) : ℕ := w.err.length + w.read.length + w.write.length

/-- A bound on the steps left in a dispatch. -/
def stepsLeft (s : State) : ℕ :=
  match s.sta with
  | none => 0
  | some w =>
      if w.called then
        2 * queued w + match s.control with
          | .idle => 4
          | .draining _ loop => loopsLeft loop
          | .calling _ loop _ => loopsLeft loop + 1
      else 0

/-- The loop thread is in no `onCall` but that of the worker whose message it has. -/
def Home (s : State) : Prop :=
  ∀ w n loop, s.sta = some w → w.called = true → s.control.loop? = some (n, loop) → w.serial = n

theorem queued_popFront {loop : Callback} {cur : SocketPtr} {rest : List SocketPtr}
    (h : w.deque loop = cur :: rest) : queued (w.popFront loop) + 1 = queued w := by
  have hlen := congrArg List.length h
  rw [List.length_cons] at hlen
  cases loop
  all_goals
    simp only [SocketWorker.deque] at hlen
    simp only [queued, SocketWorker.popFront, List.length_tail]
    omega

theorem queued_afterCall (w : SocketWorker) (loop : Callback) (cur : SocketPtr) :
    queued (w.afterCall loop cur) = queued w := by
  cases loop <;> rfl

theorem stepsLeft_some (hw : s.sta = some w) (hcalled : w.called = true) :
    s.stepsLeft = 2 * queued w + match s.control with
      | .idle => 4
      | .draining _ loop => loopsLeft loop
      | .calling _ loop _ => loopsLeft loop + 1 := by
  unfold stepsLeft
  rw [hw]
  simp only [hcalled, if_true]

theorem exists_worker (h : s.pending = true) : ∃ w, s.sta = some w ∧ w.called = true := by
  rw [pending, Option.any_eq_true] at h
  exact h

theorem stepsLeft_turn (hpending : s.pending = true) (hstep : s.turn = some t) :
    t.stepsLeft + 1 ≤ s.stepsLeft := by
  obtain ⟨w, hw, hcalled⟩ := exists_worker hpending
  obtain ⟨n, loop, w', hcontrol, hw', -, hcase⟩ := turn_cases hstep
  obtain rfl : w = w' := Option.some.inj (hw.symm.trans hw')
  rw [stepsLeft_some hw hcalled, hcontrol]
  rcases hcase with ⟨cur, rest, hdeque, -, rfl⟩ | ⟨cur, rest, hdeque, -, rfl⟩ |
    ⟨loop', -, hnext, rfl⟩ | ⟨-, -, rfl⟩
  · have hpop := queued_popFront hdeque
    rw [stepsLeft_some (w := w.popFront loop) rfl (by rw [SocketWorker.called_popFront, hcalled])]
    dsimp only
    omega
  · have hpop := queued_popFront hdeque
    rw [stepsLeft_some (w := (w.popFront loop).afterCall loop cur) rfl
      (by rw [SocketWorker.called_afterCall, SocketWorker.called_popFront, hcalled]),
      queued_afterCall, hcontrol]
    dsimp only
    omega
  · rw [stepsLeft_some (s := { s with control := .draining n loop' }) hw hcalled]
    cases loop <;> cases hnext <;> simp only [loopsLeft] <;> omega
  · have hpos : 0 < loopsLeft loop := by cases loop <;> decide
    simp only [stepsLeft, Bool.false_eq_true, if_false]
    omega

/-- A step of the dispatch brings its end nearer, and no other step puts it off. -/
theorem stepsLeft_step (hok : s.Ok) (hpending : s.pending = true) {act : Action}
    (hstep : s.step act = some t) :
    t.stepsLeft + (if ofDispatch act then 1 else 0) ≤ s.stepsLeft := by
  obtain ⟨w, hw, hcalled⟩ := exists_worker hpending
  cases act with
  | collect batch =>
      obtain ⟨w', hw', hfree, -⟩ := collect_cases hstep
      obtain rfl : w = w' := Option.some.inj (hw.symm.trans hw')
      rw [hcalled] at hfree
      cases hfree
  | dispatch =>
      obtain ⟨w', hw', hidle, -, rfl⟩ := dispatch_cases hstep
      rw [stepsLeft_some hw hcalled, hidle,
        stepsLeft_some (s := { s with control := .draining w'.serial .onDisconnect }) hw hcalled]
      simp only [ofDispatch, loopsLeft, if_true]
      omega
  | turn => exact stepsLeft_turn hpending hstep
  | ret =>
      obtain ⟨n, loop, cur, w', hcontrol, hw', -, rfl⟩ := ret_cases hstep
      obtain rfl : w = w' := Option.some.inj (hw.symm.trans hw')
      rw [stepsLeft_some hw hcalled, hcontrol,
        stepsLeft_some (w := w.afterCall loop cur) rfl
          (by rw [SocketWorker.called_afterCall, hcalled]), queued_afterCall]
      simp only [ofDispatch, if_true]
      omega
  | construct a registers =>
      have hcontrol := (construct_frame hstep).1
      rw [stepsLeft_some hw hcalled]
      rcases construct_worker hok hw hstep with ht | ⟨added, ht⟩
      · rw [stepsLeft_some ht hcalled, hcontrol]
        rfl
      · have hqueued : queued (w.registerSocket a added) = queued w := by
          unfold queued SocketWorker.registerSocket
          split_ifs <;> rfl
        rw [stepsLeft_some ht (by rw [SocketWorker.called_registerSocket, hcalled]), hcontrol,
          hqueued]
        rfl
  | destroy a =>
      have hcontrol := (destroy_frame hstep).1
      obtain ⟨j, w', -, -, hw', rfl⟩ := destroy_cases hstep
      obtain rfl : w = w' := Option.some.inj (hw.symm.trans hw')
      unfold release
      split
      · exact Nat.zero_le _
      · rw [stepsLeft_some hw hcalled, stepsLeft_some (w := w.deregisterSocket a) rfl hcalled]
        rfl

theorem Home.step (hok : s.Ok) (hpending : s.pending = true) (h : s.Home) {act : Action}
    (hstep : s.step act = some t) : t.Home := by
  obtain ⟨w, hw, hcalled⟩ := exists_worker hpending
  have hhome := fun n loop => h w n loop hw hcalled
  intro w' n loop hw' hcalled' hloop
  cases act with
  | collect batch =>
      obtain ⟨w₀, hw₀, -, rfl⟩ := collect_cases hstep
      obtain rfl : w = w₀ := Option.some.inj (hw.symm.trans hw₀)
      cases hw'
      rw [SocketWorker.serial_run]
      exact hhome n loop hloop
  | dispatch =>
      obtain ⟨w₀, hw₀, -, -, rfl⟩ := dispatch_cases hstep
      obtain rfl : w₀ = w' := Option.some.inj (hw₀.symm.trans hw')
      cases hloop
      rfl
  | turn =>
      obtain ⟨m, l, w₀, -, hw₀, rfl, hcase⟩ := turn_cases hstep
      rcases hcase with ⟨cur, rest, -, -, rfl⟩ | ⟨cur, rest, -, -, rfl⟩ | ⟨l', -, -, rfl⟩ |
        ⟨-, -, rfl⟩
      · cases hw'
        cases hloop
        exact SocketWorker.serial_popFront w₀ _
      · obtain rfl : w = w₀ := Option.some.inj (hw.symm.trans hw₀)
        cases hw'
        rw [SocketWorker.serial_afterCall, SocketWorker.serial_popFront]
        exact hhome n loop hloop
      · obtain rfl : w₀ = w' := Option.some.inj (hw₀.symm.trans hw')
        cases hloop
        rfl
      · cases hloop
  | ret =>
      obtain ⟨m, l, cur, w₀, -, -, rfl, rfl⟩ := ret_cases hstep
      cases hw'
      cases hloop
      exact SocketWorker.serial_afterCall w₀ loop cur
  | construct a registers =>
      rw [(construct_frame hstep).1] at hloop
      rcases construct_worker hok hw hstep with ht | ⟨added, ht⟩
      · obtain rfl : w = w' := Option.some.inj (ht.symm.trans hw')
        exact hhome n loop hloop
      · obtain rfl := Option.some.inj (ht.symm.trans hw')
        rw [SocketWorker.serial_registerSocket]
        exact hhome n loop hloop
  | destroy a =>
      rw [(destroy_frame hstep).1] at hloop
      obtain ⟨j, w₀, -, -, hw₀, rfl⟩ := destroy_cases hstep
      obtain rfl : w = w₀ := Option.some.inj (hw.symm.trans hw₀)
      unfold release at hw'
      split at hw'
      · cases hw'
      · cases hw'
        exact hhome n loop hloop

/-- Until the dispatch is over there is a next step of it. -/
theorem Home.progress (h : s.Home) (hpending : s.pending = true) :
    ∃ act t, ofDispatch act = true ∧ s.step act = some t := by
  obtain ⟨w, hw, hcalled⟩ := exists_worker hpending
  cases hcontrol : s.control with
  | idle =>
      refine ⟨.dispatch, { s with control := .draining w.serial .onDisconnect }, rfl, ?_⟩
      change s.dispatch = _
      unfold dispatch
      rw [hw]
      exact if_pos ⟨hcontrol, hcalled⟩
  | draining n loop =>
      have hserial := h w n loop hw hcalled (by rw [hcontrol, Control.loop?])
      have hturn := turn_eq hcontrol hw hserial
      suffices hsome : (s.step .turn).isSome by
        obtain ⟨t, ht⟩ := Option.isSome_iff_exists.mp hsome
        exact ⟨.turn, t, rfl, ht⟩
      change s.turn.isSome = true
      rw [hturn]
      split
      · split <;> rfl
      · split <;> rfl
  | calling n loop cur =>
      have hserial := h w n loop hw hcalled (by rw [hcontrol, Control.loop?])
      exact ⟨.ret, _, rfl, ret_eq hcontrol hw hserial⟩

theorem Dispatch.run_home {s' : State} {tr : List (State × Action)} (hrun : Dispatch s' tr t)
    (hok : s'.Ok) (hhome : s'.Home) :
    t.Home ∧ tr.countP (ofDispatch ·.2) + t.stepsLeft ≤ s'.stepsLeft := by
  obtain ⟨hrun, hpending⟩ := hrun
  induction hrun with
  | nil => exact ⟨hhome, by simp⟩
  | @snoc tr t u act hrun hstep ih =>
      rw [List.forall_mem_append] at hpending
      obtain ⟨hbefore, hlast⟩ := hpending
      have hnow : t.pending = true := hlast (t, act) (by simp)
      obtain ⟨ht, hcount⟩ := ih hbefore
      have hokt := hok.run hrun
      refine ⟨ht.step hokt hnow hstep, ?_⟩
      have hleft := stepsLeft_step hokt hnow hstep
      rw [List.countP_append, List.countP_singleton]
      dsimp only at hleft ⊢
      omega

/-- The dispatch of every batch ends. -/
theorem dispatchEnds {tr₀ : List (State × Action)} (hreach : Runs .init tr₀ s)
    (hidle : s.control = .idle) (batch : Batch) : s.DispatchEnds batch := by
  intro s' hcollect
  have hok' := (Ok.init.run hreach).collect hcollect
  obtain ⟨w, -, -, rfl⟩ := collect_cases hcollect
  have hhome : Home { s with sta := some (w.run batch) } := by
    intro w' n loop hw' hcalled hloop
    rw [hidle] at hloop
    cases hloop
  refine ⟨stepsLeft { s with sta := some (w.run batch) }, fun tr t hdispatch => ?_⟩
  obtain ⟨ht, hcount⟩ := hdispatch.run_home hok' hhome
  exact ⟨Nat.le_of_add_right_le hcount, ht.progress⟩

end State

end Epoll

end Craplib
