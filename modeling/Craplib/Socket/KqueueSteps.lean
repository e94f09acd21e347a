import Craplib.Socket.EpollProgress
import Craplib.Socket.KqueueWorker

/-!
# What the steps of the kqueue dispatch do

The worker, its sockets and its reference count go through the steps that they go through
in the epoll backend wherever the code is the same: `turn_epoll` and its siblings say so,
and with them the invariant `Epoll.State.Ok` holds here too (`ok_step`).  The three steps
that differ (`collect`, `construct`, `destroy`) have their own case lemmas.
-/

namespace Craplib

namespace Kqueue

open Epoll (SocketPtr Callback SocketWorker Control)

/-! ## A batch -/

theorem classify_eq (w : SocketWorker) (ev : Kevent) :
    classify w ev = { w with
      err := w.err ++ if ev.failed then [ev.udata] else []
      read := w.read ++ if !ev.failed && ev.filter = .EVFILT_READ then [ev.udata] else []
      write := w.write ++ if !ev.failed && ev.filter = .EVFILT_WRITE then [ev.udata] else [] } := by
  unfold classify Kevent.failed
  cases herror : ev.has EV_ERROR <;> cases heof : ev.has EV_EOF <;>
    cases hfilter : ev.filter <;> simp

theorem foldl_classify (evs : List Kevent) (w : SocketWorker) :
    (evs.foldl classify w).serial = w.serial ∧ (evs.foldl classify w).clients = w.clients ∧
      (evs.foldl classify w).err = w.err ++ (evs.filter Kevent.failed).map Kevent.udata := by
  induction evs generalizing w with
  | nil => simp
  | cons ev rest ih =>
      rw [List.foldl_cons]
      obtain ⟨hserial, hclients, herr⟩ := ih (classify w ev)
      rw [hserial, hclients, herr, classify_eq]
      refine ⟨rfl, rfl, ?_⟩
      cases hfailed : ev.failed <;> simp [hfailed]

@[simp] theorem serial_run (w : SocketWorker) (batch : Batch) :
    (run w batch).serial = w.serial :=
  (foldl_classify batch.events w).1

@[simp] theorem clients_run (w : SocketWorker) (batch : Batch) :
    (run w batch).clients = w.clients :=
  (foldl_classify batch.events w).2.1

/-- A turn of `run` appends the sockets of the failed events to `err`. -/
theorem err_run (w : SocketWorker) (batch : Batch) :
    (run w batch).err = w.err ++ (batch.events.filter Kevent.failed).map Kevent.udata :=
  (foldl_classify batch.events w).2.2

namespace State

variable {s t : State}

/-! ## What a step does -/

theorem collect_cases {batch : Batch} (h : s.collect batch = some t) :
    ∃ w, s.sta = some w ∧ w.called = false ∧ t = { s with sta := some (run w batch) } := by
  obtain ⟨w, hw, h⟩ := Option.bind_eq_some_iff.mp h
  split at h
  · cases h
  · next hcalled => exact ⟨w, hw, eq_false_of_ne_true hcalled, (Option.some.inj h).symm⟩

theorem dispatch_epoll (h : s.dispatch = some t) :
    s.toState.dispatch = some t.toState ∧ t = { s with toState := t.toState } := by
  obtain ⟨u, hu, h⟩ := Option.bind_eq_some_iff.mp h
  obtain rfl := Option.some.inj h
  exact ⟨hu, rfl⟩

/-- `deregisterSocket` is given a socket that lives, and takes its filters away. -/
theorem deregisterSocket_cases {impl : SocketPtr} (h : s.deregisterSocket impl = some t) :
    ∃ i, s.sockets.serial impl = some i ∧ t = { s with
      filters := s.filters \ filtersOf (s.descriptor i)
      sta := s.sta.map fun w => w.deregisterSocket impl } := by
  obtain ⟨i, hi, h⟩ := Option.bind_eq_some_iff.mp h
  exact ⟨i, hi, (Option.some.inj h).symm⟩

theorem deregisterSocket_eq {impl : SocketPtr} {i : ℕ} (hi : s.sockets.serial impl = some i) :
    s.deregisterSocket impl = some { s with
      filters := s.filters \ filtersOf (s.descriptor i)
      sta := s.sta.map fun w => w.deregisterSocket impl } := by
  rw [deregisterSocket, hi]
  rfl

/-- A turn of `onCall` calls a registered socket, passes over one that is not, goes on to
the next loop, or returns. -/
theorem turn_cases (h : s.turn = some t) :
    ∃ n loop w, s.control = .draining n loop ∧ s.sta = some w ∧ w.serial = n ∧
      ((∃ cur rest i, w.deque loop = cur :: rest ∧ cur ∈ w.clients ∧
          s.sockets.serial cur = some i ∧
          t = { s with sta := some (w.popFront loop), control := .calling n loop cur,
                       callee := i }) ∨
        (∃ cur rest, w.deque loop = cur :: rest ∧ cur ∉ w.clients ∧
          { s with sta := some (w.popFront loop) }.afterCall loop cur = some t) ∨
        (∃ loop', w.deque loop = [] ∧ loop.next = some loop' ∧
          t = { s with control := .draining n loop' }) ∨
        (w.deque loop = [] ∧ loop.next = none ∧
          t = { s with sta := some { w with called := false }, control := .idle })) := by
  unfold turn at h
  split at h
  · next n loop hcontrol =>
      obtain ⟨w, hw, h⟩ := Option.bind_eq_some_iff.mp h
      obtain ⟨hsta, hserial⟩ := Epoll.State.worker?_eq_some.mp hw
      refine ⟨n, loop, w, hcontrol, hsta, hserial, ?_⟩
      split at h
      · next cur rest hdeque =>
          split at h
          · next hmem =>
              obtain ⟨i, hi, h⟩ := Option.bind_eq_some_iff.mp h
              exact .inl ⟨cur, rest, i, hdeque, hmem, hi, (Option.some.inj h).symm⟩
          · next hmem => exact .inr (.inl ⟨cur, rest, hdeque, hmem, h⟩)
      · next hdeque =>
          split at h
          · next loop' hnext =>
              exact .inr (.inr (.inl ⟨loop', hdeque, hnext, (Option.some.inj h).symm⟩))
          · next hnext =>
              exact .inr (.inr (.inr ⟨hdeque, hnext, (Option.some.inj h).symm⟩))
  · cases h

theorem ret_cases (h : s.ret = some t) :
    ∃ n loop cur w u, s.control = .calling n loop cur ∧ s.sta = some w ∧ w.serial = n ∧
      s.afterCall loop cur = some u ∧ t = { u with control := .draining n loop } := by
  unfold ret at h
  split at h
  · next n loop cur hcontrol =>
      obtain ⟨w, hw, h⟩ := Option.bind_eq_some_iff.mp h
      obtain ⟨u, hu, h⟩ := Option.bind_eq_some_iff.mp h
      obtain ⟨hsta, hserial⟩ := Epoll.State.worker?_eq_some.mp hw
      exact ⟨n, loop, cur, w, u, hcontrol, hsta, hserial, hu, (Option.some.inj h).symm⟩
  · cases h

/-- `clients.insert`, as far as the worker is concerned. -/
def enroll (s : Epoll.State) (impl : SocketPtr) : Epoll.State :=
  { s with sta := s.sta.map fun w => { w with clients := insert impl w.clients } }

theorem construct_cases {a : SocketPtr} {fd : ℕ} {registers : Bool}
    (h : s.construct a fd registers = some t) :
    ∃ sockets, s.inUserCode = true ∧ s.sockets.construct a () = some sockets ∧
      t.control = s.control ∧ t.callee = s.callee ∧
      ((registers = false ∧ t.toState = { s.toState with sockets := sockets }.addRef) ∨
        (registers = true ∧
          t.toState = enroll { s.toState with sockets := sockets }.addRef a)) := by
  unfold construct at h
  split at h
  · next huser =>
      obtain ⟨sockets, hsockets, h⟩ := Option.bind_eq_some_iff.mp h
      obtain rfl := Option.some.inj h
      have hcontrol := Epoll.State.control_addRef { s.toState with sockets := sockets }
      refine ⟨sockets, huser, hsockets, ?_⟩
      cases registers
      · exact ⟨hcontrol, rfl, .inl ⟨rfl, rfl⟩⟩
      · exact ⟨hcontrol, rfl, .inr ⟨rfl, rfl⟩⟩
  · cases h

/-- A destructor does to the sockets and the worker what it does in the epoll backend. -/
theorem destroy_epoll {a : SocketPtr} (h : s.destroy a = some t) :
    s.toState.destroy a = some t.toState ∧ t.callee = s.callee := by
  unfold destroy at h
  split at h
  · next huser =>
      obtain ⟨w, hw, h⟩ := Option.bind_eq_some_iff.mp h
      obtain ⟨u, hu, h⟩ := Option.bind_eq_some_iff.mp h
      obtain ⟨i, hi, rfl⟩ := deregisterSocket_cases hu
      obtain rfl := Option.some.inj h
      refine ⟨?_, rfl⟩
      rw [Epoll.State.destroy, if_pos huser, hi, hw]
      simp only [Option.map_some]
      rfl
  · cases h

/-- **What is left of a turn**: the worker does what it does in the epoll backend, and the rest
of its state stays. -/
theorem afterCall_spec {loop : Callback} {cur : SocketPtr} (h : s.afterCall loop cur = some t) :
    t.toState = { s.toState with sta := s.sta.map fun w => w.afterCall loop cur } ∧
      t.callee = s.callee := by
  cases loop with
  | onDisconnect =>
      obtain ⟨i, -, rfl⟩ := deregisterSocket_cases h
      exact ⟨rfl, rfl⟩
  | onCanRead | onCanWrite =>
      obtain rfl := Option.some.inj h
      refine ⟨?_, rfl⟩
      have hsame : (s.sta.map fun w => w) = s.sta := Option.map_id'
      simp only [SocketWorker.afterCall, hsame]

theorem afterCall_frame {loop : Callback} {cur : SocketPtr} (h : s.afterCall loop cur = some t) :
    t.sockets = s.sockets ∧ t.control = s.control ∧
      ∀ w, s.sta = some w → t.sta = some (w.afterCall loop cur) := by
  have heq := (afterCall_spec h).1
  refine ⟨by rw [heq], by rw [heq], fun w hw => ?_⟩
  rw [heq, hw]
  rfl

/-- `onCall` does to the worker what it does in the epoll backend. -/
theorem turn_epoll (h : s.turn = some t) : s.toState.turn = some t.toState := by
  obtain ⟨n, loop, w, hcontrol, hw, hserial, hcase⟩ := turn_cases h
  rw [Epoll.State.turn_eq hcontrol hw hserial]
  rcases hcase with ⟨cur, rest, i, hdeque, hmem, -, rfl⟩ | ⟨cur, rest, hdeque, hmem, hafter⟩ |
    ⟨loop', hdeque, hnext, rfl⟩ | ⟨hdeque, hnext, rfl⟩
  · simp only [hdeque, if_pos hmem]
  · simp only [hdeque, if_neg hmem, (afterCall_spec hafter).1, Option.map_some]
  · simp only [hdeque, hnext]
  · simp only [hdeque, hnext]

theorem ret_epoll (h : s.ret = some t) : s.toState.ret = some t.toState := by
  obtain ⟨n, loop, cur, w, u, hcontrol, hw, hserial, hafter, rfl⟩ := ret_cases h
  rw [Epoll.State.ret_eq hcontrol hw hserial]
  simp only [(afterCall_spec hafter).1, hw, Option.map_some]

/-- A constructor may add the new socket to `clients` of the worker, which is the one there
was if there was one. -/
theorem construct_worker {a : SocketPtr} {fd : ℕ} {registers : Bool} (hok : s.toState.Ok)
    (h : s.construct a fd registers = some t) {w : SocketWorker} (hw : s.sta = some w) :
    t.sta = some w ∨ t.sta = some { w with clients := insert a w.clients } := by
  have hmore : ¬ s.refCounter + 1 = 1 := by
    intro hone
    have hnone := hok.shared.mpr (Nat.succ.inj hone)
    rw [hw] at hnone
    cases hnone
  obtain ⟨sockets, -, -, -, -, ⟨-, ht⟩ | ⟨-, ht⟩⟩ := construct_cases h
  · left
    rw [ht, Epoll.State.addRef, if_neg hmore]
    exact hw
  · right
    rw [ht, Epoll.State.addRef, if_neg hmore, enroll]
    simp only [hw, Option.map_some]

/-! ## The invariant of the worker -/

theorem ok_collect {batch : Batch} (h : s.toState.Ok) (hstep : s.collect batch = some t) :
    t.toState.Ok := by
  obtain ⟨w, hw, hcalled, rfl⟩ := collect_cases hstep
  apply h.setWorker hw (run w batch) s.control (serial_run w batch)
  · rw [clients_run]
    exact h.live_some hw
  · exact h.loop_lt
  · intro loop hloop
    have := (h.drained w loop hw hloop).1
    rw [hcalled] at this
    cases this
  · intro hfalse
    cases hfalse

/-- A live socket is entered into `clients`. -/
theorem ok_enroll {u : Epoll.State} (h : u.Ok) {a : SocketPtr}
    (ha : u.sockets.serial a ≠ none) : (enroll u a).Ok := by
  cases hw : u.sta with
  | none =>
      have hsame : enroll u a = u := by
        rw [enroll, hw, Option.map_none, ← hw]
      rw [hsame]
      exact h
  | some w =>
      rw [enroll, hw, Option.map_some]
      apply h.setWorker hw { w with clients := insert a w.clients } u.control rfl
      · intro c hc
        rcases Finset.mem_insert.mp hc with rfl | hold
        · exact ha
        · exact h.live_some hw c hold
      · exact h.loop_lt
      · intro loop hloop
        refine ⟨(h.drained w loop hw hloop).1, fun loop' hrank => ?_⟩
        have hdeque := (h.drained w loop hw hloop).2 loop' hrank
        cases loop' <;> exact hdeque
      · intro hcalled loop
        have hdeque := h.emptied w hw hcalled loop
        cases loop <;> exact hdeque

theorem ok_construct {a : SocketPtr} {fd : ℕ} {registers : Bool} (h : s.toState.Ok)
    (hstep : s.construct a fd registers = some t) : t.toState.Ok := by
  obtain ⟨sockets, -, hnew, -, -, ⟨-, ht⟩ | ⟨-, ht⟩⟩ := construct_cases hstep
  · rw [ht]
    exact h.addRef hnew
  · rw [ht]
    apply ok_enroll (h.addRef hnew)
    rw [Epoll.State.sockets_addRef, Arena.serial_of_construct hnew, if_pos rfl]
    exact Option.some_ne_none _

/-- Every step keeps the invariant of the worker. -/
theorem ok_step {act : Action} (h : s.toState.Ok) (hstep : s.step act = some t) :
    t.toState.Ok := by
  cases act with
  | collect batch => exact ok_collect h hstep
  | dispatch => exact h.dispatch (dispatch_epoll hstep).1
  | turn => exact h.turn (turn_epoll hstep)
  | ret => exact h.ret (ret_epoll hstep)
  | construct a fd registers => exact ok_construct h hstep
  | destroy a => exact h.destroy (destroy_epoll hstep).1

theorem ok_run {tr : List (State × Action)} (hrun : Runs s tr t) (h : s.toState.Ok) :
    t.toState.Ok :=
  hrun.invariant (I := fun x => x.toState.Ok) (fun _ _ _ hok hstep => ok_step hok hstep) h

end State

end Kqueue

end Craplib
