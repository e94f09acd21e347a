import Craplib.Socket.EpollWorker

/-!
# What the steps of the epoll dispatch do

* `turn_cases` and its siblings say once what each step does.
* `deque_run` says what a batch of events adds to each deque.
* `State.Ok` is the invariant of the worker and its reference count, kept by every step
  (`State.Ok.step`) and so by every run.
* `registered_of_step` says how registrations change: only a constructor adds one, for a
  socket that is new.
-/

namespace Craplib

namespace Epoll

/-! ## The deques -/

/-- The place of a loop in `onCall`. -/
def Callback.rank : Callback → ℕ
  | .onDisconnect => 0
  | .onCanRead => 1
  | .onCanWrite => 2

namespace SocketWorker

variable (w : SocketWorker) (loop loop' : Callback) (cur : SocketPtr)

@[simp] theorem serial_popFront : (w.popFront loop).serial = w.serial := by cases loop <;> rfl

@[simp] theorem clients_popFront : (w.popFront loop).clients = w.clients := by cases loop <;> rfl

@[simp] theorem called_popFront : (w.popFront loop).called = w.called := by cases loop <;> rfl

theorem deque_popFront :
    (w.popFront loop).deque loop' =
      if loop' = loop then (w.deque loop).tail else w.deque loop' := by
  cases loop <;> cases loop' <;> rfl

@[simp] theorem serial_afterCall : (w.afterCall loop cur).serial = w.serial := by
  cases loop <;> rfl

@[simp] theorem called_afterCall : (w.afterCall loop cur).called = w.called := by
  cases loop <;> rfl

@[simp] theorem deque_afterCall : (w.afterCall loop cur).deque loop' = w.deque loop' := by
  cases loop <;> cases loop' <;> rfl

theorem clients_afterCall_subset : (w.afterCall loop cur).clients ⊆ w.clients := by
  cases loop
  · exact Finset.erase_subset _ _
  · exact Finset.Subset.refl _
  · exact Finset.Subset.refl _

@[simp] theorem serial_registerSocket (a : SocketPtr) (added : Bool) :
    (w.registerSocket a added).serial = w.serial := by
  unfold registerSocket
  split_ifs <;> rfl

@[simp] theorem called_registerSocket (a : SocketPtr) (added : Bool) :
    (w.registerSocket a added).called = w.called := by
  unfold registerSocket
  split_ifs <;> rfl

@[simp] theorem deque_registerSocket (a : SocketPtr) (added : Bool) :
    (w.registerSocket a added).deque loop = w.deque loop := by
  unfold registerSocket
  split_ifs <;> cases loop <;> rfl

theorem clients_registerSocket_subset (a : SocketPtr) (added : Bool) :
    (w.registerSocket a added).clients ⊆ insert a w.clients := by
  unfold registerSocket
  split_ifs
  · exact Finset.subset_insert _ _
  · exact Finset.subset_insert _ _
  · exact Finset.Subset.refl _

theorem subset_clients_registerSocket (a : SocketPtr) (added : Bool) :
    w.clients ⊆ (w.registerSocket a added).clients := by
  unfold registerSocket
  split_ifs
  · exact Finset.Subset.refl _
  · exact Finset.Subset.refl _
  · exact Finset.subset_insert _ _

@[simp] theorem deque_deregisterSocket (a : SocketPtr) :
    (w.deregisterSocket a).deque loop = w.deque loop := by
  cases loop <;> rfl

/-- The events of a batch that put their socket on the deque of a loop. -/
def goesTo : Callback → EpollEvent → Bool
  | .onDisconnect, ev => ev.hangup
  | .onCanRead, ev => !ev.hangup && (ev.has EPOLLIN || ev.has EPOLLPRI)
  | .onCanWrite, ev => !ev.hangup && ev.has EPOLLOUT

theorem classify_eq (ev : EpollEvent) :
    w.classify ev = { w with
      err := w.err ++ if goesTo .onDisconnect ev then [ev.ptr] else []
      read := w.read ++ if goesTo .onCanRead ev then [ev.ptr] else []
      write := w.write ++ if goesTo .onCanWrite ev then [ev.ptr] else [] } := by
  unfold classify goesTo
  cases hhang : ev.hangup <;> cases hin : (ev.has EPOLLIN || ev.has EPOLLPRI) <;>
    cases hout : ev.has EPOLLOUT <;> simp [hhang, hin, hout]

theorem foldl_classify (evs : List EpollEvent) :
    evs.foldl classify w = { w with
      err := w.err ++ (evs.filter (goesTo .onDisconnect)).map EpollEvent.ptr
      read := w.read ++ (evs.filter (goesTo .onCanRead)).map EpollEvent.ptr
      write := w.write ++ (evs.filter (goesTo .onCanWrite)).map EpollEvent.ptr } := by
  induction evs generalizing w with
  | nil => simp
  | cons ev rest ih =>
      rw [List.foldl_cons, ih, classify_eq]
      simp only [List.filter_cons, List.append_assoc]
      congr 2 <;> split_ifs <;> simp

/-- A turn of `run` appends to each deque the sockets of the events that go there. -/
theorem deque_run (batch : Batch) :
    (w.run batch).deque loop =
      w.deque loop ++ (batch.events.filter (goesTo loop)).map EpollEvent.ptr := by
  unfold run
  rw [foldl_classify]
  cases loop <;> rfl

@[simp] theorem serial_run (batch : Batch) : (w.run batch).serial = w.serial := by
  unfold run
  rw [foldl_classify]

@[simp] theorem clients_run (batch : Batch) : (w.run batch).clients = w.clients := by
  unfold run
  rw [foldl_classify]

end SocketWorker

namespace State

variable {s t : State}

/-! ## What a step does -/

theorem worker?_eq_some {n : ℕ} {w : SocketWorker} :
    s.worker? n = some w ↔ s.sta = some w ∧ w.serial = n := by
  rw [worker?, Option.filter_eq_some_iff, decide_eq_true_iff]

theorem collect_cases {batch : Batch} (h : s.collect batch = some t) :
    ∃ w, s.sta = some w ∧ w.called = false ∧ t = { s with sta := some (w.run batch) } := by
  obtain ⟨w, hw, h⟩ := Option.bind_eq_some_iff.mp h
  split at h
  · cases h
  · next hcalled => exact ⟨w, hw, eq_false_of_ne_true hcalled, (Option.some.inj h).symm⟩

theorem dispatch_cases (h : s.dispatch = some t) :
    ∃ w, s.sta = some w ∧ s.control = .idle ∧ w.called = true ∧
      t = { s with control := .draining w.serial .onDisconnect } := by
  obtain ⟨w, hw, h⟩ := Option.bind_eq_some_iff.mp h
  split at h
  · next hguard => exact ⟨w, hw, hguard.1, hguard.2, (Option.some.inj h).symm⟩
  · cases h

/-- A turn of `onCall` calls a registered socket, passes over one that is not, goes on to
the next loop, or returns. -/
theorem turn_cases (h : s.turn = some t) :
    ∃ n loop w, s.control = .draining n loop ∧ s.sta = some w ∧ w.serial = n ∧
      ((∃ cur rest, w.deque loop = cur :: rest ∧ cur ∈ w.clients ∧
          t = { s with sta := some (w.popFront loop), control := .calling n loop cur }) ∨
        (∃ cur rest, w.deque loop = cur :: rest ∧ cur ∉ w.clients ∧
          t = { s with sta := some ((w.popFront loop).afterCall loop cur) }) ∨
        (∃ loop', w.deque loop = [] ∧ loop.next = some loop' ∧
          t = { s with control := .draining n loop' }) ∨
        (w.deque loop = [] ∧ loop.next = none ∧
          t = { s with sta := some { w with called := false }, control := .idle })) := by
  unfold turn at h
  split at h
  · next n loop hcontrol =>
      obtain ⟨w, hw, h⟩ := Option.bind_eq_some_iff.mp h
      obtain ⟨hsta, hserial⟩ := worker?_eq_some.mp hw
      refine ⟨n, loop, w, hcontrol, hsta, hserial, ?_⟩
      split at h
      · next cur rest hdeque =>
          split at h
          · next hmem => exact .inl ⟨cur, rest, hdeque, hmem, (Option.some.inj h).symm⟩
          · next hmem => exact .inr (.inl ⟨cur, rest, hdeque, hmem, (Option.some.inj h).symm⟩)
      · next hdeque =>
          split at h
          · next loop' hnext =>
              exact .inr (.inr (.inl ⟨loop', hdeque, hnext, (Option.some.inj h).symm⟩))
          · next hnext =>
              exact .inr (.inr (.inr ⟨hdeque, hnext, (Option.some.inj h).symm⟩))
  · cases h

theorem ret_cases (h : s.ret = some t) :
    ∃ n loop cur w, s.control = .calling n loop cur ∧ s.sta = some w ∧ w.serial = n ∧
      t = { s with sta := some (w.afterCall loop cur), control := .draining n loop } := by
  unfold ret at h
  split at h
  · next n loop cur hcontrol =>
      obtain ⟨w, hw, h⟩ := Option.bind_eq_some_iff.mp h
      obtain ⟨hsta, hserial⟩ := worker?_eq_some.mp hw
      exact ⟨n, loop, cur, w, hcontrol, hsta, hserial, (Option.some.inj h).symm⟩
  · cases h

/-- A constructor takes a reference, and may register the new socket. -/
theorem construct_cases {a : SocketPtr} {registers : Option Bool}
    (h : s.construct a registers = some t) :
    ∃ sockets, s.inUserCode = true ∧ s.sockets.construct a () = some sockets ∧
      ((registers = none ∧ t = { s with sockets := sockets }.addRef) ∨
        ∃ added w, registers = some added ∧ { s with sockets := sockets }.addRef.sta = some w ∧
          t = { { s with sockets := sockets }.addRef with
                sta := some (w.registerSocket a added) }) := by
  unfold construct at h
  split at h
  · next huser =>
      obtain ⟨sockets, hsockets, h⟩ := Option.bind_eq_some_iff.mp h
      refine ⟨sockets, huser, hsockets, ?_⟩
      cases registers with
      | none => exact .inl ⟨rfl, (Option.some.inj h).symm⟩
      | some added =>
          obtain ⟨w, hw, h⟩ := Option.bind_eq_some_iff.mp h
          exact .inr ⟨added, w, rfl, hw, (Option.some.inj h).symm⟩
  · cases h

theorem destroy_cases {a : SocketPtr} (h : s.destroy a = some t) :
    ∃ i w, s.inUserCode = true ∧ s.sockets.serial a = some i ∧ s.sta = some w ∧
      t = { s with sockets := s.sockets.destroy a,
                   sta := some (w.deregisterSocket a) }.release := by
  unfold destroy at h
  split at h
  · next huser =>
      obtain ⟨i, hi, h⟩ := Option.bind_eq_some_iff.mp h
      obtain ⟨w, hw, h⟩ := Option.bind_eq_some_iff.mp h
      exact ⟨i, w, huser, hi, hw, (Option.some.inj h).symm⟩
  · cases h

/-! ## The invariant of the worker -/

end State

/-- The worker whose `onCall` the loop thread is in, and the loop it is in there. -/
def Control.loop? : Control → Option (ℕ × Callback)
  | .idle => none
  | .draining n loop => some (n, loop)
  | .calling n loop _ => some (n, loop)

namespace State

variable {s t : State}

/-- `clients` of the worker, if there is one. -/
def clients (s : State) : Finset SocketPtr := (s.sta.map SocketWorker.clients).getD ∅

@[simp] theorem clients_some {w : SocketWorker} (h : s.sta = some w) : s.clients = w.clients := by
  rw [clients, h]
  rfl

@[simp] theorem clients_none (h : s.sta = none) : s.clients = ∅ := by
  rw [clients, h]
  rfl

/-- What holds between the steps: the worker is there as long as a socket is, `clients`
holds live sockets only, the loops of `onCall` before the one it is in have emptied their
deques, and outside of it all deques are empty. -/
structure Ok (s : State) : Prop where
  count : s.refCounter = s.sockets.size
  shared : s.sta = none ↔ s.refCounter = 0
  live : ∀ a ∈ s.clients, s.sockets.serial a ≠ none
  serial_lt : ∀ w, s.sta = some w → w.serial < s.workers
  loop_lt : ∀ n loop, s.control.loop? = some (n, loop) → n < s.workers
  drained : ∀ w loop, s.sta = some w → s.control.loop? = some (w.serial, loop) →
    w.called = true ∧ ∀ loop', loop'.rank < loop.rank → w.deque loop' = []
  emptied : ∀ w, s.sta = some w → w.called = false → ∀ loop, w.deque loop = []

namespace Ok

theorem init : State.init.Ok where
  count := rfl
  shared := by simp [State.init]
  live := by simp [State.init, State.clients]
  serial_lt := by simp [State.init]
  loop_lt := by simp [State.init, Control.loop?]
  drained := by simp [State.init]
  emptied := by simp [State.init]

variable {w : SocketWorker}

/-- The loop thread or the worker's own thread has changed the worker. -/
theorem setWorker (h : s.Ok) (hw : s.sta = some w) (w' : SocketWorker) (control : Control)
    (hserial : w'.serial = w.serial)
    (hlive : ∀ a ∈ w'.clients, s.sockets.serial a ≠ none)
    (hlt : ∀ n loop, control.loop? = some (n, loop) → n < s.workers)
    (hdrained : ∀ loop, control.loop? = some (w.serial, loop) →
      w'.called = true ∧ ∀ loop', loop'.rank < loop.rank → w'.deque loop' = [])
    (hemptied : w'.called = false → ∀ loop, w'.deque loop = []) :
    Ok { s with sta := some w', control := control } where
  count := h.count
  shared := by
    rw [← h.shared, hw]
    simp
  live := by
    rw [clients_some rfl]
    exact hlive
  serial_lt := by
    rintro _ ⟨rfl⟩
    rw [hserial]
    exact h.serial_lt w hw
  loop_lt := hlt
  drained := by
    rintro _ loop ⟨rfl⟩ hloop
    rw [hserial] at hloop
    exact hdrained loop hloop
  emptied := by
    rintro _ ⟨rfl⟩
    exact hemptied

theorem live_some (h : s.Ok) (hw : s.sta = some w) :
    ∀ a ∈ w.clients, s.sockets.serial a ≠ none := by
  rw [← clients_some hw]
  exact h.live

theorem collect {batch : Batch} (h : s.Ok) (hstep : s.collect batch = some t) : t.Ok := by
  obtain ⟨w, hw, hcalled, rfl⟩ := collect_cases hstep
  apply h.setWorker hw (w.run batch) s.control (SocketWorker.serial_run w batch)
  · rw [SocketWorker.clients_run]
    exact h.live_some hw
  · exact h.loop_lt
  · intro loop hloop
    have := (h.drained w loop hw hloop).1
    rw [hcalled] at this
    cases this
  · intro hfalse
    cases hfalse

theorem dispatch (h : s.Ok) (hstep : s.dispatch = some t) : t.Ok := by
  obtain ⟨w, hw, hidle, hcalled, rfl⟩ := dispatch_cases hstep
  have hset := h.setWorker hw w (.draining w.serial .onDisconnect) rfl (h.live_some hw)
  rw [← hw] at hset
  apply hset
  · rintro n loop ⟨rfl, rfl⟩
    exact h.serial_lt w hw
  · rintro loop ⟨rfl, rfl⟩
    exact ⟨hcalled, fun loop' hlt => absurd hlt (Nat.not_lt_zero _)⟩
  · exact h.emptied w hw

theorem turn (h : s.Ok) (hstep : s.turn = some t) : t.Ok := by
  obtain ⟨n, loop, w, hcontrol, hw, rfl, hcase⟩ := turn_cases hstep
  have hloop : s.control.loop? = some (w.serial, loop) := by rw [hcontrol, Control.loop?]
  obtain ⟨hcalled, hbefore⟩ := h.drained w loop hw hloop
  have hlt := h.loop_lt w.serial loop hloop
  -- the loops that are done stay empty when the deque of this one is popped
  have hpop : ∀ loop', loop'.rank < loop.rank → (w.popFront loop).deque loop' = [] := by
    intro loop' hrank
    rw [SocketWorker.deque_popFront, if_neg, hbefore loop' hrank]
    rintro rfl
    exact absurd hrank (Nat.lt_irrefl _)
  rcases hcase with ⟨cur, rest, hdeque, hmem, rfl⟩ | ⟨cur, rest, hdeque, hmem, rfl⟩ |
    ⟨loop', hdeque, hnext, rfl⟩ | ⟨hdeque, hnext, rfl⟩
  · -- a callback is made
    apply h.setWorker hw (w.popFront loop) (.calling w.serial loop cur)
      (SocketWorker.serial_popFront w loop)
    · rw [SocketWorker.clients_popFront]
      exact h.live_some hw
    · rintro n loop ⟨rfl, rfl⟩
      exact hlt
    · rintro loop' ⟨rfl, rfl⟩
      rw [SocketWorker.called_popFront]
      exact ⟨hcalled, hpop⟩
    · rw [SocketWorker.called_popFront, hcalled]
      exact fun hfalse => by cases hfalse
  · -- the socket is not registered
    apply h.setWorker hw ((w.popFront loop).afterCall loop cur) s.control
    · rw [SocketWorker.serial_afterCall, SocketWorker.serial_popFront]
    · intro a ha
      have hsub := SocketWorker.clients_afterCall_subset (w.popFront loop) loop cur ha
      rw [SocketWorker.clients_popFront] at hsub
      exact h.live_some hw a hsub
    · exact h.loop_lt
    · intro loop' hloop'
      rw [hloop'] at hloop
      cases hloop
      rw [SocketWorker.called_afterCall, SocketWorker.called_popFront]
      refine ⟨hcalled, fun loop'' hrank => ?_⟩
      rw [SocketWorker.deque_afterCall]
      exact hpop loop'' hrank
    · rw [SocketWorker.called_afterCall, SocketWorker.called_popFront, hcalled]
      exact fun hfalse => by cases hfalse
  · -- the next loop
    have hset := h.setWorker hw w (.draining w.serial loop') rfl (h.live_some hw)
    rw [← hw] at hset
    apply hset
    · rintro n loop ⟨rfl, rfl⟩
      exact hlt
    · rintro loop'' ⟨rfl, rfl⟩
      refine ⟨hcalled, fun before hrank => ?_⟩
      have hcase : before = loop ∨ before.rank < loop.rank := by
        cases loop <;> cases hnext <;> cases before <;> simp_all [Callback.rank]
      rcases hcase with rfl | hlt
      · exact hdeque
      · exact hbefore before hlt
    · exact h.emptied w hw
  · -- `onCall` returns
    have hlive : ∀ a ∈ w.clients, s.sockets.serial a ≠ none := h.live_some hw
    apply h.setWorker hw { w with called := false } .idle rfl hlive
    · rintro n loop ⟨⟩
    · rintro loop' ⟨⟩
    · intro _ before
      have hcase : before = loop ∨ before.rank < loop.rank := by
        cases loop <;> cases hnext
        cases before <;> simp [Callback.rank]
      rcases hcase with rfl | hlt
      · exact hdeque
      · exact hbefore before hlt

theorem ret (h : s.Ok) (hstep : s.ret = some t) : t.Ok := by
  obtain ⟨n, loop, cur, w, hcontrol, hw, rfl, rfl⟩ := ret_cases hstep
  have hloop : s.control.loop? = some (w.serial, loop) := by rw [hcontrol, Control.loop?]
  obtain ⟨hcalled, hbefore⟩ := h.drained w loop hw hloop
  apply h.setWorker hw (w.afterCall loop cur) (.draining w.serial loop)
    (SocketWorker.serial_afterCall w loop cur)
  · intro a ha
    exact h.live_some hw a (SocketWorker.clients_afterCall_subset w loop cur ha)
  · rintro n loop ⟨rfl, rfl⟩
    exact h.loop_lt _ _ hloop
  · rintro loop' ⟨rfl, rfl⟩
    rw [SocketWorker.called_afterCall]
    refine ⟨hcalled, fun loop'' hrank => ?_⟩
    rw [SocketWorker.deque_afterCall]
    exact hbefore loop'' hrank
  · rw [SocketWorker.called_afterCall, hcalled]
    exact fun hfalse => by cases hfalse

theorem addRef {a : SocketPtr} {sockets : Arena SocketPtr Unit} (h : s.Ok)
    (hnew : s.sockets.construct a () = some sockets) :
    Ok { s with sockets := sockets }.addRef := by
  have hsize := Arena.size_of_construct hnew
  unfold State.addRef
  split
  · next hfirst =>
      -- the first socket: `new SocketWorker`
      exact {
        count := by rw [hsize, h.count]
        shared := by simp
        live := by simp [State.clients]
        serial_lt := by
          rintro _ ⟨rfl⟩
          exact Nat.lt_succ_self _
        loop_lt := fun n loop hloop => Nat.lt_succ_of_lt (h.loop_lt n loop hloop)
        drained := by
          rintro _ loop ⟨rfl⟩ hloop
          exact absurd (h.loop_lt _ loop hloop) (Nat.lt_irrefl _)
        emptied := by
          rintro _ ⟨rfl⟩ - loop
          cases loop <;> rfl }
  · next hmore =>
      exact {
        count := by rw [hsize, h.count]
        shared := by
          have hpos : s.refCounter ≠ 0 := fun hzero => hmore (by rw [hzero])
          constructor
          · intro hnone
            exact absurd (h.shared.mp hnone) hpos
          · intro hzero
            cases hzero
        live := by
          intro c hc
          rw [Arena.serial_of_construct hnew]
          split_ifs
          · exact Option.some_ne_none _
          · exact h.live c hc
        serial_lt := h.serial_lt
        loop_lt := h.loop_lt
        drained := h.drained
        emptied := h.emptied }

theorem construct {a : SocketPtr} {registers : Option Bool} (h : s.Ok)
    (hstep : s.construct a registers = some t) : t.Ok := by
  obtain ⟨sockets, -, hnew, ⟨-, rfl⟩ | ⟨added, w, -, hw, rfl⟩⟩ := construct_cases hstep
  · exact h.addRef hnew
  · have hok := h.addRef hnew
    apply hok.setWorker hw (w.registerSocket a added) _ (SocketWorker.serial_registerSocket w _ _)
    · intro c hc
      rcases Finset.mem_insert.mp (SocketWorker.clients_registerSocket_subset w a added hc) with
        rfl | hold
      · have hserial : sockets.serial c = some s.sockets.born := by
          rw [Arena.serial_of_construct hnew, if_pos rfl]
        have hsockets : State.sockets { s with sockets := sockets }.addRef = sockets := by
          unfold State.addRef
          split <;> rfl
        rw [hsockets, hserial]
        exact Option.some_ne_none _
      · exact hok.live_some hw c hold
    · exact hok.loop_lt
    · intro loop hloop
      rw [SocketWorker.called_registerSocket]
      refine ⟨(hok.drained w loop hw hloop).1, fun loop' hrank => ?_⟩
      rw [SocketWorker.deque_registerSocket]
      exact (hok.drained w loop hw hloop).2 loop' hrank
    · rw [SocketWorker.called_registerSocket]
      intro hcalled loop
      rw [SocketWorker.deque_registerSocket]
      exact hok.emptied w hw hcalled loop

theorem destroy {a : SocketPtr} (h : s.Ok) (hstep : s.destroy a = some t) : t.Ok := by
  obtain ⟨i, w, -, hi, hw, rfl⟩ := destroy_cases hstep
  have hobject : s.sockets.object a ≠ none := by
    rw [Ne, ← Arena.serial_eq_none, hi]
    exact Option.some_ne_none _
  have hsize := Arena.size_destroy hobject
  have hcount := h.count
  unfold State.release
  split
  · next hlast =>
      -- the last socket: `delete sta`
      exact {
        count := by
          change s.refCounter - 1 = (s.sockets.destroy a).size
          omega
        shared := by simpa using hlast
        live := by simp [State.clients]
        serial_lt := by simp
        loop_lt := h.loop_lt
        drained := by simp
        emptied := by simp }
  · next hmore =>
      exact {
        count := by
          change s.refCounter - 1 = (s.sockets.destroy a).size
          omega
        shared := by simpa using hmore
        live := by
          intro c hc
          rw [clients_some rfl] at hc
          obtain ⟨hne, hc⟩ := Finset.mem_erase.mp hc
          rw [Arena.serial_destroy, if_neg hne]
          exact h.live_some hw c hc
        serial_lt := by
          rintro _ ⟨rfl⟩
          exact h.serial_lt w hw
        loop_lt := h.loop_lt
        drained := by
          rintro _ loop ⟨rfl⟩ hloop
          refine ⟨(h.drained w loop hw hloop).1, fun loop' hrank => ?_⟩
          rw [SocketWorker.deque_deregisterSocket]
          exact (h.drained w loop hw hloop).2 loop' hrank
        emptied := by
          rintro _ ⟨rfl⟩ hcalled loop
          rw [SocketWorker.deque_deregisterSocket]
          exact h.emptied w hw hcalled loop }

/-- Every step keeps the invariant. -/
theorem step {act : Action} (h : s.Ok) (hstep : s.step act = some t) : t.Ok := by
  cases act with
  | collect batch => exact h.collect hstep
  | dispatch => exact h.dispatch hstep
  | turn => exact h.turn hstep
  | ret => exact h.ret hstep
  | construct a registers => exact h.construct hstep
  | destroy a => exact h.destroy hstep

/-- Every state of a run from a state that meets the invariant meets it. -/
theorem run {tr : List (State × Action)} (hrun : Runs s tr t) (h : s.Ok) : t.Ok :=
  hrun.invariant (fun _ _ _ hok hstep => hok.step hstep) h

end Ok

/-! ## Registrations -/

/-- The socket `i` lives at `a` and is registered. -/
def RegisteredAt (s : State) (a : SocketPtr) (i : ℕ) : Prop :=
  s.sockets.serial a = some i ∧ a ∈ s.clients

@[simp] theorem sockets_addRef (s : State) : s.addRef.sockets = s.sockets := by
  unfold addRef
  split <;> rfl

@[simp] theorem control_addRef (s : State) : s.addRef.control = s.control := by
  unfold addRef
  split <;> rfl

theorem clients_addRef_subset (s : State) : s.addRef.clients ⊆ s.clients := by
  unfold addRef
  split
  · rw [clients_some rfl]
    exact Finset.empty_subset _
  · exact Finset.Subset.refl _

@[simp] theorem sockets_release (s : State) : s.release.sockets = s.sockets := by
  unfold release
  split <;> rfl

@[simp] theorem control_release (s : State) : s.release.control = s.control := by
  unfold release
  split <;> rfl

theorem clients_release_subset (s : State) : s.release.clients ⊆ s.clients := by
  unfold release
  split
  · rw [clients_none rfl]
    exact Finset.empty_subset _
  · exact Finset.Subset.refl _

/-- What a step of the loop thread in `onCall` leaves alone. -/
theorem turn_frame (h : s.turn = some t) : t.sockets = s.sockets ∧ t.clients ⊆ s.clients := by
  obtain ⟨n, loop, w, -, hw, rfl, hcase⟩ := turn_cases h
  rw [clients_some hw]
  rcases hcase with ⟨cur, rest, -, -, rfl⟩ | ⟨cur, rest, -, -, rfl⟩ |
    ⟨loop', -, -, rfl⟩ | ⟨-, -, rfl⟩
  · rw [clients_some rfl, SocketWorker.clients_popFront]
    exact ⟨rfl, Finset.Subset.refl _⟩
  · rw [clients_some rfl]
    refine ⟨rfl, (SocketWorker.clients_afterCall_subset _ loop cur).trans ?_⟩
    rw [SocketWorker.clients_popFront]
  · refine ⟨rfl, ?_⟩
    rw [← clients_some hw]
    exact Finset.Subset.refl _
  · rw [clients_some rfl]
    exact ⟨rfl, Finset.Subset.refl _⟩

/-- What a constructor does to the sockets and their registrations. -/
theorem construct_frame {a : SocketPtr} {registers : Option Bool}
    (h : s.construct a registers = some t) :
    t.control = s.control ∧ s.sockets.construct a () = some t.sockets ∧
      t.clients ⊆ insert a s.clients := by
  obtain ⟨sockets, -, hnew, ⟨-, rfl⟩ | ⟨added, w, -, hw, rfl⟩⟩ := construct_cases h
  · rw [control_addRef, sockets_addRef]
    exact ⟨rfl, hnew, (clients_addRef_subset _).trans (Finset.subset_insert _ _)⟩
  · refine ⟨control_addRef _, ?_, ?_⟩
    · have hsockets := sockets_addRef { s with sockets := sockets }
      rw [hnew]
      exact congrArg some hsockets.symm
    · rw [clients_some rfl]
      refine (SocketWorker.clients_registerSocket_subset w a added).trans
        (Finset.insert_subset_insert a ?_)
      rw [← clients_some hw]
      exact clients_addRef_subset _

/-- What a destructor does to the sockets and their registrations. -/
theorem destroy_frame {a : SocketPtr} (h : s.destroy a = some t) :
    t.control = s.control ∧ t.sockets = s.sockets.destroy a ∧ t.clients ⊆ s.clients := by
  obtain ⟨i, w, -, -, hw, rfl⟩ := destroy_cases h
  refine ⟨control_release _, sockets_release _, (clients_release_subset _).trans ?_⟩
  rw [clients_some rfl, clients_some hw]
  exact Finset.erase_subset _ _

/-- **Registrations.**  A step takes registrations away, or adds that of a socket it has
just constructed. -/
theorem registered_of_step {act : Action} (hstep : s.step act = some t) {a : SocketPtr} {i : ℕ}
    (h : t.RegisteredAt a i) : s.RegisteredAt a i ∨ i = s.sockets.born := by
  obtain ⟨hserial, hclient⟩ := h
  cases act with
  | collect batch =>
      obtain ⟨w, hw, -, rfl⟩ := collect_cases hstep
      rw [clients_some rfl, SocketWorker.clients_run, ← clients_some hw] at hclient
      exact .inl ⟨hserial, hclient⟩
  | dispatch =>
      obtain ⟨w, -, -, -, rfl⟩ := dispatch_cases hstep
      exact .inl ⟨hserial, hclient⟩
  | turn =>
      obtain ⟨hsockets, hsub⟩ := turn_frame hstep
      rw [hsockets] at hserial
      exact .inl ⟨hserial, hsub hclient⟩
  | ret =>
      obtain ⟨n, loop, cur, w, -, hw, rfl, rfl⟩ := ret_cases hstep
      have hsub := SocketWorker.clients_afterCall_subset w loop cur
      rw [← clients_some hw] at hsub
      exact .inl ⟨hserial, hsub hclient⟩
  | construct a' registers =>
      obtain ⟨-, hnew, hsub⟩ := construct_frame hstep
      rw [Arena.serial_of_construct hnew] at hserial
      split_ifs at hserial with ha
      · exact .inr (Option.some.inj hserial).symm
      · rcases Finset.mem_insert.mp (hsub hclient) with hnewest | hold
        · exact absurd hnewest ha
        · exact .inl ⟨hserial, hold⟩
  | destroy a' =>
      obtain ⟨-, hsockets, hsub⟩ := destroy_frame hstep
      rw [hsockets, Arena.serial_destroy] at hserial
      split_ifs at hserial with ha
      exact .inl ⟨hserial, hsub hclient⟩

theorem born_le_of_step {act : Action} (hstep : s.step act = some t) :
    s.sockets.born ≤ t.sockets.born := by
  cases act with
  | collect batch =>
      obtain ⟨w, -, -, rfl⟩ := collect_cases hstep
      exact Nat.le_refl _
  | dispatch =>
      obtain ⟨w, -, -, -, rfl⟩ := dispatch_cases hstep
      exact Nat.le_refl _
  | turn => rw [(turn_frame hstep).1]
  | ret =>
      obtain ⟨n, loop, cur, w, -, -, rfl, rfl⟩ := ret_cases hstep
      exact Nat.le_refl _
  | construct a registers =>
      rw [Arena.born_of_construct (construct_frame hstep).2.1]
      exact Nat.le_succ _
  | destroy a => rw [(destroy_frame hstep).2.1, Arena.born_destroy]

end State

end Epoll

end Craplib
