import Craplib.Lib.Histories
import Craplib.Socket.EpollSteps

/-!
# What the epoll dispatch reaches

The deques of the worker hold bare addresses that outlive the sockets they name, and the
callbacks change `clients` while the deques are drained.  `dispatch_reaches_registered`
says that the guards of `onCall` are enough: every callback goes to a socket that is
registered and alive when it is made, no socket gets `onDisconnect` twice, and after it
none gets anything.

A socket is named by its serial number there, not by its address, so the result covers an
allocator that puts a new socket where an old one was.  What carries it is
`Disconnected`: a socket that has had its `onDisconnect` is not registered any more,
except while that callback is still running.
-/

namespace Craplib

namespace Epoll

open Machine

/-! ## Callbacks and destructions -/

/-- What happens to a socket. -/
inductive Event
  | called (cb : Callback)
  | destroyed
deriving DecidableEq

namespace State

variable {s t : State}

/-- The call that an action makes: the member function, and the pointer it is called
through. -/
def calls (s : State) (act : Action) : Option (Callback × SocketPtr) :=
  match act, (s.step act).map State.control with
  | .turn, some (.calling _ cb cur) => some (cb, cur)
  | _, _ => none

/-- What an action does to which socket. -/
def event (s : State) (act : Action) : Option (ℕ × Event) :=
  match act with
  | .destroy a => (s.sockets.serial a).map (·, .destroyed)
  | _ => (s.calls act).bind fun c => (s.sockets.serial c.2).map (·, .called c.1)

/-- What has happened to the socket `i` in a trace. -/
abbrev history (i : ℕ) (tr : List (State × Action)) : List Event :=
  Machine.history State.event i tr

/-- A call is made by a turn of the loop of `onCall` for such calls, through the front of
its deque, and the socket there is registered. -/
theorem calls_cases {act : Action} (hstep : s.step act = some t) {cb : Callback}
    {cur : SocketPtr} (h : s.calls act = some (cb, cur)) :
    act = .turn ∧ ∃ n w rest, s.control = .draining n cb ∧ s.sta = some w ∧ w.serial = n ∧
      w.deque cb = cur :: rest ∧ cur ∈ w.clients ∧
      t = { s with sta := some (w.popFront cb), control := .calling n cb cur } := by
  unfold calls at h
  rw [hstep] at h
  cases act with
  | turn =>
      refine ⟨rfl, ?_⟩
      obtain ⟨n, loop, w, hcontrol, hw, hserial, hcase⟩ := turn_cases hstep
      rcases hcase with ⟨cur', rest, hdeque, hmem, rfl⟩ | ⟨cur', rest, -, -, rfl⟩ |
        ⟨loop', -, -, rfl⟩ | ⟨-, -, rfl⟩
      · cases h
        exact ⟨n, w, rest, hcontrol, hw, hserial, hdeque, hmem, rfl⟩
      · rw [Option.map_some, hcontrol] at h
        cases h
      · cases h
      · cases h
  | collect batch => cases h
  | dispatch => cases h
  | ret => cases h
  | construct a registers => cases h
  | destroy a => cases h

/-- The socket that a call goes to is alive and registered. -/
theorem event_called {act : Action} (hstep : s.step act = some t) {i : ℕ} {cb : Callback}
    (h : s.event act = some (i, .called cb)) :
    ∃ n cur, s.control = .draining n cb ∧ s.RegisteredAt cur i ∧
      t.control = .calling n cb cur ∧ t.sockets = s.sockets := by
  have hcalls : ∃ cur, s.calls act = some (cb, cur) ∧ s.sockets.serial cur = some i := by
    cases act with
    | destroy a =>
        obtain ⟨j, -, hj⟩ := Option.map_eq_some_iff.mp h
        cases hj
    | _ =>
        simp only [event] at h
        obtain ⟨c, hc, h⟩ := Option.bind_eq_some_iff.mp h
        obtain ⟨j, hj, hji⟩ := Option.map_eq_some_iff.mp h
        cases hji
        exact ⟨c.2, hc, hj⟩
  obtain ⟨cur, hcall, hserial⟩ := hcalls
  obtain ⟨rfl, n, w, rest, hcontrol, hw, -, -, hmem, rfl⟩ := calls_cases hstep hcall
  rw [← clients_some hw] at hmem
  exact ⟨n, cur, hcontrol, ⟨hserial, hmem⟩, rfl, rfl⟩

/-! ## After the disconnect -/

/-- The socket `i` has no registration left, except that of the callback that is just
telling it so. -/
structure Disconnected (s : State) (i : ℕ) : Prop where
  born : i < s.sockets.born
  gone : ∀ a, s.RegisteredAt a i → ∃ n, s.control = .calling n .onDisconnect a

theorem Disconnected.step {act : Action} {i : ℕ} (h : s.Disconnected i)
    (hstep : s.step act = some t) : t.Disconnected i := by
  refine ⟨Nat.lt_of_lt_of_le h.born (born_le_of_step hstep), fun a ha => ?_⟩
  have hold : s.RegisteredAt a i :=
    (registered_of_step hstep ha).resolve_right (Nat.ne_of_lt h.born)
  obtain ⟨n, hcontrol⟩ := h.gone a hold
  cases act with
  | collect batch =>
      obtain ⟨w, -, -, rfl⟩ := collect_cases hstep
      exact ⟨n, hcontrol⟩
  | dispatch =>
      obtain ⟨w, -, hidle, -, -⟩ := dispatch_cases hstep
      rw [hcontrol] at hidle
      cases hidle
  | turn =>
      obtain ⟨m, loop, w, hdraining, -⟩ := turn_cases hstep
      rw [hcontrol] at hdraining
      cases hdraining
  | ret =>
      -- the callback returns, and `deregisterSocket` takes the registration away
      obtain ⟨m, loop, cur, w, hcalling, hw, -, rfl⟩ := ret_cases hstep
      rw [hcontrol] at hcalling
      cases hcalling
      have hclient := ha.2
      rw [clients_some rfl] at hclient
      exact absurd rfl (Finset.mem_erase.mp hclient).1
  | construct a' registers => exact ⟨n, (construct_frame hstep).1.trans hcontrol⟩
  | destroy a' => exact ⟨n, (destroy_frame hstep).1.trans hcontrol⟩

/-- A socket that gets `onDisconnect` is disconnected. -/
theorem disconnected_of_called {act : Action} (hstep : s.step act = some t) {i : ℕ}
    (h : s.event act = some (i, .called .onDisconnect)) : t.Disconnected i := by
  obtain ⟨n, cur, -, ⟨hserial, -⟩, hcontrol, hsockets⟩ := event_called hstep h
  refine ⟨?_, fun a ha => ⟨n, ?_⟩⟩
  · rw [hsockets]
    exact Arena.serial_lt_born hserial
  · have hserial' := ha.1
    rw [hsockets] at hserial'
    rw [hcontrol, Arena.serial_injective hserial hserial']

/-- A disconnected socket is not called. -/
theorem Disconnected.not_called {act : Action} {i : ℕ} (h : s.Disconnected i)
    (hstep : s.step act = some t) (cb : Callback) : s.event act ≠ some (i, .called cb) := by
  intro hevent
  obtain ⟨n, cur, hdraining, hreg, -⟩ := event_called hstep hevent
  obtain ⟨m, hcalling⟩ := h.gone cur hreg
  rw [hdraining] at hcalling
  cases hcalling

end State

/-- An event that is a call. -/
def Event.isCall : Event → Prop
  | .called _ => True
  | .destroyed => False

/-- In every history, `onDisconnect` is the last call. -/
theorem onDisconnect_closes {tr : List (State × Action)} {s : State} (hrun : Runs .init tr s)
    (i : ℕ) :
    Closes (.called .onDisconnect) Event.isCall (State.history i tr) ∧
      (.called .onDisconnect ∈ State.history i tr → s.Disconnected i) := by
  induction hrun with
  | nil => exact ⟨Closes.nil, fun hin => by simp at hin⟩
  | @snoc tr s t act hrun hstep ih =>
      obtain ⟨hcloses, hdisc⟩ := ih
      unfold State.history
      rw [history_snoc]
      constructor
      · apply hcloses.snoc_toList
        intro e he hcall hbefore
        cases e with
        | called cb =>
            exact (hdisc hbefore).not_called hstep cb (eventAbout_eq_some.mp he)
        | destroyed => exact hcall
      · intro hin
        rcases List.mem_append.mp hin with hbefore | hnow
        · exact (hdisc hbefore).step hstep
        · rw [Option.mem_toList, eventAbout_eq_some] at hnow
          exact State.disconnected_of_called hstep hnow

/-- **The dispatch reaches registered sockets only.**  In every run of the two threads,
whatever the callbacks construct and destroy, and whatever addresses are used again:
every call of `onCall` goes to a socket that is registered and alive at that moment, each
socket gets `onDisconnect` at most once, and no call after it. -/
theorem dispatch_reaches_registered {tr : List (State × Action)} {s : State}
    (hrun : Runs .init tr s) :
    (∀ p ∈ tr, ∀ cb cur, p.1.calls p.2 = some (cb, cur) →
      cur ∈ p.1.clients ∧ ∃ i, p.1.sockets.serial cur = some i) ∧
    (∀ i, (State.history i tr).count (.called .onDisconnect) ≤ 1) ∧
    (∀ i before after,
      State.history i tr = before ++ .called .onDisconnect :: after →
        ∀ cb, .called cb ∉ after) := by
  refine ⟨fun p hp cb cur hcall => ?_, fun i => ?_, fun i before after hsplit cb hin => ?_⟩
  · obtain ⟨pre, post, t, -, hpre, hstep, -⟩ := hrun.of_mem hp
    have hok := State.Ok.init.run hpre
    obtain ⟨-, n, w, rest, -, hw, -, -, hmem, -⟩ := State.calls_cases hstep hcall
    rw [← State.clients_some hw] at hmem
    exact ⟨hmem, Option.ne_none_iff_exists'.mp (hok.live cur hmem)⟩
  · exact (onDisconnect_closes hrun i).1.count_le_one trivial
  · exact (onDisconnect_closes hrun i).1.after_last hsplit _ hin trivial

/-- A socket that is destroyed in its own `onDisconnect`, with a new one constructed in
its place, while another socket stays alive. -/
theorem dispatch_reaches_registered_example : ∃ tr s, Runs .init tr s ∧
    actions tr = [.construct 1 (some true), .construct 2 (some true),
      .collect ⟨[⟨EPOLLHUP, 1⟩, ⟨EPOLLIN ||| EPOLLOUT, 2⟩], by decide, by decide⟩, .dispatch,
      .turn, .destroy 1, .construct 1 (some true), .ret, .turn, .turn, .ret, .turn, .turn] ∧
    (∀ p ∈ tr, ∀ cb cur, p.1.calls p.2 = some (cb, cur) →
      cur ∈ p.1.clients ∧ ∃ i, p.1.sockets.serial cur = some i) ∧
    (∀ i, (State.history i tr).count (.called .onDisconnect) ≤ 1) ∧
    (∀ i before after,
      State.history i tr = before ++ .called .onDisconnect :: after →
        ∀ cb, .called cb ∉ after) := by
  have hexec : (exec State.step .init [.construct 1 (some true), .construct 2 (some true),
      .collect ⟨[⟨EPOLLHUP, 1⟩, ⟨EPOLLIN ||| EPOLLOUT, 2⟩], by decide, by decide⟩, .dispatch,
      .turn, .destroy 1, .construct 1 (some true), .ret, .turn, .turn, .ret, .turn,
      .turn]).isSome = true := by decide
  obtain ⟨s, hs⟩ := Option.isSome_iff_exists.mp hexec
  obtain ⟨tr, hrun, hacts⟩ := exec_run _ _ _ _ hs
  exact ⟨tr, s, hrun, hacts, dispatch_reaches_registered hrun⟩

end Epoll

end Craplib
