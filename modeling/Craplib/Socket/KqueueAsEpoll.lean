import Craplib.Socket.EpollRegistered
import Craplib.Socket.KqueueLive

/-!
# The kqueue worker as an epoll worker

The two backends are written apart, and what the kernel tells them is not the same: `kevent`
reports the filters of a descriptor one by one, `epoll_wait` all of its bits at once.  `asEpoll`
translates: the event of a filter becomes one with the bit for reading or for writing, and a
failed event gets the bit of a hangup as well.

`runs_as_epoll` says that under this translation the kqueue worker goes through the states of
an epoll worker, step by step and either way, until one of two things comes between them.  The
epoll worker is full: a socket that is constructed then is registered by one and not by the
other.  Or `onCall` comes to remove a socket that is gone: the epoll worker erases its pointer,
the kqueue worker would have to read through it (`RemovesLive`; a run that spares its sockets
does not get there).
-/

namespace Craplib

namespace Kqueue

open Epoll (SocketPtr Callback SocketWorker Control EpollEvent EPOLLIN EPOLLPRI EPOLLOUT EPOLLERR
  EPOLLHUP EPOLLRDHUP MAX_CONNECTIONS)

/-! ## Events -/

/-- The bit for what a filter reports. -/
def Filter.bit : Filter → UInt32
  | .EVFILT_READ => EPOLLIN
  | .EVFILT_WRITE => EPOLLOUT

/-- An event of `kevent`, as `epoll_wait` would report it. -/
def Kevent.asEpoll (ev : Kevent) : EpollEvent where
  events := if ev.failed then ev.filter.bit ||| EPOLLHUP else ev.filter.bit
  ptr := ev.udata

def Batch.asEpoll (batch : Batch) : Epoll.Batch where
  events := batch.events.map Kevent.asEpoll
  pos := by
    rw [List.length_map]
    exact batch.pos
  le := by
    rw [List.length_map]
    exact batch.le

/-- What the conditions of the epoll worker say of a translated event. -/
theorem bits_asEpoll (ev : Kevent) :
    ev.asEpoll.hangup = ev.failed ∧
    (ev.asEpoll.has EPOLLIN || ev.asEpoll.has EPOLLPRI) = decide (ev.filter = .EVFILT_READ) ∧
    ev.asEpoll.has EPOLLOUT = decide (ev.filter = .EVFILT_WRITE) := by
  simp only [EpollEvent.hangup, EpollEvent.has, Kevent.asEpoll]
  cases ev.failed
  · cases ev.filter <;> decide
  · cases ev.filter <;> decide

/-- The deque that a translated event goes to. -/
theorem goesTo_asEpoll (ev : Kevent) :
    SocketWorker.goesTo .onDisconnect ev.asEpoll = ev.failed ∧
    SocketWorker.goesTo .onCanRead ev.asEpoll =
      (!ev.failed && decide (ev.filter = .EVFILT_READ)) ∧
    SocketWorker.goesTo .onCanWrite ev.asEpoll =
      (!ev.failed && decide (ev.filter = .EVFILT_WRITE)) := by
  obtain ⟨hhangup, hread, hwrite⟩ := bits_asEpoll ev
  rw [SocketWorker.goesTo, SocketWorker.goesTo, SocketWorker.goesTo, hhangup, hread, hwrite]
  exact ⟨rfl, rfl, rfl⟩

/-- A worker puts a socket on the deque on which it puts it for the translated event. -/
theorem classify_asEpoll (w : SocketWorker) (ev : Kevent) :
    w.classify ev.asEpoll = classify w ev := by
  obtain ⟨herr, hread, hwrite⟩ := goesTo_asEpoll ev
  rw [SocketWorker.classify_eq, classify_eq, herr, hread, hwrite]
  rfl

theorem run_asEpoll (w : SocketWorker) (batch : Batch) : w.run batch.asEpoll = run w batch := by
  have hfold : ∀ evs : List Kevent, ∀ w : SocketWorker,
      (evs.map Kevent.asEpoll).foldl SocketWorker.classify w = evs.foldl classify w := by
    intro evs
    induction evs with
    | nil => exact fun _ => rfl
    | cons ev rest ih =>
        intro w
        rw [List.map_cons, List.foldl_cons, List.foldl_cons, classify_asEpoll, ih]
  unfold SocketWorker.run run
  rw [Batch.asEpoll, hfold]

/-! ## Steps -/

/-- A step of the kqueue worker, as one of the epoll worker. -/
def Action.asEpoll : Action → Epoll.Action
  | .collect batch => .collect batch.asEpoll
  | .dispatch => .dispatch
  | .turn => .turn
  | .ret => .ret
  | .construct a _ registers => .construct a (if registers then some true else none)
  | .destroy a => .destroy a

namespace State

/-- The epoll worker is not full when a socket is registered. -/
def HasRoom (s : State) : Action → Prop
  | .construct _ _ true => s.clients.card < MAX_CONNECTIONS - 1
  | _ => True

instance : ∀ s : State, DecidablePred s.HasRoom
  | s, .construct _ _ true => inferInstanceAs (Decidable (s.clients.card < MAX_CONNECTIONS - 1))
  | _, .construct _ _ false | _, .collect _ | _, .dispatch | _, .turn | _, .ret | _, .destroy _ =>
      inferInstanceAs (Decidable True)

/-- The step does not hand the pointer of a socket that is gone to `deregisterSocket`. -/
def RemovesLive (s : State) : Action → Prop
  | .turn | .ret => ∀ cur, s.nextRemoval = some cur → s.sockets.serial cur ≠ none
  | _ => True

variable {s t : State}

/-- A step that can be taken removes a live socket, if any. -/
theorem removesLive_of_step {act : Action} (h : s.step act = some t) : s.RemovesLive act := by
  have hlive : ∀ {u v : State} {cur : SocketPtr}, u.afterCall .onDisconnect cur = some v →
      u.sockets = s.sockets → s.sockets.serial cur ≠ none := by
    intro u v cur hafter hsame
    obtain ⟨i, hi, -⟩ := deregisterSocket_cases hafter
    rw [← hsame, hi]
    exact Option.some_ne_none i
  cases act with
  | turn =>
      intro cur hnext
      obtain ⟨n, w, hw, -, ⟨hcontrol, rest, herr, hmem⟩ | hcalling⟩ := nextRemoval_cases hnext
      · obtain ⟨n', loop, w', hcontrol', hw', -, hcase⟩ := turn_cases h
        obtain ⟨rfl, rfl⟩ := Control.draining.inj (hcontrol.symm.trans hcontrol')
        obtain rfl : w = w' := Option.some.inj (hw.symm.trans hw')
        have hdeque : w.deque .onDisconnect = cur :: rest := herr
        rw [hdeque] at hcase
        rcases hcase with ⟨front, rest', i, heq, hin, -⟩ | ⟨front, rest', heq, -, hafter⟩ |
          ⟨loop', hnil, -⟩ | ⟨hnil, -⟩
        · obtain rfl := (List.cons.inj heq).1
          exact absurd hin hmem
        · obtain rfl := (List.cons.inj heq).1
          exact hlive hafter rfl
        · cases hnil
        · cases hnil
      · obtain ⟨n', loop, w', hcontrol', -⟩ := turn_cases h
        rw [hcalling] at hcontrol'
        cases hcontrol'
  | ret =>
      intro cur hnext
      obtain ⟨n', loop, cur', w', u, hcontrol', -, -, hafter, -⟩ := ret_cases h
      obtain ⟨n, w, -, -, ⟨hcontrol, -⟩ | hcalling⟩ := nextRemoval_cases hnext
      · rw [hcontrol] at hcontrol'
        cases hcontrol'
      · rw [hcalling] at hcontrol'
        cases hcontrol'
        exact hlive hafter rfl
  | _ => trivial

/-- What is left of a turn can be done, if the socket to be removed lives. -/
theorem exists_afterCall (loop : Callback) {cur : SocketPtr}
    (hlive : loop = .onDisconnect → s.sockets.serial cur ≠ none) :
    ∃ u, s.afterCall loop cur = some u := by
  cases loop with
  | onDisconnect =>
      obtain ⟨i, hi⟩ := Option.ne_none_iff_exists'.mp (hlive rfl)
      exact ⟨_, deregisterSocket_eq hi⟩
  | onCanRead | onCanWrite => exact ⟨s, rfl⟩

/-- A constructor finds a worker, with the clients there were. -/
theorem exists_worker (hok : s.toState.Ok) {a : SocketPtr} {sockets : Arena SocketPtr Unit}
    (hnew : s.sockets.construct a () = some sockets) :
    ∃ w, Epoll.State.sta { s.toState with sockets := sockets }.addRef = some w ∧
      w.clients = s.clients := by
  have hok' := hok.addRef hnew
  have hsome : Epoll.State.sta { s.toState with sockets := sockets }.addRef ≠ none := by
    intro hnone
    have hzero := hok'.shared.mp hnone
    rw [hok'.count, Epoll.State.sockets_addRef, Arena.size_of_construct hnew] at hzero
    exact Nat.succ_ne_zero _ hzero
  obtain ⟨w, hw⟩ := Option.ne_none_iff_exists'.mp hsome
  have hclients :=
    Epoll.State.clients_addRef (s := { s.toState with sockets := sockets }) hok.shared
  rw [Epoll.State.clients_some hw] at hclients
  exact ⟨w, hw, hclients⟩

theorem construct_epoll (hok : s.toState.Ok) {a : SocketPtr} {fd : ℕ} {registers : Bool}
    (hroom : s.HasRoom (.construct a fd registers))
    (h : s.construct a fd registers = some t) :
    s.toState.construct a (if registers then some true else none) = some t.toState := by
  obtain ⟨sockets, huser, hnew, -, -, ⟨rfl, ht⟩ | ⟨rfl, ht⟩⟩ := construct_cases h
  · simp only [Epoll.State.construct, if_pos huser, hnew, Option.bind_eq_bind, Option.bind_some, ht,
      Bool.false_eq_true, if_false]
  · obtain ⟨w, hw, hclients⟩ := exists_worker hok hnew
    have hregister : w.registerSocket a true = { w with clients := insert a w.clients } := by
      have hsmall : ¬ MAX_CONNECTIONS - 1 ≤ w.clients.card :=
        Nat.not_le.mpr (hclients ▸ hroom)
      rw [SocketWorker.registerSocket, if_neg hsmall]
      rfl
    simp only [Epoll.State.construct, if_pos huser, hnew, Option.bind_eq_bind, Option.bind_some,
      if_true, hw, hregister, ht, enroll, Option.map_some]

/-- **What the kqueue worker does the epoll worker does.** -/
theorem step_epoll (hok : s.toState.Ok) {act : Action} (hroom : s.HasRoom act)
    (h : s.step act = some t) : s.toState.step act.asEpoll = some t.toState := by
  cases act with
  | collect batch =>
      obtain ⟨w, hw, hcalled, rfl⟩ := collect_cases h
      change s.toState.collect batch.asEpoll = _
      simp only [Epoll.State.collect, run_asEpoll, hw, hcalled, Option.bind_eq_bind,
        Option.bind_some, Bool.false_eq_true, if_false]
  | dispatch => exact (dispatch_epoll h).1
  | turn => exact turn_epoll h
  | ret => exact ret_epoll h
  | construct a fd registers => exact construct_epoll hok hroom h
  | destroy a => exact (destroy_epoll h).1

/-- **What the epoll worker can do the kqueue worker can do**, unless it would have to read
through the pointer of a socket that is gone. -/
theorem step_of_epoll (hok : s.toState.Ok) {act : Action} {u : Epoll.State}
    (hlive : s.RemovesLive act) (h : s.toState.step act.asEpoll = some u) :
    ∃ t, s.step act = some t := by
  cases act with
  | collect batch =>
      obtain ⟨w, hw, hcalled, -⟩ := Epoll.State.collect_cases h
      simp only [step, collect, hw, hcalled, Option.bind_eq_bind, Option.bind_some,
        Bool.false_eq_true, if_false]
      exact ⟨_, rfl⟩
  | dispatch =>
      have hdispatch : s.toState.dispatch = some u := h
      simp only [step, dispatch, hdispatch, Option.bind_eq_bind, Option.bind_some]
      exact ⟨_, rfl⟩
  | turn =>
      obtain ⟨n, loop, w, hcontrol, hw, hserial, hcase⟩ := Epoll.State.turn_cases h
      have hworker : s.worker? n = some w := Epoll.State.worker?_eq_some.mpr ⟨hw, hserial⟩
      simp only [step, turn, hcontrol, hworker, Option.bind_eq_bind, Option.bind_some]
      rcases hcase with ⟨cur, rest, hdeque, hmem, -⟩ | ⟨cur, rest, hdeque, hmem, -⟩ |
        ⟨loop', hdeque, hnext, -⟩ | ⟨hdeque, hnext, -⟩
      · -- the socket is registered, so it lives
        obtain ⟨i, hi⟩ := Option.ne_none_iff_exists'.mp (hok.live_some hw cur hmem)
        simp only [hdeque, if_pos hmem, hi, Option.bind_some]
        exact ⟨_, rfl⟩
      · simp only [hdeque, if_neg hmem]
        refine exists_afterCall loop fun hfirst => ?_
        subst hfirst
        exact hlive cur (nextRemoval_err hcontrol hw hserial hdeque hmem)
      · simp only [hdeque, hnext]
        exact ⟨_, rfl⟩
      · simp only [hdeque, hnext]
        exact ⟨_, rfl⟩
  | ret =>
      obtain ⟨n, loop, cur, w, hcontrol, hw, hserial, -⟩ := Epoll.State.ret_cases h
      have hworker : s.worker? n = some w := Epoll.State.worker?_eq_some.mpr ⟨hw, hserial⟩
      have hlives : loop = .onDisconnect → s.sockets.serial cur ≠ none := by
        rintro rfl
        exact hlive cur (nextRemoval_ret hcontrol hw hserial)
      obtain ⟨t, ht⟩ := exists_afterCall loop hlives
      simp only [step, ret, hcontrol, hworker, ht, Option.bind_eq_bind, Option.bind_some]
      exact ⟨_, rfl⟩
  | construct a fd registers =>
      obtain ⟨sockets, huser, hnew, -⟩ := Epoll.State.construct_cases h
      simp only [step, construct, if_pos huser, hnew, Option.bind_eq_bind, Option.bind_some]
      exact ⟨_, rfl⟩
  | destroy a =>
      obtain ⟨i, w, huser, hi, hw, -⟩ := Epoll.State.destroy_cases h
      simp only [step, destroy, if_pos huser, hw, deregisterSocket_eq hi, Option.bind_eq_bind,
        Option.bind_some]
      exact ⟨_, rfl⟩

/-- Where the epoll worker is full, the two part: a socket that the kqueue worker registers is
not registered by the epoll worker. -/
theorem hasRoom_of_step (hok : s.toState.Ok) {act : Action} (hstep : s.step act = some t)
    (hepoll : s.toState.step act.asEpoll = some t.toState) : s.HasRoom act := by
  cases act with
  | construct a fd registers =>
      cases registers with
      | false => trivial
      | true =>
          have hconstruct : s.toState.construct a (some true) = some t.toState := hepoll
          obtain ⟨sockets, -, hnew, hcase⟩ := Epoll.State.construct_cases hconstruct
          obtain ⟨hnone, -⟩ | ⟨added, w, hadded, hw, ht⟩ := hcase
          · cases hnone
          obtain rfl := Option.some.inj hadded
          obtain ⟨sockets', -, hnew', -, -, ⟨hnot, -⟩ | ⟨-, henroll⟩⟩ := construct_cases hstep
          · cases hnot
          obtain rfl := Option.some.inj (hnew.symm.trans hnew')
          have hworker : w.registerSocket a true = { w with clients := insert a w.clients } := by
            have hsta := congrArg Epoll.State.sta (ht.symm.trans henroll)
            simpa only [enroll, hw, Option.map_some, Option.some.injEq] using hsta
          by_contra hfull
          have hmany : MAX_CONNECTIONS - 1 ≤ s.clients.card := Nat.not_lt.mp hfull
          obtain ⟨w', hw', hclients⟩ := exists_worker hok hnew
          obtain rfl : w = w' := Option.some.inj (hw.symm.trans hw')
          rw [SocketWorker.registerSocket, hclients, if_pos hmany] at hworker
          have hin : a ∈ s.clients := by
            rw [← hclients, congrArg SocketWorker.clients hworker]
            exact Finset.mem_insert_self a _
          exact hok.live a hin (Arena.serial_eq_none.mpr (Arena.free_of_construct hnew))
  | _ => trivial

/-! ## Runs -/

/-- A run of the kqueue worker, as one of the epoll worker. -/
def asEpoll (tr : List (State × Action)) : List (Epoll.State × Epoll.Action) :=
  tr.map fun p => (p.1.toState, p.2.asEpoll)

theorem asEpoll_run {tr : List (State × Action)} (hrun : Runs .init tr s)
    (hroom : ∀ p ∈ tr, p.1.HasRoom p.2) : Epoll.Runs .init (asEpoll tr) s.toState := by
  induction hrun with
  | nil => exact .nil
  | @snoc tr s t act hrun hstep ih =>
      have hbefore := ih fun p hp => hroom p (List.mem_append_left _ hp)
      have hnow := step_epoll (ok_run hrun Epoll.State.Ok.init) (hroom (s, act) (by simp)) hstep
      rw [asEpoll, List.map_append]
      exact .snoc hbefore hnow

/-- **The kqueue worker does what the epoll worker does**, with the events translated, in every
run in which sockets are registered only while the epoll worker has room for them: the run is
one of the epoll worker, which is in the same state after every step of it; and a next step
can be taken by one of them exactly if it can be taken by the other, and leads to the same
state, if and only if it neither registers a socket that the epoll worker has no room for, nor
reads through the pointer of a socket that is gone. -/
theorem runs_as_epoll {tr : List (State × Action)} (hrun : Runs .init tr s)
    (hroom : ∀ p ∈ tr, p.1.HasRoom p.2) :
    Epoll.Runs .init (asEpoll tr) s.toState ∧
    ∀ act, (s.step act).map (fun t => t.toState) = s.toState.step act.asEpoll ↔
      (s.step act ≠ none → s.HasRoom act) ∧
        (s.toState.step act.asEpoll ≠ none → s.RemovesLive act) := by
  have hok : s.toState.Ok := ok_run hrun Epoll.State.Ok.init
  refine ⟨asEpoll_run hrun hroom, fun act => ⟨fun heq => ⟨fun henabled => ?_, fun henabled => ?_⟩,
    fun ⟨hroom, hlive⟩ => ?_⟩⟩
  · obtain ⟨t, ht⟩ := Option.ne_none_iff_exists'.mp henabled
    rw [ht, Option.map_some] at heq
    exact hasRoom_of_step hok ht heq.symm
  · rw [← heq] at henabled
    obtain ⟨t, ht⟩ := Option.ne_none_iff_exists'.mp (mt Option.map_eq_none_iff.mpr henabled)
    exact removesLive_of_step ht
  · cases hepoll : s.toState.step act.asEpoll with
    | some u =>
        obtain ⟨t, ht⟩ := step_of_epoll hok (hlive (by simp [hepoll])) hepoll
        rw [ht, Option.map_some, ← hepoll, step_epoll hok (hroom (by simp [ht])) ht]
    | none =>
        rw [Option.map_eq_none_iff, Option.eq_none_iff_forall_ne_some]
        intro t ht
        rw [step_epoll hok (hroom (by simp [ht])) ht] at hepoll
        cases hepoll

/-- A connection that is closed while another one can be written to; its socket is destroyed in
`onDisconnect`, and a new one constructed in its place. -/
theorem runs_as_epoll_example : ∃ tr s, Runs .init tr s ∧
    Machine.actions tr = [.construct 1 5 true, .construct 2 6 true,
      .collect ⟨[⟨.EVFILT_READ, EV_EOF, 1⟩, ⟨.EVFILT_WRITE, 0, 2⟩, ⟨.EVFILT_WRITE, EV_EOF, 1⟩],
        by decide, by decide⟩,
      .dispatch, .turn, .destroy 1, .construct 1 5 true, .ret, .turn, .turn] ∧
    Epoll.Runs .init (asEpoll tr) s.toState ∧
    ((s.step .turn).map (fun t => t.toState) = s.toState.step .turn ↔
      (s.step .turn ≠ none → s.HasRoom .turn) ∧
        (s.toState.step .turn ≠ none → s.RemovesLive .turn)) := by
  let acts : List Action := [.construct 1 5 true, .construct 2 6 true,
    .collect ⟨[⟨.EVFILT_READ, EV_EOF, 1⟩, ⟨.EVFILT_WRITE, 0, 2⟩, ⟨.EVFILT_WRITE, EV_EOF, 1⟩],
      by decide, by decide⟩,
    .dispatch, .turn, .destroy 1, .construct 1 5 true, .ret, .turn, .turn]
  let s := (Machine.exec State.step .init acts).get (by decide)
  have hs : Machine.exec State.step .init acts = some s := (Option.some_get _).symm
  obtain ⟨hrun, hacts⟩ := Machine.exec_trace _ _ _ _ hs
  obtain ⟨hepoll, hnext⟩ := runs_as_epoll hrun (by decide)
  exact ⟨_, s, hrun, hacts, hepoll, hnext .turn⟩

end State

end Kqueue

end Craplib
