import Craplib.Socket.EpollLifetime
import Craplib.Socket.KqueueSteps

/-!
# Sockets that the kqueue dispatch uses after they are gone

`onCall` takes pointers from its deques and from its callbacks and hands them to
`deregisterSocket`, which reads the descriptor through them.  It does so after a callback
that may have destroyed the socket, and for entries of `err` whose socket is not
registered any more, perhaps because it is gone.  There the runs of the model end.

`Sound` says of a state that what `onCall` does next reads live sockets only, and deletes
the filters of the socket that it is removing.  `dispatch_sound` says when that holds:

* it holds all along every run in which no failed event is collected for a socket that
  is gone, and no socket is destroyed while it is on `err` or while its `onDisconnect`
  runs (`Spares`);
* and after a step that does not meet this, there is always a run in which the callbacks
  do nothing and `onCall` comes to use a socket that is gone.
-/

namespace Craplib

namespace Kqueue

open Epoll (SocketPtr Callback SocketWorker Control)

namespace State

variable {s t : State}

/-! ## What `onCall` uses -/

/-- The callback that `onCall` makes next, and the pointer it makes it through. -/
def nextCall (s : State) : Option (Callback × SocketPtr) :=
  match s.control with
  | .draining n loop => do
      let w ← s.worker? n
      match w.deque loop with
      | cur :: _ => if cur ∈ w.clients then some (loop, cur) else none
      | [] => none
  | _ => none

/-- The pointer that `onCall` hands to `deregisterSocket` next: that of a socket on `err`
which is not registered, or that of the callback which is about to return. -/
def nextRemoval (s : State) : Option SocketPtr :=
  match s.control with
  | .draining n .onDisconnect => do
      let w ← s.worker? n
      match w.err with
      | cur :: _ => if cur ∈ w.clients then none else some cur
      | [] => none
  | .calling n .onDisconnect cur => (s.worker? n).map fun _ => cur
  | _ => none

/-- Where `onCall` is when it comes to a removal. -/
theorem nextRemoval_cases {cur : SocketPtr} (h : s.nextRemoval = some cur) :
    ∃ n w, s.sta = some w ∧ w.serial = n ∧
      ((s.control = .draining n .onDisconnect ∧ ∃ rest, w.err = cur :: rest ∧ cur ∉ w.clients) ∨
        s.control = .calling n .onDisconnect cur) := by
  unfold nextRemoval at h
  split at h
  · next n hcontrol =>
      obtain ⟨w, hw, h⟩ := Option.bind_eq_some_iff.mp h
      obtain ⟨hsta, hserial⟩ := Epoll.State.worker?_eq_some.mp hw
      refine ⟨n, w, hsta, hserial, .inl ⟨hcontrol, ?_⟩⟩
      split at h
      · next front rest herr =>
          split at h
          · cases h
          · next hmem =>
              cases h
              exact ⟨rest, herr, hmem⟩
      · cases h
  · next n front hcontrol =>
      obtain ⟨w, hw, hfront⟩ := Option.map_eq_some_iff.mp h
      obtain rfl : front = cur := hfront
      obtain ⟨hsta, hserial⟩ := Epoll.State.worker?_eq_some.mp hw
      exact ⟨n, w, hsta, hserial, .inr hcontrol⟩
  · cases h

/-- What `onCall` does next, if anything, is done with live sockets, and the filters that
it deletes are those of the socket it removes. -/
structure Sound (s : State) : Prop where
  call : ∀ cb cur, s.nextCall = some (cb, cur) → s.sockets.serial cur ≠ none
  removal : ∀ cur, s.nextRemoval = some cur → ∃ i, s.sockets.serial cur = some i ∧
    (s.deregisterSocket cur).map State.filters = some (s.filters \ filtersOf (s.descriptor i)) ∧
    ∀ n, s.control = .calling n .onDisconnect cur → s.callee = i

/-- The sockets on `err`. -/
def onErr (s : State) : List SocketPtr := (s.sta.map SocketWorker.err).getD []

/-- The socket whose `onDisconnect` is running. -/
def disconnecting (s : State) : Option SocketPtr :=
  match s.control with
  | .calling _ .onDisconnect cur => some cur
  | _ => none

/-- The condition on a step.  A failed event is collected for a live socket; and a socket
that is destroyed, unless the worker goes with it, is not on `err`, and it is not its own
`onDisconnect` that destroys it. -/
def Spares (s : State) : Action → Prop
  | .collect batch => ∀ ev ∈ batch.events, ev.failed = true → s.sockets.serial ev.udata ≠ none
  | .destroy a => s.refCounter ≠ 1 → a ∉ s.onErr ∧ s.disconnecting ≠ some a
  | _ => True

instance : DecidablePred s.Spares
  | .collect batch => inferInstanceAs (Decidable (∀ ev ∈ batch.events,
      ev.failed = true → s.sockets.serial ev.udata ≠ none))
  | .destroy a => inferInstanceAs (Decidable (s.refCounter ≠ 1 →
      a ∉ s.onErr ∧ s.disconnecting ≠ some a))
  | .dispatch | .turn | .ret | .construct _ _ _ => inferInstanceAs (Decidable True)

/-- The step leaves a socket when it is taken from inside `onCall`. -/
def LeavesSocket (s : State) (act : Action) : Prop :=
  ∀ a, act = .destroy a → s.control ≠ .idle → s.refCounter ≠ 1

/-- The action is one of the loop thread in `onCall`, and none of the callbacks. -/
def IsDispatch : Action → Prop
  | .dispatch | .turn | .ret => True
  | _ => False

theorem disconnecting_eq_some {a : SocketPtr} :
    s.disconnecting = some a ↔ ∃ n, s.control = .calling n .onDisconnect a := by
  unfold disconnecting
  split
  · next n cur hcontrol =>
      rw [hcontrol]
      constructor
      · intro h
        exact ⟨n, by rw [Option.some.inj h]⟩
      · rintro ⟨m, h⟩
        cases h
        rfl
  · next hnot =>
      constructor
      · intro h
        cases h
      · rintro ⟨n, h⟩
        exact absurd h (hnot n a)

theorem onErr_some {w : SocketWorker} (hw : s.sta = some w) : s.onErr = w.err := by
  rw [onErr, hw]
  rfl

/-! ## Sparing steps -/

/-- The sockets on `err` are alive, and so is the one that is being told of its
disconnect. -/
structure Spared (s : State) : Prop where
  ok : s.toState.Ok
  err : ∀ a ∈ s.onErr, s.sockets.serial a ≠ none
  callee : ∀ n cur w, s.control = .calling n .onDisconnect cur → s.sta = some w →
    w.serial = n → s.sockets.serial cur = some s.callee

theorem deregisterSocket_filters {a : SocketPtr} {i : ℕ} (h : s.sockets.serial a = some i) :
    (s.deregisterSocket a).map State.filters =
      some (s.filters \ filtersOf (s.descriptor i)) := by
  rw [deregisterSocket_eq h, Option.map_some]

/-- Where the entries of `err` are alive, `onCall` goes on with live sockets. -/
theorem Spared.sound (h : s.Spared) : s.Sound where
  call := by
    intro cb cur hnext
    unfold nextCall at hnext
    split at hnext
    · next n loop hcontrol =>
        obtain ⟨w, hw, hnext⟩ := Option.bind_eq_some_iff.mp hnext
        obtain ⟨hsta, -⟩ := Epoll.State.worker?_eq_some.mp hw
        split at hnext
        · next front rest hdeque =>
            split at hnext
            · next hmem =>
                cases hnext
                exact h.ok.live_some hsta cur hmem
            · cases hnext
        · cases hnext
    · cases hnext
  removal := by
    intro cur hnext
    obtain ⟨n, w, hsta, hserial, ⟨hcontrol, rest, herr, -⟩ | hcontrol⟩ := nextRemoval_cases hnext
    · -- an entry of `err` that is not registered
      have hin : cur ∈ s.onErr := by
        rw [onErr_some hsta, herr]
        exact List.mem_cons_self
      obtain ⟨i, hi⟩ := Option.ne_none_iff_exists'.mp (h.err cur hin)
      refine ⟨i, hi, deregisterSocket_filters hi, fun m hcalling => ?_⟩
      rw [hcontrol] at hcalling
      cases hcalling
    · -- the socket whose `onDisconnect` returns
      have hi := h.callee n cur w hcontrol hsta hserial
      exact ⟨s.callee, hi, deregisterSocket_filters hi, fun _ _ => rfl⟩

theorem Spared.init : State.init.Spared where
  ok := Epoll.State.Ok.init
  err := by simp [State.init, onErr]
  callee := by simp [State.init]

/-- `pop_front` takes entries from `err`, if anything. -/
theorem mem_err_of_popFront {w : SocketWorker} {loop : Callback} {a : SocketPtr}
    (h : a ∈ (w.popFront loop).err) : a ∈ w.err := by
  cases loop with
  | onDisconnect => exact List.mem_of_mem_tail h
  | _ => exact h

theorem onErr_afterCall {w : SocketWorker} (hw : s.sta = some w) {loop : Callback}
    {cur : SocketPtr} (h : s.afterCall loop cur = some t) : t.onErr = w.err := by
  rw [onErr_some ((afterCall_frame h).2.2 w hw)]
  cases loop <;> rfl

theorem Spared.collect {batch : Batch} (h : s.Spared) (hstep : s.collect batch = some t)
    (hgood : s.Spares (.collect batch)) : t.Spared := by
  have hok := ok_collect h.ok hstep
  obtain ⟨w, hw, -, rfl⟩ := collect_cases hstep
  refine ⟨hok, fun a ha => ?_, fun n cur w' hcontrol hw' hserial => ?_⟩
  · rw [onErr_some rfl, err_run] at ha
    rcases List.mem_append.mp ha with hold | hnew
    · exact h.err a (by rwa [onErr_some hw])
    · obtain ⟨ev, hev, rfl⟩ := List.mem_map.mp hnew
      obtain ⟨hmem, hfailed⟩ := List.mem_filter.mp hev
      exact hgood ev hmem hfailed
  · obtain rfl := Option.some.inj hw'
    rw [serial_run] at hserial
    exact h.callee n cur w hcontrol hw hserial

theorem Spared.turn (h : s.Spared) (hstep : s.turn = some t) : t.Spared := by
  have hok := h.ok.turn (turn_epoll hstep)
  obtain ⟨n, loop, w, hcontrol, hw, hserial, hcase⟩ := turn_cases hstep
  have herr : ∀ a ∈ w.err, s.sockets.serial a ≠ none := by
    rw [← onErr_some hw]
    exact h.err
  rcases hcase with ⟨cur, rest, i, -, -, hi, rfl⟩ | ⟨cur, rest, -, -, hafter⟩ |
    ⟨loop', -, -, rfl⟩ | ⟨-, -, rfl⟩
  · -- the callback is made on the socket `i`
    refine ⟨hok, fun a ha => ?_, fun m cur' w' hcalling _ _ => ?_⟩
    · rw [onErr_some rfl] at ha
      exact herr a (mem_err_of_popFront ha)
    · cases hcalling
      exact hi
  · obtain ⟨hsockets, hsame, -⟩ := afterCall_frame hafter
    refine ⟨hok, fun a ha => ?_, fun m cur' w' hcalling => ?_⟩
    · rw [onErr_afterCall rfl hafter] at ha
      rw [hsockets]
      exact herr a (mem_err_of_popFront ha)
    · rw [hsame, hcontrol] at hcalling
      cases hcalling
  · refine ⟨hok, fun a ha => ?_, fun m cur' w' hcalling => by cases hcalling⟩
    exact h.err a ha
  · refine ⟨hok, fun a ha => ?_, fun m cur' w' hcalling => by cases hcalling⟩
    rw [onErr_some rfl] at ha
    exact herr a ha

theorem Spared.ret (h : s.Spared) (hstep : s.ret = some t) : t.Spared := by
  have hok := h.ok.ret (ret_epoll hstep)
  obtain ⟨n, loop, cur, w, u, hcontrol, hw, hserial, hafter, rfl⟩ := ret_cases hstep
  refine ⟨hok, fun a ha => ?_, fun m cur' w' hcalling => by cases hcalling⟩
  change u.sockets.serial a ≠ none
  rw [(afterCall_frame hafter).1]
  have hin : a ∈ u.onErr := ha
  rw [onErr_afterCall hw hafter, ← onErr_some hw] at hin
  exact h.err a hin

/-- A constructor finds the worker there is, or a new one with empty deques. -/
theorem construct_sta {a : SocketPtr} {fd : ℕ} {registers : Bool} (hok : s.toState.Ok)
    (h : s.construct a fd registers = some t) :
    ∃ w, t.sta = some w ∧ w.err = s.onErr ∧
      (w.serial = s.workers ∨ ∃ w', s.sta = some w' ∧ w.serial = w'.serial) := by
  cases hw : s.sta with
  | some w =>
      rw [onErr_some hw]
      rcases construct_worker hok h hw with ht | ht
      · exact ⟨w, ht, rfl, .inr ⟨w, rfl, rfl⟩⟩
      · exact ⟨_, ht, rfl, .inr ⟨w, rfl, rfl⟩⟩
  | none =>
      have hfirst : s.refCounter + 1 = 1 := by rw [hok.shared.mp hw]
      have hempty : s.onErr = [] := by
        rw [onErr, hw]
        rfl
      obtain ⟨sockets, -, -, -, -, ⟨-, ht⟩ | ⟨-, ht⟩⟩ := construct_cases h
      · refine ⟨{ serial := s.workers }, ?_, hempty.symm, .inl rfl⟩
        rw [ht, Epoll.State.addRef, if_pos hfirst]
      · refine ⟨{ serial := s.workers, clients := insert a ∅ }, ?_, hempty.symm, .inl rfl⟩
        rw [ht, Epoll.State.addRef, if_pos hfirst]
        rfl

theorem Spared.construct {a : SocketPtr} {fd : ℕ} {registers : Bool} (h : s.Spared)
    (hstep : s.construct a fd registers = some t) : t.Spared := by
  have hok := ok_construct h.ok hstep
  obtain ⟨w, hw, herr, hserial⟩ := construct_sta h.ok hstep
  obtain ⟨sockets, -, hnew, hcontrol, hcallee, hcase⟩ := construct_cases hstep
  have hsockets : t.sockets = sockets := by
    rcases hcase with ⟨-, ht⟩ | ⟨-, ht⟩
    · rw [ht, Epoll.State.sockets_addRef]
    · rw [ht]
      exact Epoll.State.sockets_addRef _
  -- sockets that live go on living
  have hold : ∀ c i, s.sockets.serial c = some i → t.sockets.serial c = some i := by
    intro c i hi
    have hne : c ≠ a := by
      rintro rfl
      rw [Arena.serial_eq_none.mpr (Arena.free_of_construct hnew)] at hi
      cases hi
    rw [hsockets, Arena.serial_of_construct hnew, if_neg hne, hi]
  refine ⟨hok, fun c hc => ?_, fun n cur w' hcalling hw' hn => ?_⟩
  · rw [onErr_some hw, herr] at hc
    obtain ⟨i, hi⟩ := Option.ne_none_iff_exists'.mp (h.err c hc)
    rw [hold c i hi]
    exact Option.some_ne_none i
  · obtain rfl := Option.some.inj (hw.symm.trans hw')
    rw [hcontrol] at hcalling
    rw [hcallee]
    rcases hserial with hfresh | ⟨w'', hw'', hsame⟩
    · -- the loop thread is not in the `onCall` of a worker that is new
      have hlt := h.ok.loop_lt n .onDisconnect (by rw [hcalling, Control.loop?])
      exact absurd (hn.symm.trans hfresh) (Nat.ne_of_lt hlt)
    · exact hold _ _ (h.callee n cur w'' hcalling hw'' (hsame.symm.trans hn))

theorem Spared.destroy {a : SocketPtr} (h : s.Spared) (hstep : s.destroy a = some t)
    (hgood : s.Spares (.destroy a)) : t.Spared := by
  obtain ⟨hepoll, hcallee⟩ := destroy_epoll hstep
  have hok := h.ok.destroy hepoll
  obtain ⟨i, w, -, -, hw, -⟩ := Epoll.State.destroy_cases hepoll
  obtain ⟨hcontrol, hsockets, -⟩ := Epoll.State.destroy_frame hepoll
  have hsta := Epoll.State.sta_destroy h.ok hepoll hw
  by_cases hlast : s.refCounter = 1
  · -- the worker goes, and its deques with it
    rw [if_pos hlast] at hsta
    refine ⟨hok, fun c hc => ?_, fun n cur w' _ hw' => ?_⟩
    · rw [onErr, hsta] at hc
      cases hc
    · rw [hsta] at hw'
      cases hw'
  · rw [if_neg hlast] at hsta
    obtain ⟨herr, hcalling⟩ := hgood hlast
    refine ⟨hok, fun c hc => ?_, fun n cur w' hcall hw' hn => ?_⟩
    · have hc' : c ∈ s.onErr := by
        rw [onErr_some hsta] at hc
        rw [onErr_some hw]
        exact hc
      have hne : c ≠ a := by
        rintro rfl
        exact herr hc'
      rw [hsockets, Arena.serial_destroy, if_neg hne]
      exact h.err c hc'
    · rw [hcontrol] at hcall
      have hne : cur ≠ a := by
        rintro rfl
        exact hcalling (disconnecting_eq_some.mpr ⟨n, hcall⟩)
      rw [hsta] at hw'
      obtain rfl := Option.some.inj hw'
      rw [hsockets, Arena.serial_destroy, if_neg hne, hcallee]
      exact h.callee n cur w hcall hw hn

/-- A step that spares the sockets `onCall` still needs keeps them alive. -/
theorem Spared.step {act : Action} (h : s.Spared) (hstep : s.step act = some t)
    (hgood : s.Spares act) : t.Spared := by
  cases act with
  | collect batch => exact h.collect hstep hgood
  | dispatch =>
      have hok := h.ok.dispatch (dispatch_epoll hstep).1
      obtain ⟨hepoll, ht⟩ := dispatch_epoll hstep
      obtain ⟨w, hw, -, -, hu⟩ := Epoll.State.dispatch_cases hepoll
      rw [hu] at ht
      subst ht
      exact ⟨hok, h.err, fun n cur w' hcalling => by cases hcalling⟩
  | turn => exact h.turn hstep
  | ret => exact h.ret hstep
  | construct a fd registers => exact h.construct hstep
  | destroy a => exact h.destroy hstep hgood

theorem Spared.run {tr : List (State × Action)} (hrun : Runs s tr t) (h : s.Spared)
    (hgood : ∀ p ∈ tr, p.1.Spares p.2) : ∀ x ∈ Machine.visited tr t, x.Spared :=
  Machine.Run.invariant_steps
    (fun x act _ h hstep (hspares : x.Spares act) => h.step hstep hspares) hrun h hgood

/-! ## A step that does not spare -/

theorem outlives_step {act : Action} (hok : s.toState.Ok) (h : s.toState.WorkerOutlives)
    (hstep : s.step act = some t) (hgood : s.LeavesSocket act) : t.toState.WorkerOutlives := by
  cases act with
  | collect batch =>
      obtain ⟨w, hw, -, rfl⟩ := collect_cases hstep
      exact h.same hw rfl (serial_run w batch) rfl
  | dispatch =>
      have hepoll : s.toState.step .dispatch = some t.toState := (dispatch_epoll hstep).1
      exact Epoll.State.WorkerOutlives.step hok h hepoll fun a hact => by cases hact
  | turn => exact Epoll.State.WorkerOutlives.turn (turn_epoll hstep)
  | ret =>
      have hepoll : s.toState.step .ret = some t.toState := ret_epoll hstep
      exact Epoll.State.WorkerOutlives.step hok h hepoll fun a hact => by cases hact
  | construct a fd registers =>
      have hcon : s.construct a fd registers = some t := hstep
      intro n loop hloop
      obtain ⟨sockets, -, -, hcontrol, -⟩ := construct_cases hcon
      rw [hcontrol] at hloop
      obtain ⟨w, hw, rfl⟩ := h n loop hloop
      rcases construct_worker hok hcon hw with ht | ht
      · exact ⟨w, ht, rfl⟩
      · exact ⟨_, ht, rfl⟩
  | destroy a =>
      have hepoll : s.toState.step (.destroy a) = some t.toState := (destroy_epoll hstep).1
      refine Epoll.State.WorkerOutlives.step hok h hepoll fun c hc => ?_
      obtain rfl := Epoll.Action.destroy.inj hc
      exact hgood a rfl

theorem outlives_run {tr : List (State × Action)} (hrun : Runs .init tr s)
    (hgood : ∀ p ∈ tr, p.1.LeavesSocket p.2) : s.toState.WorkerOutlives := by
  have hinit : State.init.toState.WorkerOutlives := by
    intro n loop hloop
    cases hloop
  have hboth := Machine.Run.invariant_steps
    (I := fun x : State => x.toState.Ok ∧ x.toState.WorkerOutlives)
    (fun x act _ h hstep (hleaves : x.LeavesSocket act) =>
      ⟨ok_step h.1 hstep, outlives_step h.1 h.2 hstep hleaves⟩)
    hrun ⟨Epoll.State.Ok.init, hinit⟩ hgood
  exact (hboth s (by simp)).2

/-- A socket that is gone comes to be used: `onCall` gets there although the callbacks do
nothing. -/
def ReachesGone (s : State) : Prop :=
  ∃ tr u, Runs s tr u ∧ (∀ p ∈ tr, IsDispatch p.2) ∧ ¬ u.Sound

theorem ReachesGone.cons {act : Action} (hstep : s.step act = some t) (hact : IsDispatch act)
    (h : t.ReachesGone) : s.ReachesGone := by
  obtain ⟨tr, u, hrun, hquiet, hnot⟩ := h
  refine ⟨(s, act) :: tr, u, Machine.Run.cons_iff.mpr ⟨rfl, t, hstep, hrun⟩, ?_, hnot⟩
  rintro p (- | ⟨_, hp⟩)
  · exact hact
  · exact hquiet p hp

variable {n : ℕ} {w : SocketWorker} {a : SocketPtr}

theorem nextRemoval_err {cur : SocketPtr} {rest : List SocketPtr}
    (hcontrol : s.control = .draining n .onDisconnect) (hw : s.sta = some w)
    (hserial : w.serial = n) (herr : w.err = cur :: rest) (hmem : cur ∉ w.clients) :
    s.nextRemoval = some cur := by
  have hworker : s.worker? n = some w := Epoll.State.worker?_eq_some.mpr ⟨hw, hserial⟩
  unfold nextRemoval
  rw [hcontrol]
  simp only [hworker, Option.bind_eq_bind, Option.bind_some, herr, if_neg hmem]

theorem nextRemoval_ret {cur : SocketPtr}
    (hcontrol : s.control = .calling n .onDisconnect cur) (hw : s.sta = some w)
    (hserial : w.serial = n) : s.nextRemoval = some cur := by
  have hworker : s.worker? n = some w := Epoll.State.worker?_eq_some.mpr ⟨hw, hserial⟩
  unfold nextRemoval
  rw [hcontrol]
  simp only [hworker, Option.map_some]

/-- What is handed to `deregisterSocket` next is gone. -/
theorem not_sound_of_removal {cur : SocketPtr} (hnext : s.nextRemoval = some cur)
    (hgone : s.sockets.serial cur = none) : ¬ s.Sound := by
  intro hsound
  obtain ⟨i, hi, -⟩ := hsound.removal cur hnext
  rw [hgone] at hi
  cases hi

theorem step_ret {i : ℕ} (hcontrol : s.control = .calling n .onDisconnect a)
    (hw : s.sta = some w) (hserial : w.serial = n) (hi : s.sockets.serial a = some i) :
    s.step .ret = some { s with
      filters := s.filters \ filtersOf (s.descriptor i)
      sta := s.sta.map fun w => w.deregisterSocket a
      control := .draining n .onDisconnect } := by
  have hworker : s.worker? n = some w := Epoll.State.worker?_eq_some.mpr ⟨hw, hserial⟩
  show s.ret = _
  unfold ret
  rw [hcontrol]
  simp only [hworker, afterCall, deregisterSocket_eq hi, Option.bind_eq_bind, Option.bind_some]

theorem step_turn {cur : SocketPtr} {rest : List SocketPtr} {i : ℕ}
    (hcontrol : s.control = .draining n .onDisconnect) (hw : s.sta = some w)
    (hserial : w.serial = n) (hdeque : w.deque .onDisconnect = cur :: rest)
    (hcur : s.sockets.serial cur = some i) :
    s.step .turn =
      if cur ∈ w.clients then
        some { s with sta := some (w.popFront .onDisconnect),
                      control := .calling n .onDisconnect cur, callee := i }
      else some { s with
        filters := s.filters \ filtersOf (s.descriptor i)
        sta := some ((w.popFront .onDisconnect).deregisterSocket cur) } := by
  have hworker : s.worker? n = some w := Epoll.State.worker?_eq_some.mpr ⟨hw, hserial⟩
  show s.turn = _
  unfold turn
  rw [hcontrol]
  simp only [hworker, hdeque, hcur, afterCall, Option.bind_eq_bind, Option.bind_some]
  split
  · rfl
  · rw [deregisterSocket_eq (by exact hcur)]
    rfl

/-- The disconnect loop gets to an entry of `err` that is gone. -/
theorem reachesGone_draining (hlive : ∀ c ∈ w.clients, s.sockets.serial c ≠ none)
    (hcontrol : s.control = .draining n .onDisconnect) (hw : s.sta = some w)
    (hserial : w.serial = n) (herr : a ∈ w.err) (hgone : s.sockets.serial a = none) :
    s.ReachesGone := by
  generalize hes : w.err = es at herr
  induction es generalizing s w with
  | nil => cases herr
  | cons cur rest ih =>
      have hworker : s.worker? n = some w := Epoll.State.worker?_eq_some.mpr ⟨hw, hserial⟩
      have hdeque : w.deque .onDisconnect = cur :: rest := hes
      have htail : (w.popFront .onDisconnect).err = rest := by
        change w.err.tail = rest
        rw [hes, List.tail_cons]
      cases hcur : s.sockets.serial cur with
      | none =>
          -- this one is gone already
          have hmem : cur ∉ w.clients := fun hin => hlive cur hin hcur
          exact ⟨[], s, .nil, by simp, not_sound_of_removal
            (nextRemoval_err hcontrol hw hserial hes hmem) hcur⟩
      | some i =>
          have hrest : a ∈ rest := by
            refine (List.mem_cons.mp herr).resolve_left ?_
            rintro rfl
            rw [hcur] at hgone
            cases hgone
          have hturn := step_turn hcontrol hw hserial hdeque hcur
          by_cases hmem : cur ∈ w.clients
          · rw [if_pos hmem] at hturn
            refine .cons hturn trivial (.cons (step_ret rfl rfl hserial hcur) trivial ?_)
            refine ih (w := (w.popFront .onDisconnect).deregisterSocket cur) ?_ rfl rfl
              hserial hgone htail hrest
            exact fun c hc => hlive c (Finset.mem_of_mem_erase hc)
          · rw [if_neg hmem] at hturn
            refine .cons hturn trivial ?_
            refine ih (w := (w.popFront .onDisconnect).deregisterSocket cur) ?_ hcontrol rfl
              hserial hgone htail hrest
            exact fun c hc => hlive c (Finset.mem_of_mem_erase hc)

/-- A socket on `err` that is gone comes to be used. -/
theorem reachesGone_of_err (hok : s.toState.Ok) (houtlives : s.toState.WorkerOutlives)
    (herr : a ∈ s.onErr) (hgone : s.sockets.serial a = none) : s.ReachesGone := by
  obtain ⟨w, hw⟩ : ∃ w, s.sta = some w := by
    rw [← Option.ne_none_iff_exists']
    intro hnone
    rw [onErr, hnone] at herr
    cases herr
  rw [onErr_some hw] at herr
  have hlive := hok.live_some hw
  -- the loops after the disconnect loop begin with an empty `err`
  have hfirst : ∀ n loop, s.control.loop? = some (n, loop) →
      n = w.serial ∧ loop = .onDisconnect := by
    intro n loop hloop
    obtain ⟨w', hw', rfl⟩ := houtlives n loop hloop
    obtain rfl : w = w' := Option.some.inj (hw.symm.trans hw')
    refine ⟨rfl, by_contra fun hne => ?_⟩
    have hempty := (hok.drained w loop hw hloop).2 .onDisconnect
      (by cases loop <;> first | exact absurd rfl hne | decide)
    change w.err = [] at hempty
    rw [hempty] at herr
    cases herr
  cases hcontrol : s.control with
  | idle =>
      have hcalled : w.called = true := by
        by_contra hfree
        have hempty := hok.emptied w hw (eq_false_of_ne_true hfree) .onDisconnect
        change w.err = [] at hempty
        rw [hempty] at herr
        cases herr
      have hdispatch : s.step .dispatch =
          some { s with control := .draining w.serial .onDisconnect } := by
        show s.dispatch = _
        simp [dispatch, Epoll.State.dispatch, hw, hcontrol, hcalled]
      exact .cons hdispatch trivial (reachesGone_draining hlive rfl hw rfl herr hgone)
  | draining n loop =>
      obtain ⟨rfl, rfl⟩ := hfirst n loop (by rw [hcontrol, Control.loop?])
      exact reachesGone_draining hlive hcontrol hw rfl herr hgone
  | calling n loop cur =>
      obtain ⟨rfl, rfl⟩ := hfirst n loop (by rw [hcontrol, Control.loop?])
      cases hcur : s.sockets.serial cur with
      | none =>
          -- the callback is about to return, and its socket is gone already
          exact ⟨[], s, .nil, by simp, not_sound_of_removal (nextRemoval_ret hcontrol hw rfl) hcur⟩
      | some i =>
          refine .cons (step_ret hcontrol hw rfl hcur) trivial ?_
          refine reachesGone_draining (w := w.deregisterSocket cur) ?_ rfl ?_ rfl herr hgone
          · exact fun c hc => hlive c (Finset.mem_of_mem_erase hc)
          · rw [hw, Option.map_some]

/-- After a step that does not spare, a socket that is gone comes to be used. -/
theorem reachesGone_of_not_spares (h : s.Spared) (houtlives : s.toState.WorkerOutlives)
    {act : Action} (hstep : s.step act = some t) (hleaves : s.LeavesSocket act)
    (hbad : ¬ s.Spares act) : t.ReachesGone := by
  have hok := ok_step h.ok hstep
  have hout := outlives_step h.ok houtlives hstep hleaves
  cases act with
  | collect batch =>
      simp only [Spares, not_forall, not_not] at hbad
      obtain ⟨ev, hev, hfailed, hgone⟩ := hbad
      have hcollect : s.collect batch = some t := hstep
      obtain ⟨w, hw, -, rfl⟩ := collect_cases hcollect
      refine reachesGone_of_err hok hout (a := ev.udata) ?_ hgone
      rw [onErr_some rfl, err_run]
      exact List.mem_append_right _
        (List.mem_map.mpr ⟨ev, List.mem_filter.mpr ⟨hev, hfailed⟩, rfl⟩)
  | destroy a =>
      simp only [Spares, not_forall, not_and_or, not_not, exists_prop] at hbad
      obtain ⟨hmore, hwhere⟩ := hbad
      obtain ⟨hepoll, -⟩ := destroy_epoll hstep
      obtain ⟨i, w, -, -, hw, -⟩ := Epoll.State.destroy_cases hepoll
      obtain ⟨hcontrol, hsockets, -⟩ := Epoll.State.destroy_frame hepoll
      have hsta := Epoll.State.sta_destroy h.ok hepoll hw
      rw [if_neg hmore] at hsta
      have hgone : t.sockets.serial a = none := by
        rw [hsockets, Arena.serial_destroy, if_pos rfl]
      rcases hwhere with herr | hdisconnecting
      · refine reachesGone_of_err hok hout (a := a) ?_ hgone
        rw [onErr_some hw] at herr
        rw [onErr_some hsta]
        exact herr
      · obtain ⟨n, hcalling⟩ := disconnecting_eq_some.mp hdisconnecting
        rw [← hcontrol] at hcalling
        obtain ⟨w', hw', hserial⟩ := hout n .onDisconnect (by rw [hcalling, Control.loop?])
        exact ⟨[], t, .nil, by simp,
          not_sound_of_removal (nextRemoval_ret hcalling hw' hserial) hgone⟩
  | _ => exact absurd trivial hbad

end State

open State

/-- **When the dispatch uses live sockets only.**  First, in every run in which each step
spares the sockets that `onCall` still needs, `onCall` uses and removes live sockets only.
Second, no weaker condition on the steps would do: once a step of such a run does not
spare, and another socket stays alive all the time, `onCall` comes to a socket that is
gone even when the callbacks do nothing from then on. -/
theorem dispatch_sound {tr : List (State × Action)} {s : State} (hrun : Runs .init tr s)
    (hspares : ∀ p ∈ tr, p.1.Spares p.2) :
    (∀ x ∈ Machine.visited tr s, x.Sound) ∧
    ((∀ p ∈ tr, p.1.LeavesSocket p.2) → ∀ act t, s.step act = some t → s.LeavesSocket act →
      ((∀ tr' u, Runs t tr' u → (∀ p ∈ tr', p.1.Spares p.2) → u.Sound) ↔ s.Spares act)) := by
  have hrunSpared := Spared.init.run hrun hspares
  have hspared := hrunSpared s (by simp)
  refine ⟨fun x hx => (hrunSpared x hx).sound,
    fun hleaves act t hstep hleave => ⟨fun hsound => ?_, fun hgood => ?_⟩⟩
  · by_contra hbad
    obtain ⟨tr', u, hrun', hquiet, hnot⟩ :=
      reachesGone_of_not_spares hspared (outlives_run hrun hleaves) hstep hleave hbad
    refine hnot (hsound tr' u hrun' fun p hp => ?_)
    have hact := hquiet p hp
    cases hp2 : p.2 with
    | dispatch => trivial
    | turn => trivial
    | ret => trivial
    | _ =>
        rw [hp2] at hact
        exact hact.elim
  · intro tr' u hrun' hgood'
    exact ((hspared.step hstep hgood).run hrun' hgood' u (by simp)).sound

/-- A closed connection, reported by both of its filters. -/
def closed : Batch :=
  ⟨[⟨.EVFILT_READ, EV_EOF, 1⟩, ⟨.EVFILT_WRITE, EV_EOF, 1⟩], by decide, by decide⟩

/-- A socket whose connection is closed and that is destroyed once `onCall` is over. -/
theorem dispatch_sound_example : ∃ tr s, Runs .init tr s ∧
    Machine.actions tr = [.construct 1 5 true, .construct 2 6 true, .collect closed, .dispatch,
      .turn, .ret, .turn, .turn, .turn, .turn, .destroy 1] ∧
    ((∀ x ∈ Machine.visited tr s, x.Sound) ∧
      ((∀ p ∈ tr, p.1.LeavesSocket p.2) → ∀ act t, s.step act = some t → s.LeavesSocket act →
        ((∀ tr' u, Runs t tr' u → (∀ p ∈ tr', p.1.Spares p.2) → u.Sound) ↔ s.Spares act))) := by
  let acts : List Action := [.construct 1 5 true, .construct 2 6 true, .collect closed,
    .dispatch, .turn, .ret, .turn, .turn, .turn, .turn, .destroy 1]
  let s := (Machine.exec State.step .init acts).get (by decide)
  have hs : Machine.exec State.step .init acts = some s := (Option.some_get _).symm
  obtain ⟨hrun, hacts⟩ := Machine.exec_trace _ _ _ _ hs
  exact ⟨_, s, hrun, hacts, dispatch_sound hrun (by decide)⟩

/-- **A destroyed socket is used.**  The delegate of a closed connection destroys the
socket in its `onDisconnect`; the `deregisterSocket` that follows reads the descriptor of a
socket that is gone.  The socket at address 2 lives all the time. -/
theorem destroyed_socket_used : ∃ s,
    Machine.exec State.step .init [.construct 1 5 true, .construct 2 6 true, .collect closed,
      .dispatch, .turn, .destroy 1] = some s ∧
    s.sockets.serial 2 = some 1 ∧ s.nextRemoval = some 1 ∧ s.sockets.serial 1 = none ∧
    ¬ s.Sound := by
  let acts : List Action := [.construct 1 5 true, .construct 2 6 true, .collect closed,
    .dispatch, .turn, .destroy 1]
  let s := (Machine.exec State.step .init acts).get (by decide)
  have hnext : s.nextRemoval = some 1 := by decide
  have hgone : s.sockets.serial 1 = none := by decide
  exact ⟨s, (Option.some_get _).symm, by decide, hnext, hgone,
    not_sound_of_removal hnext hgone⟩

end Kqueue

end Craplib
