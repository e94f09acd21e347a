import Craplib.Socket.EpollProgress

/-!
# The worker and its own dispatch

The worker belongs to the sockets: `StaticRefCounted` deletes it in the destructor of the
last one.  `onCall` is a member function of that worker, and the callbacks that it makes
may destroy sockets.  When one of them destroys the last socket, the worker is deleted
while its `onCall` waits for the callback to return; `onCall` then goes on with `clients`
and the deques of an object that is gone.

`worker_outlives_iff` says that nothing else ends the worker during its dispatch: it is
there in every state of a run in which the loop thread is in its `onCall` exactly when
no callback of the run destroys the last live socket.
-/

namespace Craplib

namespace Epoll

open Machine

namespace State

variable {s t : State}

/-- The worker whose `onCall` the loop thread is in exists. -/
def WorkerOutlives (s : State) : Prop :=
  ∀ n loop, s.control.loop? = some (n, loop) → ∃ w, s.sta = some w ∧ w.serial = n

/-- The action does not destroy the last socket from inside `onCall`. -/
def LeavesSocket (s : State) (act : Action) : Prop :=
  ∀ a, act = .destroy a → s.control ≠ .idle → s.refCounter ≠ 1

/-- The loop thread stays in the `onCall` it is in, of the same worker. -/
theorem WorkerOutlives.same {w' : SocketWorker} (h : s.WorkerOutlives) {w : SocketWorker}
    (hw : s.sta = some w) (ht : t.sta = some w') (hserial : w'.serial = w.serial)
    (hcontrol : t.control = s.control) : t.WorkerOutlives := by
  intro n loop hloop
  rw [hcontrol] at hloop
  obtain ⟨w'', hw'', hn⟩ := h n loop hloop
  obtain rfl : w = w'' := Option.some.inj (hw.symm.trans hw'')
  exact ⟨w', ht, hserial.trans hn⟩

/-- The loop thread is in the `onCall` of the worker there is. -/
theorem WorkerOutlives.here {w : SocketWorker} (ht : t.sta = some w)
    (hcontrol : ∀ n loop, t.control.loop? = some (n, loop) → n = w.serial) :
    t.WorkerOutlives :=
  fun n loop hloop => ⟨w, ht, (hcontrol n loop hloop).symm⟩

theorem WorkerOutlives.turn (hstep : s.turn = some t) : t.WorkerOutlives := by
  obtain ⟨n, loop, w, hcontrol, hw, rfl, hcase⟩ := turn_cases hstep
  rcases hcase with ⟨cur, rest, -, -, rfl⟩ | ⟨cur, rest, -, -, rfl⟩ |
    ⟨loop', -, -, rfl⟩ | ⟨-, -, rfl⟩
  · refine here rfl ?_
    rintro m l ⟨rfl, rfl⟩
    exact (SocketWorker.serial_popFront w _).symm
  · refine here rfl ?_
    rw [hcontrol]
    rintro m l ⟨rfl, rfl⟩
    rw [SocketWorker.serial_afterCall, SocketWorker.serial_popFront]
  · refine here hw ?_
    rintro m l ⟨rfl, rfl⟩
    rfl
  · refine here rfl ?_
    rintro m l ⟨⟩

/-- A destructor that does not run for the last socket leaves the worker. -/
theorem sta_destroy {a : SocketPtr} (hok : s.Ok) (hstep : s.destroy a = some t)
    {w : SocketWorker} (hw : s.sta = some w) :
    t.sta = if s.refCounter = 1 then none else some (w.deregisterSocket a) := by
  obtain ⟨i, w', -, hi, hw', rfl⟩ := destroy_cases hstep
  obtain rfl : w = w' := Option.some.inj (hw.symm.trans hw')
  have hpos := Arena.size_pos hi
  rw [← hok.count] at hpos
  unfold release
  by_cases hlast : s.refCounter = 1
  · rw [if_pos hlast, if_pos (Nat.sub_eq_zero_of_le (Nat.le_of_eq hlast))]
  · have hmore : s.refCounter - 1 ≠ 0 := by omega
    rw [if_neg hlast, if_neg hmore]

/-- A step that leaves a socket leaves the worker to its dispatch. -/
theorem WorkerOutlives.step (hok : s.Ok) (h : s.WorkerOutlives) {act : Action}
    (hstep : s.step act = some t) (hgood : s.LeavesSocket act) : t.WorkerOutlives := by
  cases act with
  | collect batch =>
      obtain ⟨w, hw, -, rfl⟩ := collect_cases hstep
      exact h.same hw rfl (SocketWorker.serial_run w batch) rfl
  | dispatch =>
      obtain ⟨w, hw, -, -, rfl⟩ := dispatch_cases hstep
      refine here hw ?_
      rintro m l ⟨rfl, rfl⟩
      rfl
  | turn => exact turn hstep
  | ret =>
      obtain ⟨n, loop, cur, w, -, -, rfl, rfl⟩ := ret_cases hstep
      refine here rfl ?_
      rintro m l ⟨rfl, rfl⟩
      exact (SocketWorker.serial_afterCall w _ cur).symm
  | construct a registers =>
      intro n loop hloop
      rw [(construct_frame hstep).1] at hloop
      obtain ⟨w, hw, rfl⟩ := h n loop hloop
      rcases construct_worker hok hw hstep with ht | ⟨added, ht⟩
      · exact ⟨w, ht, rfl⟩
      · exact ⟨_, ht, SocketWorker.serial_registerSocket w a added⟩
  | destroy a =>
      intro n loop hloop
      rw [(destroy_frame hstep).1] at hloop
      obtain ⟨w, hw, rfl⟩ := h n loop hloop
      have hinside : s.control ≠ .idle := by
        intro hidle
        rw [hidle] at hloop
        cases hloop
      refine ⟨w.deregisterSocket a, ?_, rfl⟩
      rw [sta_destroy hok hstep hw, if_neg (hgood a rfl hinside)]

/-- The destruction of the last socket from inside `onCall` deletes its worker. -/
theorem not_outlives_of_last (hok : s.Ok) {act : Action} (hstep : s.step act = some t)
    (hbad : ¬ s.LeavesSocket act) : ¬ t.WorkerOutlives := by
  unfold LeavesSocket at hbad
  push Not at hbad
  obtain ⟨a, rfl, hinside, hlast⟩ := hbad
  have hdestroy : s.destroy a = some t := hstep
  obtain ⟨i, w, -, -, hw, -⟩ := destroy_cases hdestroy
  have hcontrol := (destroy_frame hdestroy).1
  obtain ⟨n, loop, hloop⟩ : ∃ n loop, t.control.loop? = some (n, loop) := by
    rw [hcontrol]
    cases hc : s.control with
    | idle => exact absurd hc hinside
    | draining n loop => exact ⟨n, loop, rfl⟩
    | calling n loop cur => exact ⟨n, loop, rfl⟩
  intro houtlives
  obtain ⟨w', hw', -⟩ := houtlives n loop hloop
  rw [sta_destroy hok hdestroy hw, if_pos hlast] at hw'
  cases hw'

end State

open State

/-- **Exactly when the worker outlives its dispatch.**  In every run of the two threads
the worker is there whenever the loop thread is in its `onCall` if and only if no socket
is destroyed from inside `onCall` while it is the last one. -/
theorem worker_outlives_iff {tr : List (State × Action)} {s : State} (hrun : Runs .init tr s) :
    (∀ x ∈ visited tr s, x.WorkerOutlives) ↔ ∀ p ∈ tr, p.1.LeavesSocket p.2 := by
  refine Run.visited_iff_good (I := fun x => x.Ok ∧ x.WorkerOutlives)
    (fun x act t h hstep (hgood : x.LeavesSocket act) => ?_)
    (fun x act t h hstep hbad => not_outlives_of_last h.1 hstep hbad) (fun x h => h.2) hrun
    ⟨Ok.init, ?_⟩
  · exact ⟨h.1.step hstep, h.2.step h.1 hstep hgood⟩
  · intro n loop hloop
    cases hloop

/-- One socket that hangs up and is destroyed in its `onDisconnect`. -/
def lastGoes : List Action :=
  [.construct 1 (some true), .collect ⟨[⟨EPOLLHUP, 1⟩], by decide, by decide⟩, .dispatch,
    .turn, .destroy 1]

theorem worker_outlives_iff_example : ∃ tr s, Runs .init tr s ∧ actions tr = lastGoes ∧
    ((∀ x ∈ visited tr s, x.WorkerOutlives) ↔ ∀ p ∈ tr, p.1.LeavesSocket p.2) := by
  have hexec : (exec State.step .init lastGoes).isSome = true := by decide
  obtain ⟨s, hs⟩ := Option.isSome_iff_exists.mp hexec
  obtain ⟨tr, hrun, hacts⟩ := exec_run _ _ _ _ hs
  exact ⟨tr, s, hrun, hacts, worker_outlives_iff hrun⟩

/-- **The worker is deleted in its own dispatch.**  The only socket is destroyed in its
`onDisconnect`: the loop thread is in the `onCall` of a worker that does not exist. -/
theorem worker_deleted_in_dispatch : ∃ s, exec State.step .init lastGoes = some s ∧
    s.control = .calling 0 .onDisconnect 1 ∧ s.sta = none ∧ ¬ s.WorkerOutlives := by
  let s := (exec State.step .init lastGoes).get (by decide)
  have hcontrol : s.control = .calling 0 .onDisconnect 1 := by decide
  have hnone : s.sta = none := by
    rw [← Option.isNone_iff_eq_none]
    decide
  refine ⟨s, (Option.some_get _).symm, hcontrol, hnone, fun houtlives => ?_⟩
  obtain ⟨w, hw, -⟩ := houtlives 0 .onDisconnect (by rw [hcontrol, Control.loop?])
  rw [hnone] at hw
  cases hw

end Epoll

end Craplib
