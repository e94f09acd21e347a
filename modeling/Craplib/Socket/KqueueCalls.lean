import Craplib.Socket.EpollCalls
import Craplib.Socket.KqueueAsEpoll

/-!
# What a dispatch of the kqueue worker owes to whom

The same is true here as of the epoll worker, for events of one filter each: a socket that is
registered when a batch is collected gets `onDisconnect` if one of its events has failed, and
otherwise `onCanRead` and `onCanWrite` for its events (`kevents_due`).  So bytes that came
before the end of a connection are not read: `EV_EOF` takes the place of the read.  All this
as long as `onCall` is not to remove a socket that is gone, which it would read from.

There is no limit on the number of sockets here, so a run need not be one of the epoll worker.
The steps are its steps except for the constructors, and these leave the deques alone.
-/

namespace Craplib

namespace Kqueue

open Machine
open Epoll (SocketPtr Callback SocketWorker Event)

/-- The calls that a batch owes to the registered socket at `a`. -/
def Batch.due (batch : Batch) (a : SocketPtr) : List Callback :=
  if batch.events.any fun ev => ev.udata = a && ev.failed then [.onDisconnect]
  else
    List.replicate (batch.events.countP fun ev => ev.udata = a && ev.filter = .EVFILT_READ)
      .onCanRead ++
    List.replicate (batch.events.countP fun ev => ev.udata = a && ev.filter = .EVFILT_WRITE)
      .onCanWrite

theorem due_asEpoll (batch : Batch) (a : SocketPtr) : batch.asEpoll.due a = batch.due a := by
  have hhangup := fun ev => (bits_asEpoll ev).1
  have hread := fun ev => (bits_asEpoll ev).2.1
  have hwrite := fun ev => (bits_asEpoll ev).2.2
  have hptr : ∀ ev : Kevent, ev.asEpoll.ptr = ev.udata := fun _ => rfl
  simp only [Epoll.Batch.due, Batch.due, Batch.asEpoll, List.any_map, List.countP_map,
    Function.comp_def, hhangup, hread, hwrite, hptr]

namespace State

variable {s t : State} {act : Action} {a : SocketPtr} {i : ℕ} {due : List Callback}
  {es : List Event}

/-- What an action does to which socket; `onCall` makes the calls of the epoll worker. -/
def event (s : State) (act : Action) : Option (ℕ × Event) := s.toState.event act.asEpoll

/-- What has happened to the socket `i` in a trace. -/
abbrev history (i : ℕ) (tr : List (State × Action)) : List Event := Machine.history event i tr

/-- A run of the two threads within one dispatch. -/
def Dispatch (s : State) (tr : List (State × Action)) (t : State) : Prop :=
  Runs s tr t ∧ ∀ p ∈ tr, p.1.pending = true

/-- The steps that the run loop takes to dispatch a batch. -/
def ofDispatch (act : Action) : Bool := Epoll.State.ofDispatch act.asEpoll

/-- A step is one of the epoll worker, or a constructor. -/
theorem step_cases (hok : s.toState.Ok) (h : s.step act = some t) :
    s.toState.step act.asEpoll = some t.toState ∨
      ∃ b fd registers, act = .construct b fd registers := by
  by_cases hconstruct : ∃ b fd registers, act = .construct b fd registers
  · exact .inr hconstruct
  · refine .inl (step_epoll hok ?_ h)
    cases act with
    | construct b fd registers => exact absurd ⟨b, fd, registers, rfl⟩ hconstruct
    | _ => trivial

/-- A constructor leaves the worker with its deques. -/
theorem construct_frame {b : SocketPtr} {fd : ℕ} {registers : Bool}
    (h : s.construct b fd registers = some t) :
    t.control = s.control ∧ s.sockets.construct b () = some t.sockets ∧
      t.clients ⊆ insert b s.clients := by
  obtain ⟨sockets, -, hnew, hcontrol, -, ⟨-, ht⟩ | ⟨-, ht⟩⟩ := construct_cases h
  · refine ⟨hcontrol, ?_, ?_⟩
    · rw [hnew, ht, Epoll.State.sockets_addRef]
    · rw [ht]
      exact (Epoll.State.clients_addRef_subset _).trans (Finset.subset_insert _ _)
  · refine ⟨hcontrol, ?_, ?_⟩
    · rw [hnew, ht]
      exact congrArg some (Epoll.State.sockets_addRef { s.toState with sockets := sockets }).symm
    · have hsub := Epoll.State.clients_addRef_subset { s.toState with sockets := sockets }
      rw [ht, enroll]
      cases hw : Epoll.State.sta { s.toState with sockets := sockets }.addRef with
      | none =>
          rw [Epoll.State.clients_none (by simp)]
          exact Finset.empty_subset _
      | some w =>
          rw [Epoll.State.clients_some hw] at hsub
          rw [Option.map_some, Epoll.State.clients_some rfl]
          exact Finset.insert_subset_insert b hsub

theorem construct_deques {b : SocketPtr} {fd : ℕ} {registers : Bool} (hok : s.toState.Ok)
    (h : s.construct b fd registers = some t) {w : SocketWorker} (hw : s.sta = some w) :
    ∃ w', t.sta = some w' ∧ w.clients ⊆ w'.clients ∧ w'.called = w.called ∧
      w'.serial = w.serial ∧ ∀ loop, w'.deque loop = w.deque loop := by
  rcases construct_worker hok h hw with ht | ht
  · exact ⟨w, ht, Finset.Subset.refl _, rfl, rfl, fun _ => rfl⟩
  · exact ⟨_, ht, Finset.subset_insert _ _, rfl, rfl, fun loop => by cases loop <;> rfl⟩

/-! ## The calls -/

/-- A step of a dispatch brings the calls of a socket on. -/
theorem progress_step (hok : s.toState.Ok) (hpending : s.pending = true)
    (h : Epoll.State.Progress due a i es s.toState) (hstep : s.step act = some t) :
    Epoll.State.Progress due a i (es ++ (eventAbout event i s act).toList) t.toState := by
  rcases step_cases hok hstep with hepoll | ⟨b, fd, registers, rfl⟩
  · exact h.step hok hpending hepoll
  · obtain ⟨hcontrol, hnew, hclients⟩ := construct_frame hstep
    have hnone : eventAbout event i s (.construct b fd registers) = none := rfl
    rw [hnone, Option.toList_none, List.append_nil]
    refine h.construct hnew hcontrol hclients fun w hw => ?_
    obtain ⟨w', hw', hsub, -, -, hdeques⟩ := construct_deques hok hstep hw
    exact ⟨w', hw', hsub, hdeques⟩

/-! ## The end -/

theorem stepsLeft_step (hok : s.toState.Ok) (hpending : s.pending = true)
    (hstep : s.step act = some t) :
    t.toState.stepsLeft + (if ofDispatch act then 1 else 0) ≤ s.toState.stepsLeft := by
  rcases step_cases hok hstep with hepoll | ⟨b, fd, registers, rfl⟩
  · exact Epoll.State.stepsLeft_step hok hpending hepoll
  · obtain ⟨w, hw, hcalled⟩ := Epoll.State.exists_worker hpending
    obtain ⟨w', hw', -, hcalled', -, hdeques⟩ := construct_deques hok hstep hw
    have herr : w'.err = w.err := hdeques .onDisconnect
    have hread : w'.read = w.read := hdeques .onCanRead
    have hwrite : w'.write = w.write := hdeques .onCanWrite
    rw [Epoll.State.stepsLeft_some hw hcalled,
      Epoll.State.stepsLeft_some hw' (hcalled'.trans hcalled), (construct_frame hstep).1,
      Epoll.State.queued, Epoll.State.queued, herr, hread, hwrite]
    exact Nat.le_refl _

theorem home_step (hok : s.toState.Ok) (hpending : s.pending = true) (h : s.toState.Home)
    (hstep : s.step act = some t) : t.toState.Home := by
  rcases step_cases hok hstep with hepoll | ⟨b, fd, registers, rfl⟩
  · exact h.step hok hpending hepoll
  · obtain ⟨w, hw, hcalled⟩ := Epoll.State.exists_worker hpending
    obtain ⟨w', hw', -, -, hserial, -⟩ := construct_deques hok hstep hw
    intro w₀ n loop hw₀ _ hloop
    obtain rfl : w' = w₀ := Option.some.inj (hw'.symm.trans hw₀)
    rw [(construct_frame hstep).1] at hloop
    rw [hserial]
    exact h w n loop hw hcalled hloop

/-- Until the dispatch is over there is a next step of it, unless a socket that is gone is to be
removed. -/
theorem exists_step (hok : s.toState.Ok) (hpending : s.pending = true) (h : s.toState.Home)
    (hlive : ∀ cur, s.nextRemoval = some cur → s.sockets.serial cur ≠ none) :
    ∃ act t, ofDispatch act = true ∧ s.step act = some t := by
  obtain ⟨act, u, hof, hstep⟩ := h.progress hpending
  obtain ⟨act', rfl⟩ : ∃ act' : Action, act'.asEpoll = act := by
    cases act with
    | dispatch => exact ⟨.dispatch, rfl⟩
    | turn => exact ⟨.turn, rfl⟩
    | ret => exact ⟨.ret, rfl⟩
    | collect batch | construct a registers | destroy a => cases hof
  have hremoves : s.RemovesLive act' := by
    cases act' with
    | turn | ret => exact hlive
    | _ => trivial
  obtain ⟨t, ht⟩ := step_of_epoll hok hremoves hstep
  exact ⟨act', t, hof, ht⟩

/-! ## Whole dispatches -/

/-- What a step of a dispatch keeps, in a run of them from `s'`. -/
theorem dispatch_run {s' : State} {tr : List (State × Action)} (hrun : Dispatch s' tr t)
    (hok : s'.toState.Ok) (hhome : s'.toState.Home)
    (hstart : Epoll.State.Progress due a i [] s'.toState) :
    t.toState.Ok ∧ t.toState.Home ∧
      Epoll.State.Progress due a i (history i tr) t.toState ∧
      tr.countP (ofDispatch ·.2) + t.toState.stepsLeft ≤ s'.toState.stepsLeft := by
  obtain ⟨hsteps, hpending⟩ := hrun
  induction hsteps with
  | nil => exact ⟨hok, hhome, hstart, by simp⟩
  | @snoc tr t u act hsteps hstep ih =>
      rw [List.forall_mem_append] at hpending
      obtain ⟨hbefore, hlast⟩ := hpending
      have hnow : t.pending = true := hlast (t, act) (by simp)
      obtain ⟨hok', hhome', hprogress, hcount⟩ := ih hbefore
      refine ⟨ok_step hok' hstep, home_step hok' hnow hhome' hstep, ?_, ?_⟩
      · rw [history, history_snoc]
        exact progress_step hok' hnow hprogress hstep
      · have hleft := stepsLeft_step hok' hnow hstep
        rw [List.countP_append, List.countP_singleton]
        dsimp only at hleft ⊢
        omega

/-- **A batch of `kevent` makes the calls that are due, and its dispatch ends.**  Whatever the
callbacks construct and destroy: a socket that is registered when the batch is collected gets a
prefix of the calls due to it, then its destructor if it has been destroyed, and nothing else;
the dispatch takes a bounded number of steps, and until it is over there is a next one, unless
`onCall` is about to read from a socket that is gone in order to remove it, as it never is in a
run that spares its sockets (`dispatch_sound`); and when it is over, a socket that is still
there has got all of its calls. -/
theorem kevents_due {tr₀ : List (State × Action)} {s' : State} {batch : Batch}
    (hreach : Runs .init tr₀ s) (hidle : s.control = .idle)
    (hcollect : s.collect batch = some s') (hreg : s.toState.RegisteredAt a i) :
    ∃ bound, ∀ tr t, Dispatch s' tr t →
      tr.countP (ofDispatch ·.2) ≤ bound ∧
      (t.pending = true → (∀ cur, t.nextRemoval = some cur → t.sockets.serial cur ≠ none) →
        ∃ act u, ofDispatch act = true ∧ t.step act = some u) ∧
      ∃ made, made <+: batch.due a ∧
        history i tr = made.map .called ++
          (if t.sockets.serial a = some i then [] else [.destroyed]) ∧
        (t.pending = false → t.sockets.serial a = some i → made = batch.due a) := by
  have hok : s.toState.Ok := ok_run hreach Epoll.State.Ok.init
  have hok' := ok_collect hok hcollect
  have hstep : s.step (.collect batch) = some s' := hcollect
  have hroom : s.HasRoom (.collect batch) := trivial
  have hepoll : s.toState.collect batch.asEpoll = some s'.toState := step_epoll hok hroom hstep
  have hstart := Epoll.State.progress_of_collect hok hidle hepoll hreg
  rw [due_asEpoll] at hstart
  have hhome : s'.toState.Home := by
    intro w n loop hw hcalled hloop
    obtain ⟨w₀, -, -, rfl⟩ := collect_cases hcollect
    rw [hidle] at hloop
    cases hloop
  refine ⟨s'.toState.stepsLeft, fun tr t hrun => ?_⟩
  obtain ⟨hokt, hhomet, hprogress, hcount⟩ := dispatch_run hrun hok' hhome hstart
  exact ⟨Nat.le_of_add_right_le hcount,
    fun hpending hlive => exists_step hokt hpending hhomet hlive, hprogress.calls hokt⟩

/-- Bytes that have come together with the end of a connection, and a socket that can be read
and written; the first one is destroyed in its `onDisconnect`, with a new socket in its place. -/
theorem kevents_due_example : ∃ s s' t tr,
    exec State.step .init [.construct 1 5 true, .construct 2 6 true] = some s ∧
    s.collect ⟨[⟨.EVFILT_WRITE, 0, 2⟩, ⟨.EVFILT_READ, EV_EOF, 1⟩, ⟨.EVFILT_READ, 0, 2⟩],
      by decide, by decide⟩ = some s' ∧
    Dispatch s' tr t ∧ t.pending = false ∧ t.sockets.serial 2 = some 1 ∧
    history 1 tr = [.called .onCanRead, .called .onCanWrite] := by
  let batch : Batch := ⟨[⟨.EVFILT_WRITE, 0, 2⟩, ⟨.EVFILT_READ, EV_EOF, 1⟩, ⟨.EVFILT_READ, 0, 2⟩],
    by decide, by decide⟩
  let s := (exec State.step .init [.construct 1 5 true, .construct 2 6 true]).get (by decide)
  let s' := (s.collect batch).get (by decide)
  let acts : List Action := [.dispatch, .turn, .destroy 1, .construct 1 5 true, .ret, .turn,
    .turn, .ret, .turn, .turn, .ret, .turn]
  let t := (exec State.step s' acts).get (by decide)
  have hs : exec State.step .init [.construct 1 5 true, .construct 2 6 true] = some s :=
    (Option.some_get _).symm
  have hcollect : s.collect batch = some s' := (Option.some_get _).symm
  have ht : exec State.step s' acts = some t := (Option.some_get _).symm
  obtain ⟨tr₀, hreach, -⟩ := exec_run State.step .init _ s hs
  have hrun : Dispatch s' (trace State.step s' acts) t :=
    ⟨(exec_trace State.step s' acts t ht).1, by decide⟩
  have hreg : s.toState.RegisteredAt 2 1 := ⟨by decide, by decide⟩
  obtain ⟨bound, hall⟩ := kevents_due hreach (by decide) hcollect hreg
  obtain ⟨-, -, made, -, hhistory, hmade⟩ := hall _ _ hrun
  have hlives : t.sockets.serial 2 = some 1 := by decide
  have hover : t.pending = false := by decide
  refine ⟨s, s', t, _, hs, hcollect, hrun, hover, hlives, ?_⟩
  rw [hhistory, hmade hover hlives, if_pos hlives]
  decide

end State

end Kqueue

end Craplib
