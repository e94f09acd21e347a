import Craplib.Socket.SelectWatch

/-!
# The end of the select worker

`~SocketWorker` asks the thread to end and joins it.  By then the last socket has deregistered,
and that has set `c` to false.  `requestTermination` signals the condition of the message and
not `c`: a thread that is on its way to `CondLock lock(c, true)`, or waits there, stays there,
and the destructor of the last socket does not return (`Stuck`).

`shutdown_iff` says that this is the only thing that can go wrong, and `refused_stuck` that it
always does where no socket has ever registered.
-/

namespace Craplib

namespace Select

open Machine
open Epoll (SocketPtr Callback Control Event)

/-- The thread is at the constructor of `CondLock lock(c, true)`, or goes there next. -/
def SocketWorker.AtClients (w : SocketWorker) : Prop :=
  w.thread = .locking ∨ w.thread = .waiting ∨ w.thread = .inside

theorem SocketWorker.AtClients.signal {w : SocketWorker} (h : w.AtClients) :
    w.signal.AtClients := by
  have hawake : w.thread ≠ .asleep := by
    intro hasleep
    simp [AtClients, hasleep] at h
  unfold AtClients
  rw [w.thread_signal hawake]
  exact h

namespace State

variable {s t : State} {w : SocketWorker}

/-! ## A thread that waits for a client -/

/-- The worker is being deleted, and its thread needs a client to get on. -/
def Stuck (s : State) : Prop :=
  s.teardown ≠ none ∧ ∃ w, s.sta = some w ∧ w.AtClients

/-- Outside user code there is no constructor and no destructor, and in `~SocketWorker` nothing
but its own two steps. -/
theorem Stuck.step {act : Action} (hok : s.Ok) (h : s.Stuck) (hstep : s.step act = some t) :
    t.Stuck := by
  obtain ⟨hteardown, w, hw, hthread⟩ := h
  have hd : w.d = false := by
    rw [(hok.worker w hw).flag, hok.clients_eq_nil hw (hok.tearing hteardown)]
    rfl
  cases act with
  | thread act =>
      obtain ⟨w₁, w', hw₁, hnext, rfl⟩ := thread_cases hstep
      obtain rfl : w = w₁ := Option.some.inj (hw.symm.trans hw₁)
      refine ⟨hteardown, w', rfl, ?_⟩
      cases act with
      | lock =>
          obtain ⟨-, ⟨hclient, -⟩ | ⟨-, rfl⟩⟩ := SocketWorker.lock_cases hnext
          · rw [hd] at hclient
            cases hclient
          · exact .inr (.inl rfl)
      | select left =>
          obtain ⟨nfds, hat, -⟩ := SocketWorker.select_cases hnext
          simp [SocketWorker.AtClients, hat] at hthread
      | fail =>
          obtain ⟨nfds, -, rfl⟩ := SocketWorker.fail_cases hnext
          exact .inl rfl
      | enter =>
          obtain ⟨hat, -⟩ := SocketWorker.enter_cases hnext
          simp [SocketWorker.AtClients, hat] at hthread
      | work =>
          obtain ⟨-, rfl⟩ := SocketWorker.work_cases hnext
          exact .inl rfl
      | wake =>
          obtain ⟨-, rfl⟩ | ⟨hat, -⟩ := SocketWorker.wake_cases hnext
          · exact .inl rfl
          · simp [SocketWorker.AtClients, hat] at hthread
  | dispatch =>
      obtain ⟨-, -, -, hfree, -⟩ := dispatch_cases hstep
      exact absurd hfree hteardown
  | turn =>
      obtain ⟨n, loop, w₁, hcontrol, hw₁, -, hcase⟩ := turn_cases hstep
      obtain rfl : w = w₁ := Option.some.inj (hw.symm.trans hw₁)
      rcases hcase with ⟨cur, rest, -, rfl⟩ | ⟨loop', -, -, rfl⟩ | ⟨-, -, rfl⟩
      · refine ⟨hteardown, _, rfl, ?_⟩
        unfold SocketWorker.AtClients
        rw [SocketWorker.thread_popFront]
        exact hthread
      · exact ⟨hteardown, w, hw, hthread⟩
      · exact ⟨hteardown, _, rfl, SocketWorker.AtClients.signal hthread⟩
  | ret =>
      obtain ⟨-, -, -, -, -, hfree, -⟩ := ret_cases hstep
      exact absurd hfree hteardown
  | construct a sock registers =>
      obtain ⟨-, huser, -⟩ := construct_cases hstep
      exact absurd (inUserCode_cases huser).1 hteardown
  | destroy a =>
      obtain ⟨-, -, huser, -⟩ := destroy_cases hstep
      exact absurd (inUserCode_cases huser).1 hteardown
  | requestTermination =>
      obtain ⟨w₁, hw₁, -, -, rfl⟩ := requestTermination_cases hstep
      obtain rfl : w = w₁ := Option.some.inj (hw.symm.trans hw₁)
      exact ⟨Option.some_ne_none _, _, rfl, SocketWorker.AtClients.signal hthread⟩
  | join =>
      obtain ⟨w₁, hw₁, -, hended, -⟩ := join_cases hstep
      obtain rfl : w = w₁ := Option.some.inj (hw.symm.trans hw₁)
      simp [SocketWorker.AtClients, hended] at hthread

theorem Stuck.run {tr : List (State × Action)} (hok : s.Ok) (h : s.Stuck) (hrun : Runs s tr t) :
    t.Stuck :=
  (hrun.invariant (I := fun s => s.Ok ∧ s.Stuck)
    (fun _ _ _ hboth hstep => ⟨hboth.1.step hstep, hboth.2.step hboth.1 hstep⟩) ⟨hok, h⟩).2

/-! ## A thread that does not -/

/-- In `select` the thread waits for some descriptor. -/
def Asking (w : SocketWorker) : Prop :=
  ∀ nfds, w.thread = .selecting nfds → ∃ sock ∈ w.sets.readfd, sock < nfds

theorem Asking.of_same {w w' : SocketWorker} (h : Asking w)
    (hthread : ∀ nfds, w'.thread = .selecting nfds → w.thread = .selecting nfds)
    (hsets : w'.sets = w.sets) : Asking w' :=
  fun nfds hat => hsets ▸ h nfds (hthread nfds hat)

theorem Asking.signal {w w' : SocketWorker} (h : Asking w) (hthread : w'.thread = w.thread)
    (hsets : w'.sets = w.sets) : Asking w'.signal := by
  refine h.of_same (fun nfds hat => ?_) hsets
  rw [SocketWorker.signal, hthread] at hat
  dsimp only at hat
  split_ifs at hat
  exact hat

theorem asking_thread {act : ThreadAction} {w' : SocketWorker} (hok : s.Ok) (hw : s.sta = some w)
    (hstep : w.threadStep s.getSock act = some w') : Asking w' := by
  intro nfds hat
  cases act with
  | lock =>
      obtain ⟨hlocking, -⟩ := SocketWorker.lock_cases hstep
      obtain ⟨t, w₁, hlock, hw₁, ⟨-, hwait⟩ | ⟨hsome, n, hthread, hsets⟩⟩ :=
        lock_eq hok hw hlocking
      · rw [step_thread hw hstep] at hlock
        obtain rfl := Option.some.inj hlock
        obtain rfl := Option.some.inj hw₁
        rw [hwait] at hat
        cases hat
      · rw [step_thread hw hstep] at hlock
        obtain rfl := Option.some.inj hlock
        obtain rfl := Option.some.inj hw₁
        rw [hthread] at hat
        cases hat
        obtain ⟨a, ha⟩ := List.exists_mem_of_ne_nil _ hsome
        obtain ⟨sock, hsock, -⟩ := (hok.worker w hw).live a ha
        have hin := (hsets .onCanRead sock).1.mpr ⟨a, ha, hsock⟩
        exact ⟨sock, hin, ((hsets .onCanRead sock).2 hin).1⟩
  | select left =>
      obtain ⟨n, -, -, rfl⟩ := SocketWorker.select_cases hstep
      dsimp only at hat
      split_ifs at hat
  | fail =>
      obtain ⟨n, -, rfl⟩ := SocketWorker.fail_cases hstep
      cases hat
  | enter =>
      obtain ⟨-, ⟨-, rfl⟩ | ⟨-, -, rfl⟩ | ⟨-, -, rfl⟩⟩ := SocketWorker.enter_cases hstep
      all_goals cases hat
  | work =>
      obtain ⟨-, rfl⟩ := SocketWorker.work_cases hstep
      cases hat
  | wake =>
      obtain ⟨-, rfl⟩ | ⟨-, rfl⟩ := SocketWorker.wake_cases hstep <;> cases hat

/-- What holds on the way to the end: a thread in `select` has something to wait for, and once
the thread has been told to end it is not in `ActiveCall` any more. -/
structure Leaving (s : State) : Prop where
  asking : ∀ w, s.sta = some w → Asking w
  told : ∀ w, s.sta = some w → s.teardown = some .joining →
    w.destroyed = true ∧ w.called = false ∧ w.thread ≠ .inside

namespace Leaving

theorem init : State.init.Leaving where
  asking w hw := by cases hw
  told w hw := by cases hw

/-- Outside of `~SocketWorker` there is only the first to keep. -/
theorem free (hasking : ∀ w, t.sta = some w → Asking w) (hteardown : t.teardown ≠ some .joining) :
    t.Leaving :=
  ⟨hasking, fun _ _ hjoining => absurd hjoining hteardown⟩

/-- A thread that has been told to end ends. -/
theorem told_thread {act : ThreadAction} {w' : SocketWorker}
    (hstep : w.threadStep s.getSock act = some w') (htold : w.destroyed = true)
    (hfree : w.called = false) (hout : w.thread ≠ .inside) :
    w'.destroyed = true ∧ w'.called = false ∧ w'.thread ≠ .inside := by
  obtain ⟨-, -, -, hdestroyed, hcalled⟩ := SocketWorker.threadStep_frame hstep
  have hnot : act ≠ .work := by
    rintro rfl
    exact hout (SocketWorker.work_cases hstep).1
  refine ⟨hdestroyed.trans htold,
    (hcalled.resolve_right fun hwork => hnot hwork.1).trans hfree, ?_⟩
  cases act with
  | lock =>
      obtain ⟨-, ⟨-, hprepare⟩ | ⟨-, rfl⟩⟩ := SocketWorker.lock_cases hstep
      · obtain ⟨sets, maxSock, -, rfl⟩ := SocketWorker.prepare_cases hprepare
        exact Position.noConfusion
      · exact Position.noConfusion
  | select left =>
      obtain ⟨n, -, -, rfl⟩ := SocketWorker.select_cases hstep
      dsimp only
      split_ifs <;> exact Position.noConfusion
  | fail =>
      obtain ⟨n, -, rfl⟩ := SocketWorker.fail_cases hstep
      exact Position.noConfusion
  | enter =>
      obtain ⟨-, ⟨-, rfl⟩ | ⟨-, -, rfl⟩ | ⟨-, hspared, -⟩⟩ := SocketWorker.enter_cases hstep
      · exact Position.noConfusion
      · exact Position.noConfusion
      · rw [htold] at hspared
        cases hspared
  | work => exact absurd rfl hnot
  | wake =>
      obtain ⟨-, rfl⟩ | ⟨-, rfl⟩ := SocketWorker.wake_cases hstep <;> exact Position.noConfusion

theorem signal_ne_inside (hout : w.thread ≠ .inside) : w.signal.thread ≠ .inside := by
  unfold SocketWorker.signal
  dsimp only
  split_ifs
  · exact Position.noConfusion
  · exact hout

theorem step {act : Action} (hok : s.Ok) (h : s.Leaving) (hstep : s.step act = some t) :
    t.Leaving := by
  cases act with
  | thread act =>
      obtain ⟨w, w', hw, hthread, rfl⟩ := thread_cases hstep
      refine ⟨?_, ?_⟩
      · rintro _ ⟨rfl⟩
        exact asking_thread hok hw hthread
      · rintro _ ⟨rfl⟩ hjoining
        obtain ⟨htold, hfree, hout⟩ := h.told w hw hjoining
        exact told_thread hthread htold hfree hout
  | dispatch =>
      obtain ⟨w, hw, -, hteardown, -, hcase⟩ := dispatch_cases hstep
      have hasking := h.asking w hw
      rcases hcase with ⟨w', -, hqueue, rfl⟩ | ⟨-, rfl⟩
      · rw [SocketWorker.queueChanges_eq w (hok.worker w hw).live_ne_none] at hqueue
        obtain rfl := Option.some.inj hqueue
        refine free ?_ (by rw [hteardown]; exact (Option.some_ne_none _).symm)
        rintro _ ⟨rfl⟩
        exact hasking
      · refine free ?_ (by rw [hteardown]; exact (Option.some_ne_none _).symm)
        rintro _ ⟨rfl⟩
        exact hasking.signal rfl rfl
  | turn =>
      obtain ⟨n, loop, w, -, hw, -, hcase⟩ := turn_cases hstep
      have hasking := h.asking w hw
      have htold := h.told w hw
      rcases hcase with ⟨cur, rest, -, rfl⟩ | ⟨loop', -, -, rfl⟩ | ⟨-, -, rfl⟩
      · refine ⟨?_, ?_⟩
        · rintro _ ⟨rfl⟩
          exact hasking.of_same (fun nfds hat => by rwa [SocketWorker.thread_popFront] at hat)
            (by cases loop <;> rfl)
        · rintro _ ⟨rfl⟩ hjoining
          rw [SocketWorker.called_popFront, SocketWorker.thread_popFront]
          cases loop <;> exact htold hjoining
      · exact ⟨h.asking, h.told⟩
      · refine ⟨?_, ?_⟩
        · rintro _ ⟨rfl⟩
          exact hasking.signal rfl rfl
        · rintro _ ⟨rfl⟩ hjoining
          obtain ⟨hdestroyed, -, hout⟩ := htold hjoining
          exact ⟨hdestroyed, rfl, signal_ne_inside hout⟩
  | ret =>
      obtain ⟨n, loop, cur, w, -, -, -, -, rfl⟩ := ret_cases hstep
      exact ⟨h.asking, h.told⟩
  | construct a sock registers =>
      obtain ⟨-, huser, -⟩ := construct_cases hstep
      obtain ⟨-, -, hteardown, w, hwhere, hw'⟩ := construct_frame hok hstep
      refine free ?_ (by
        rw [hteardown, (inUserCode_cases huser).1]
        exact (Option.some_ne_none _).symm)
      intro w₁ hw₁
      obtain rfl := Option.some.inj (hw'.symm.trans hw₁)
      have hasking : Asking w := by
        rcases hwhere with ⟨-, rfl⟩ | hw
        · exact fun nfds hat => by cases hat
        · exact h.asking w hw
      cases registers with
      | false => exact hasking
      | true =>
          rw [if_pos rfl]
          unfold SocketWorker.registerSocket
          split_ifs
          · exact hasking
          · refine hasking.of_same (fun nfds hat => ?_) rfl
            unfold SocketWorker.set at hat
            dsimp only at hat
            split_ifs at hat
            exact hat
  | destroy a =>
      obtain ⟨i, w, -, -, hw, rfl⟩ := destroy_cases hstep
      refine free ?_ (by dsimp only; split_ifs <;> simp)
      rintro _ ⟨rfl⟩
      refine (h.asking w hw).of_same (fun nfds hat => ?_) rfl
      unfold SocketWorker.deregisterSocket SocketWorker.set at hat
      dsimp only at hat
      split_ifs at hat
      exact hat
  | requestTermination =>
      obtain ⟨w, hw, -, hout, rfl⟩ := requestTermination_cases hstep
      refine ⟨?_, ?_⟩
      · rintro _ ⟨rfl⟩
        exact (h.asking w hw).signal rfl rfl
      · rintro _ ⟨rfl⟩ -
        exact ⟨rfl, rfl, signal_ne_inside hout⟩
  | join =>
      obtain ⟨w, -, -, -, rfl⟩ := join_cases hstep
      exact free (fun w hw => by cases hw) (Option.some_ne_none _).symm

theorem run {tr : List (State × Action)} (hrun : Runs .init tr t) : t.Leaving :=
  (hrun.invariant (I := fun s => s.Ok ∧ s.Leaving)
    (fun _ _ _ hboth hstep => ⟨hboth.1.step hstep, hboth.2.step hboth.1 hstep⟩)
    ⟨Ok.init, init⟩).2

end Leaving

/-! ## The end -/

/-- `~SocketWorker` may still return. -/
def CanReturn (s : State) : Prop := ∃ tr t, Runs s tr t ∧ t.teardown = none

theorem CanReturn.cons {act : Action} (hstep : s.step act = some t) (h : t.CanReturn) :
    s.CanReturn := by
  obtain ⟨tr, u, hrun, hend⟩ := h
  exact ⟨(s, act) :: tr, u, Run.cons_iff.mpr ⟨rfl, t, hstep, hrun⟩, hend⟩

theorem canReturn_of_ended (hw : s.sta = some w) (hjoining : s.teardown = some .joining)
    (hended : w.thread = .ended) : s.CanReturn := by
  have hstep : s.step .join = some { s with sta := none, teardown := none } := by
    change s.sta.bind _ = _
    rw [hw, Option.bind_some]
    exact if_pos ⟨hjoining, hended⟩
  exact .cons hstep ⟨[], _, .nil, rfl⟩

theorem canReturn_of_entering (hw : s.sta = some w) (hjoining : s.teardown = some .joining)
    (htold : w.destroyed = true) (hfree : w.called = false) (hentering : w.thread = .entering) :
    s.CanReturn := by
  have hthread : w.threadStep s.getSock .enter = some { w with thread := .ended } := by
    unfold SocketWorker.threadStep
    rw [hentering]
    dsimp only
    rw [if_neg (by rw [hfree]; exact Bool.false_ne_true), if_pos htold]
  exact .cons (step_thread hw hthread) (canReturn_of_ended rfl hjoining rfl)

/-- From where the thread has been told to end and is not at `c`. -/
theorem canReturn_of_joining (h : s.Leaving) (hw : s.sta = some w)
    (hjoining : s.teardown = some .joining) (haway : ¬ w.AtClients) : s.CanReturn := by
  obtain ⟨htold, hfree, hout⟩ := h.told w hw hjoining
  cases hthread : w.thread with
  | locking => exact absurd (.inl hthread) haway
  | waiting => exact absurd (.inr (.inl hthread)) haway
  | selecting nfds =>
      -- something happens on a descriptor
      obtain ⟨sock, hsock, hlt⟩ := h.asking w hw nfds hthread
      have hleft : FdSets.LeftOf ⟨{sock}, ∅, ∅⟩ w.sets nfds := by
        refine ⟨fun x hx => ?_, by simp, by simp⟩
        obtain rfl := Finset.mem_singleton.mp hx
        exact ⟨hsock, hlt⟩
      have hselect : w.threadStep s.getSock (.select ⟨{sock}, ∅, ∅⟩) =
          some { w with sets := ⟨{sock}, ∅, ∅⟩, thread := .entering } := by
        unfold SocketWorker.threadStep
        rw [hthread]
        dsimp only
        rw [if_pos hleft, if_pos (by simp [FdSets.count])]
      exact .cons (step_thread hw hselect) (canReturn_of_entering rfl hjoining htold hfree rfl)
  | entering => exact canReturn_of_entering hw hjoining htold hfree hthread
  | asleep =>
      have hwake : w.threadStep s.getSock .wake = some { w with thread := .entering } := by
        unfold SocketWorker.threadStep
        rw [hthread]
        dsimp only
        rw [SocketWorker.signal, if_pos hthread]
      exact .cons (step_thread hw hwake) (canReturn_of_entering rfl hjoining htold hfree rfl)
  | inside => exact absurd hthread hout
  | ended => exact canReturn_of_ended hw hjoining hthread

/-- From where the thread is to be told. -/
theorem canReturn_of_requesting (hok : s.Ok) (h : s.Leaving) (hw : s.sta = some w)
    (hrequesting : s.teardown = some .requesting) (haway : ¬ w.AtClients) : s.CanReturn := by
  have hout : w.thread ≠ .inside := fun hinside => haway (.inr (.inr hinside))
  have hstep : s.step .requestTermination =
      some { s with sta := some { w with destroyed := true, called := false }.signal,
                    teardown := some .joining } := by
    change s.sta.bind _ = _
    rw [hw, Option.bind_some]
    exact if_pos ⟨hrequesting, hout⟩
  refine .cons hstep (canReturn_of_joining (h.step hok hstep) rfl rfl ?_)
  rintro (hat | hat | hat)
  all_goals
    unfold SocketWorker.signal at hat
    dsimp only at hat
    split_ifs at hat
  · exact haway (.inl hat)
  · exact haway (.inr (.inl hat))
  · exact hout hat

end State

/-- **When the destructor of the last socket returns.**  In every run, where `~SocketWorker` runs:
it can still return exactly when the thread is not at the mutex of `c`, nor waits there, nor is
about to go back there from `ActiveCall`. -/
theorem shutdown_iff {tr : List (State × Action)} {s : State} {w : SocketWorker}
    (hrun : Runs .init tr s) (hteardown : s.teardown ≠ none) (hw : s.sta = some w) :
    s.CanReturn ↔ w.thread ≠ .locking ∧ w.thread ≠ .waiting ∧ w.thread ≠ .inside := by
  have hok := State.Ok.init.run hrun
  have hleaving := State.Leaving.run hrun
  have hiff : (w.thread ≠ .locking ∧ w.thread ≠ .waiting ∧ w.thread ≠ .inside) ↔
      ¬ w.AtClients := by
    unfold SocketWorker.AtClients
    tauto
  rw [hiff]
  constructor
  · rintro ⟨tr', t, hrest, hend⟩ hat
    exact (State.Stuck.run hok ⟨hteardown, w, hw, hat⟩ hrest).1 hend
  · intro haway
    obtain ⟨phase, hphase⟩ := Option.ne_none_iff_exists'.mp hteardown
    cases phase with
    | requesting => exact State.canReturn_of_requesting hok hleaving hw hphase haway
    | joining => exact State.canReturn_of_joining hleaving hw hphase haway

/-- The last socket is destroyed while the thread is in `select`, and while it waits for the
mutex of `c`. -/
theorem shutdown_iff_example :
    (∃ tr s w, Runs .init tr s ∧
      actions tr = [.construct 1 3 true, .thread .lock, .destroy 1] ∧
      s.teardown ≠ none ∧ s.sta = some w ∧ w.thread = .selecting 4 ∧
      (s.CanReturn ↔ w.thread ≠ .locking ∧ w.thread ≠ .waiting ∧ w.thread ≠ .inside)) ∧
    ∃ tr s w, Runs .init tr s ∧ actions tr = [.construct 1 3 true, .destroy 1] ∧
      s.teardown ≠ none ∧ s.sta = some w ∧ w.thread = .locking ∧
      (s.CanReturn ↔ w.thread ≠ .locking ∧ w.thread ≠ .waiting ∧ w.thread ≠ .inside) := by
  have hrun : ∀ acts thread, (exec State.step .init acts).map (fun s =>
      (s.teardown, s.sta.map SocketWorker.thread)) = some (some .requesting, some thread) →
      ∃ tr s w, Runs .init tr s ∧ actions tr = acts ∧ s.teardown ≠ none ∧ s.sta = some w ∧
        w.thread = thread := by
    intro acts thread hexec
    obtain ⟨s, hs, hboth⟩ := Option.map_eq_some_iff.mp hexec
    obtain ⟨hteardown, hsta⟩ := Prod.mk.injEq _ _ _ _ ▸ hboth
    obtain ⟨w, hw, hthread⟩ := Option.map_eq_some_iff.mp hsta
    obtain ⟨tr, hrun, hacts⟩ := exec_run _ _ _ _ hs
    exact ⟨tr, s, w, hrun, hacts, hteardown ▸ Option.some_ne_none _, hw, hthread⟩
  obtain ⟨tr, s, w, hreach, hacts, hteardown, hw, hthread⟩ :=
    hrun [.construct 1 3 true, .thread .lock, .destroy 1] (.selecting 4) (by decide)
  obtain ⟨tr', s', w', hreach', hacts', hteardown', hw', hthread'⟩ :=
    hrun [.construct 1 3 true, .destroy 1] .locking (by decide)
  exact ⟨⟨tr, s, w, hreach, hacts, hteardown, hw, hthread, shutdown_iff hreach hteardown hw⟩,
    tr', s', w', hreach', hacts', hteardown', hw', hthread', shutdown_iff hreach' hteardown' hw'⟩

/-! ## Sockets that have been refused -/

namespace State

variable {s t : State}

/-- No socket has registered, and the thread has not got past `CondLock lock(c, true)`. -/
def Clientless (s : State) : Prop :=
  ∀ w, s.sta = some w → w.clients = [] ∧ (w.thread = .locking ∨ w.thread = .waiting)

theorem Clientless.signal {w w' : SocketWorker}
    (h : w.clients = [] ∧ (w.thread = .locking ∨ w.thread = .waiting))
    (hclients : w'.clients = w.clients) (hthread : w'.thread = w.thread) :
    w'.signal.clients = [] ∧ (w'.signal.thread = .locking ∨ w'.signal.thread = .waiting) := by
  rw [← hclients, ← hthread] at h
  have hawake : w'.thread ≠ .asleep := by
    intro hasleep
    simp [hasleep] at h
  rw [w'.thread_signal hawake]
  exact h

theorem Clientless.step {act : Action} (hok : s.Ok) (h : s.Clientless)
    (hstep : s.step act = some t)
    (hrefused : ∀ a sock, act = .construct a sock true → FD_SETSIZE ≤ sock) : t.Clientless := by
  cases act with
  | thread act =>
      obtain ⟨w, w', hw, hthread, rfl⟩ := thread_cases hstep
      obtain ⟨hnone, hat⟩ := h w hw
      obtain ⟨-, hclients, -⟩ := SocketWorker.threadStep_frame hthread
      rintro _ ⟨rfl⟩
      refine ⟨hclients.trans hnone, ?_⟩
      cases act with
      | lock =>
          obtain ⟨-, ⟨hd, -⟩ | ⟨-, rfl⟩⟩ := SocketWorker.lock_cases hthread
          · rw [(hok.worker w hw).flag, hnone] at hd
            cases hd
          · exact .inr rfl
      | select left =>
          obtain ⟨n, hselecting, -⟩ := SocketWorker.select_cases hthread
          simp [hselecting] at hat
      | fail =>
          obtain ⟨n, -, rfl⟩ := SocketWorker.fail_cases hthread
          exact .inl rfl
      | enter =>
          obtain ⟨hentering, -⟩ := SocketWorker.enter_cases hthread
          simp [hentering] at hat
      | work =>
          obtain ⟨-, rfl⟩ := SocketWorker.work_cases hthread
          exact .inl rfl
      | wake =>
          obtain ⟨-, rfl⟩ | ⟨hasleep, -⟩ := SocketWorker.wake_cases hthread
          · exact .inl rfl
          · simp [hasleep] at hat
  | dispatch =>
      obtain ⟨w, hw, -, -, -, ⟨w', -, hqueue, rfl⟩ | ⟨-, rfl⟩⟩ := dispatch_cases hstep
      · rw [SocketWorker.queueChanges_eq w (hok.worker w hw).live_ne_none] at hqueue
        obtain rfl := Option.some.inj hqueue
        rintro _ ⟨rfl⟩
        exact h w hw
      · rintro _ ⟨rfl⟩
        exact signal (h w hw) rfl rfl
  | turn =>
      obtain ⟨n, loop, w, -, hw, -, hcase⟩ := turn_cases hstep
      rcases hcase with ⟨cur, rest, -, rfl⟩ | ⟨loop', -, -, rfl⟩ | ⟨-, -, rfl⟩
      · rintro _ ⟨rfl⟩
        rw [SocketWorker.clients_popFront, SocketWorker.thread_popFront]
        exact h w hw
      · exact h
      · rintro _ ⟨rfl⟩
        exact signal (h w hw) rfl rfl
  | ret =>
      obtain ⟨n, loop, cur, w, -, -, -, -, rfl⟩ := ret_cases hstep
      exact h
  | construct a sock registers =>
      obtain ⟨-, -, -, w, hwhere, hw'⟩ := construct_frame hok hstep
      have hbefore : w.clients = [] ∧ (w.thread = .locking ∨ w.thread = .waiting) := by
        rcases hwhere with ⟨-, rfl⟩ | hw
        · exact ⟨rfl, .inl rfl⟩
        · exact h w hw
      intro w₁ hw₁
      obtain rfl := Option.some.inj (hw'.symm.trans hw₁)
      cases registers with
      | false => exact hbefore
      | true =>
          have hfull : w.registerSocket a sock = w := if_pos (hrefused a sock rfl)
          rw [if_pos rfl, hfull]
          exact hbefore
  | destroy a =>
      obtain ⟨i, w, -, -, hw, rfl⟩ := destroy_cases hstep
      obtain ⟨hnone, hat⟩ := h w hw
      rintro _ ⟨rfl⟩
      constructor
      · rw [SocketWorker.clients_deregisterSocket, hnone]
        rfl
      · left
        rcases hat with hat | hat <;> simp [SocketWorker.deregisterSocket, SocketWorker.set, hat]
  | requestTermination =>
      obtain ⟨w, hw, -, -, rfl⟩ := requestTermination_cases hstep
      rintro _ ⟨rfl⟩
      exact signal (h w hw) rfl rfl
  | join =>
      obtain ⟨w, -, -, -, rfl⟩ := join_cases hstep
      exact fun w hw => by cases hw

end State

/-- **Refused sockets cannot be destroyed.**  In a program in which no socket has got as far as
`registerSocket`, or none has found room there, the destructor of the last one never returns. -/
theorem refused_stuck {tr : List (State × Action)} {s : State} (hrun : Runs .init tr s)
    (hrefused : ∀ p ∈ tr, ∀ a sock, p.2 = .construct a sock true → FD_SETSIZE ≤ sock)
    (hteardown : s.teardown ≠ none) : ¬ s.CanReturn := by
  have hok := State.Ok.init.run hrun
  have hclientless : s.Clientless := by
    clear hteardown hok
    induction hrun with
    | nil => exact fun w hw => by cases hw
    | @snoc tr s t act hrun hstep ih =>
        rw [List.forall_mem_append] at hrefused
        exact (ih hrefused.1).step (State.Ok.init.run hrun) hstep
          (hrefused.2 (s, act) (List.mem_singleton.mpr rfl))
  have hsta : s.sta ≠ none := fun hnone => hteardown (hok.shared.mp hnone).2
  obtain ⟨w, hw⟩ := Option.ne_none_iff_exists'.mp hsta
  rintro ⟨tr', t, hrest, hend⟩
  have hat : w.AtClients := by
    rcases (hclientless w hw).2 with hat | hat
    · exact .inl hat
    · exact .inr (.inl hat)
  exact (State.Stuck.run hok ⟨hteardown, w, hw, hat⟩ hrest).1 hend

/-- One socket whose `connect` fails, and one without room. -/
theorem refused_stuck_example : ∃ tr s, Runs .init tr s ∧
    actions tr = [.construct 1 3 false, .thread .lock, .construct 2 1024 true, .destroy 1,
      .thread .lock, .thread .wake, .destroy 2] ∧ s.teardown ≠ none ∧ ¬ s.CanReturn := by
  have hexec : (exec State.step .init [.construct 1 3 false, .thread .lock,
      .construct 2 1024 true, .destroy 1, .thread .lock, .thread .wake, .destroy 2]).map
        State.teardown = some (some .requesting) := by decide
  obtain ⟨s, hs, hphase⟩ := Option.map_eq_some_iff.mp hexec
  obtain ⟨tr, hrun, hacts⟩ := exec_run _ _ _ _ hs
  have hteardown : s.teardown ≠ none := hphase ▸ Option.some_ne_none _
  refine ⟨tr, s, hrun, hacts, hteardown,
    refused_stuck hrun (fun p hp a sock hact => ?_) hteardown⟩
  have hmem : p.2 ∈ actions tr := List.mem_map_of_mem hp
  rw [hacts, hact] at hmem
  obtain ⟨rfl, rfl⟩ : a = 2 ∧ sock = 1024 := by simpa using hmem
  exact Int.le_refl _

end Select

end Craplib
