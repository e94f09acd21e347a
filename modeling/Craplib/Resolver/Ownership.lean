import Craplib.Lib.Conservation
import Craplib.Resolver.Joining

/-!
# Who frees what `getaddrinfo` returns

A result is obtained by the worker's thread, is in its hand until the message is free, and is
then kept in `res`.  The next result to be published frees it, and `~Worker` frees the last.

* `results_accounted` — nothing is freed twice or lost on this way, and nothing is freed while
  the delegate looks at it.
* `results_dropped` — what is lost: the constructor of `ActiveCall` throws when the worker is
  being destroyed, and `local_res` is a bare pointer.
-/

namespace Craplib

namespace Resolver

namespace Shutdown

open Machine

namespace State

variable {s t : State}

/-! ## The results -/

/-- The result that `getaddrinfo` returns in a step. -/
def obtains (_ : State) : Action → List AddrInfoPtr
  | .thread (.lookup res) => res.toList
  | _ => []

/-- The result that a step frees. -/
def frees (s : State) : Action → List AddrInfoPtr
  | .thread .publish => s.res.toList
  | .loop .join => s.res.toList
  | _ => []

/-- The result that the thread has in its hand when it ends. -/
def drops (s : State) : Action → List AddrInfoPtr
  | .thread .enter =>
      match s.position with
      | .entering _ res => if s.called = false ∧ s.destroyed = true then res.toList else []
      | _ => []
  | _ => []

/-- `local_res`, from the end of `getaddrinfo` on. -/
def inHand (s : State) : List AddrInfoPtr :=
  match s.position with
  | .entering _ res | .asleep _ res | .inside _ res => res.toList
  | _ => []

/-- `res`, as long as there is a worker. -/
def kept (s : State) : List AddrInfoPtr := if s.control = .joined then [] else s.res.toList

/-- The results that have still to be freed. -/
def held (s : State) : List AddrInfoPtr := s.kept ++ s.inHand

/-- The worker has the same results as before. -/
theorem held_congr (hposition : t.inHand = s.inHand) (hres : t.res = s.res)
    (hcontrol : t.control = .joined ↔ s.control = .joined) : t.held = s.held := by
  unfold held kept
  rw [hposition, hres]
  simp only [hcontrol]

theorem inHand_signalWork (s : State) : s.signalWork.inHand = s.inHand := by
  unfold signalWork
  split
  · next hpos =>
      unfold inHand
      rw [hpos]
  · rfl

theorem inHand_signalMsg (s : State) : s.signalMsg.inHand = s.inHand := by
  unfold signalMsg
  split
  · next hpos =>
      unfold inHand
      rw [hpos]
  · rfl

theorem res_signalWork (s : State) : s.signalWork.res = s.res := by
  unfold signalWork
  split <;> rfl

theorem res_signalMsg (s : State) : s.signalMsg.res = s.res := by
  unfold signalMsg
  split <;> rfl

/-- A step that obtains and frees nothing. -/
theorem conserved_of_same {act : Action} (hobtains : s.obtains act = [])
    (hfrees : s.frees act = []) (hdrops : s.drops act = []) (hheld : t.held = s.held) :
    (s.frees act ++ s.drops act ++ t.held).Perm (s.held ++ s.obtains act) := by
  rw [hobtains, hfrees, hdrops, hheld]
  simp

theorem conserved_thread {act : ThreadAction} (hok : s.Ok) (hstep : s.threadStep act = some t) :
    (s.frees (.thread act) ++ s.drops (.thread act) ++ t.held).Perm
      (s.held ++ s.obtains (.thread act)) := by
  cases act with
  | lockWork =>
      obtain ⟨hpos, -, ⟨-, rfl⟩ | ⟨-, rfl⟩⟩ := lockWork_cases hstep
      all_goals
        exact conserved_of_same rfl rfl rfl (held_congr (by simp [inHand, hpos]) rfl Iff.rfl)
  | check =>
      obtain ⟨hpos, ⟨-, rfl⟩ | ⟨-, rfl⟩⟩ := check_cases hstep
      all_goals
        exact conserved_of_same rfl rfl rfl (held_congr (by simp [inHand, hpos]) rfl Iff.rfl)
  | take =>
      obtain ⟨hpos, hs, rest, -, rfl⟩ := take_cases hstep
      exact conserved_of_same rfl rfl rfl (held_congr (by simp [inHand, hpos]) rfl Iff.rfl)
  | lookup res =>
      obtain ⟨work, hpos, rfl⟩ := lookup_cases hstep
      simp [frees, drops, obtains, held, kept, inHand, hpos]
  | enter =>
      obtain ⟨work, res, hpos, -, ⟨hcalled, rfl⟩ | ⟨hcalled, hgone, rfl⟩ | ⟨-, hgone, rfl⟩⟩ :=
        enter_cases hstep
      · exact conserved_of_same rfl rfl (by simp [drops, hpos, hcalled])
          (held_congr (by simp [inHand, hpos]) rfl Iff.rfl)
      · -- the constructor throws
        simp only [frees, drops, obtains, held, kept, inHand, hpos, hcalled, hgone, and_self,
          if_true, List.nil_append, List.append_nil]
        exact List.perm_append_comm
      · exact conserved_of_same rfl rfl (by simp [drops, hpos, hgone])
          (held_congr (by simp [inHand, hpos]) rfl Iff.rfl)
  | publish =>
      obtain ⟨work, res, hpos, rfl⟩ := publish_cases hstep
      have hlive : s.control ≠ .joined := fun hjoined => by
        simpa [hpos] using hok.ended hjoined
      simp [frees, drops, obtains, held, kept, inHand, hpos, hlive]
  | leave =>
      obtain ⟨hpos, rfl⟩ := leave_cases hstep
      exact conserved_of_same rfl rfl rfl (held_congr (by simp [inHand, hpos]) rfl Iff.rfl)

theorem conserved_loop {act : LoopAction} (hstep : s.loopStep act = some t) :
    (s.frees (.loop act) ++ s.drops (.loop act) ++ t.held).Perm
      (s.held ++ s.obtains (.loop act)) := by
  have hturn : (act = .deliver ∨ act = .ret ∨ act = .destroy) → t.held = s.held := by
    intro hact
    obtain ⟨hbefore, hafter, queued, heq⟩ := turn_cases hact hstep
    rw [heq]
    refine held_congr rfl rfl ⟨fun hjoined => ?_, fun hjoined => ?_⟩
    · dsimp only at hjoined
      rw [hjoined] at hafter
      cases hafter
    · rw [hjoined] at hbefore
      cases hbefore
  cases act with
  | startWork addr hs =>
      obtain ⟨-, -, rfl⟩ := startWork_cases hstep
      exact conserved_of_same rfl rfl rfl
        (held_congr (inHand_signalWork _) (res_signalWork _) (by rw [signalWork_control]))
  | deliver => exact conserved_of_same rfl rfl rfl (hturn (.inl rfl))
  | ret => exact conserved_of_same rfl rfl rfl (hturn (.inr (.inl rfl)))
  | destroy => exact conserved_of_same rfl rfl rfl (hturn (.inr (.inr rfl)))
  | release =>
      obtain ⟨hcontrol, -, rfl⟩ := release_cases hstep
      exact conserved_of_same rfl rfl rfl (held_congr (inHand_signalMsg _) (res_signalMsg _)
        (by rw [signalMsg_control, hcontrol]; simp))
  | requestTermination =>
      obtain ⟨hcontrol, -, rfl⟩ := requestTermination_cases hstep
      exact conserved_of_same rfl rfl rfl (held_congr (inHand_signalMsg _) (res_signalMsg _)
        (by rw [signalMsg_control, hcontrol]; simp))
  | quit =>
      obtain ⟨hcontrol, -, rfl⟩ := quit_cases hstep
      exact conserved_of_same rfl rfl rfl (held_congr (inHand_signalWork _) (res_signalWork _)
        (by rw [signalWork_control, hcontrol]; simp))
  | join =>
      obtain ⟨hcontrol, hpos, rfl⟩ := join_cases hstep
      simp [frees, drops, obtains, held, kept, inHand, hpos, hcontrol]

/-- **No step loses a result**, but the one that ends the thread with it. -/
theorem conserves_results :
    Conserves (Fires State.step) State.Ok obtains (fun s act => s.frees act ++ s.drops act)
      held := by
  intro s act t hok hstep
  cases act with
  | thread act => exact conserved_thread hok hstep
  | loop act => exact conserved_loop hstep
  | wake =>
      unfold Fires State.step at hstep
      dsimp only at hstep
      split at hstep
      · obtain rfl := Option.some.inj hstep
        exact conserved_of_same rfl rfl rfl
          (held_congr (inHand_signalWork s) (res_signalWork s) (by rw [signalWork_control]))
      · obtain rfl := Option.some.inj hstep
        exact conserved_of_same rfl rfl rfl
          (held_congr (inHand_signalMsg s) (res_signalMsg s) (by rw [signalMsg_control]))
      · cases hstep

/-! ## While the delegate has a result -/

/-- The message is with the run loop: its flag is set, until the worker is told to end. -/
structure Delivering (s : State) : Prop where
  queued : s.queued = true → s.called = true ∨ s.destroyed = true
  inCall : s.control = .inCall ∨ s.control = .releasing → s.called = true ∧ s.queued = false

/-- A step that leaves the message alone. -/
theorem Delivering.of_same (h : s.Delivering) (hcontrol : t.control = s.control)
    (hqueued : t.queued = s.queued) (hcalled : t.called = s.called)
    (hdestroyed : t.destroyed = s.destroyed) : t.Delivering where
  queued := by
    rw [hqueued, hcalled, hdestroyed]
    exact h.queued
  inCall := by
    rw [hcontrol, hcalled, hqueued]
    exact h.inCall

theorem Delivering.signalWork (h : s.Delivering) : s.signalWork.Delivering := by
  unfold State.signalWork
  split
  · exact h.of_same rfl rfl rfl rfl
  · exact h

theorem Delivering.signalMsg (h : s.Delivering) : s.signalMsg.Delivering := by
  unfold State.signalMsg
  split
  · exact h.of_same rfl rfl rfl rfl
  · exact h

theorem Delivering.thread {act : ThreadAction} (hok : s.Ok) (h : s.Delivering)
    (hstep : s.threadStep act = some t) : t.Delivering := by
  cases act with
  | lockWork =>
      obtain ⟨-, -, ⟨-, rfl⟩ | ⟨-, rfl⟩⟩ := lockWork_cases hstep
      all_goals exact h.of_same rfl rfl rfl rfl
  | check =>
      obtain ⟨-, ⟨-, rfl⟩ | ⟨-, rfl⟩⟩ := check_cases hstep
      all_goals exact h.of_same rfl rfl rfl rfl
  | take =>
      obtain ⟨-, hs, rest, -, rfl⟩ := take_cases hstep
      exact h.of_same rfl rfl rfl rfl
  | lookup res =>
      obtain ⟨work, -, rfl⟩ := lookup_cases hstep
      exact h.of_same rfl rfl rfl rfl
  | enter =>
      obtain ⟨work, res, -, -, ⟨-, rfl⟩ | ⟨-, -, rfl⟩ | ⟨-, -, rfl⟩⟩ := enter_cases hstep
      all_goals exact h.of_same rfl rfl rfl rfl
  | publish =>
      obtain ⟨work, res, hpos, rfl⟩ := publish_cases hstep
      refine ⟨fun _ => .inl rfl, fun hin => ?_⟩
      have hcalled := (h.inCall hin).1
      rw [hok.uncalled work res hpos] at hcalled
      cases hcalled
  | leave =>
      obtain ⟨-, rfl⟩ := leave_cases hstep
      exact h.of_same rfl rfl rfl rfl

theorem Delivering.loop {act : LoopAction} (hok : s.Ok) (h : s.Delivering)
    (hstep : s.loopStep act = some t) : t.Delivering := by
  cases act with
  | startWork addr hs =>
      obtain ⟨-, -, rfl⟩ := startWork_cases hstep
      exact Delivering.signalWork (h.of_same rfl rfl rfl rfl)
  | deliver =>
      obtain ⟨⟨hidle, hqueued⟩, rfl⟩ := guarded_cases hstep
      have hcalled : s.called = true := (h.queued hqueued).resolve_right fun hgone => by
        rw [hok.told, hidle] at hgone
        cases hgone
      exact ⟨fun hin => by simp at hin, fun _ => ⟨hcalled, rfl⟩⟩
  | ret =>
      obtain ⟨hin, rfl⟩ := guarded_cases hstep
      exact ⟨h.queued, fun _ => h.inCall (.inl hin)⟩
  | release =>
      obtain ⟨hcontrol, -, rfl⟩ := release_cases hstep
      have hqueued := (h.inCall (.inr hcontrol)).2
      exact Delivering.signalMsg ⟨fun hin => by simp [hqueued] at hin, by simp⟩
  | destroy =>
      obtain ⟨-, rfl⟩ := guarded_cases hstep
      exact ⟨h.queued, by simp⟩
  | requestTermination =>
      obtain ⟨-, -, rfl⟩ := requestTermination_cases hstep
      exact Delivering.signalMsg ⟨fun _ => .inr rfl, by simp⟩
  | quit =>
      obtain ⟨-, -, rfl⟩ := quit_cases hstep
      exact Delivering.signalWork ⟨h.queued, by simp⟩
  | join =>
      obtain ⟨-, -, rfl⟩ := join_cases hstep
      exact ⟨h.queued, by simp⟩

theorem Delivering.step {act : Action} (hok : s.Ok) (h : s.Delivering)
    (hstep : s.step act = some t) : t.Delivering := by
  cases act with
  | thread act => exact h.thread hok hstep
  | loop act => exact h.loop hok hstep
  | wake =>
      unfold State.step at hstep
      dsimp only at hstep
      split at hstep
      · exact Option.some.inj hstep ▸ h.signalWork
      · exact Option.some.inj hstep ▸ h.signalMsg
      · cases hstep

theorem delivering_of_run {tr : List (State × Action)} (hrun : Runs .init tr s) : s.Delivering :=
  (hrun.invariant (I := fun s => s.Ok ∧ s.Delivering)
    (fun _ _ _ h hstep => ⟨h.1.step hstep, h.2.step h.1 hstep⟩)
    ⟨Ok.init, by decide, by decide⟩).2

/-- While the delegate has the result, no step frees one. -/
theorem frees_inCall {act : Action} (hok : s.Ok) (h : s.Delivering) (hin : s.control = .inCall)
    (hstep : s.step act = some t) : s.frees act = [] := by
  cases act with
  | thread act =>
      cases act with
      | publish =>
          obtain ⟨work, res, hpos, -⟩ := publish_cases hstep
          have hcalled := (h.inCall (.inl hin)).1
          rw [hok.uncalled work res hpos] at hcalled
          cases hcalled
      | _ => rfl
  | loop act =>
      cases act with
      | join =>
          obtain ⟨hcontrol, -⟩ := join_cases hstep
          rw [hin] at hcontrol
          cases hcontrol
      | _ => rfl
  | wake => rfl

end State

/-- **Where the results are.**  After every run of the two threads, each result that
`getaddrinfo` has returned has been freed, or is kept by the worker, or is in the hand of its
thread, or has been dropped when that ended: one of these, and once.  And while the delegate has
a result, nothing is freed. -/
theorem results_accounted {tr : List (State × Action)} {s : State} (hrun : Runs .init tr s) :
    (flow State.frees tr ++ flow State.drops tr ++ s.held).Perm (flow State.obtains tr) ∧
      ∀ p ∈ tr, p.1.control = .inCall → p.1.frees p.2 = [] := by
  constructor
  · have hflow := State.conserves_results.flow (fun _ _ _ h hstep => h.step hstep) hrun
      State.Ok.init
    exact ((flow_append_perm State.frees State.drops tr).append_right _).trans hflow
  · intro p hp hin
    obtain ⟨pre, -, t, -, hpre, hstep, -⟩ := hrun.of_mem hp
    exact State.frees_inCall (State.ok_of_run hpre) (State.delivering_of_run hpre) hin hstep

/-- Three lookups, of which the third is in the hand of the thread while the delegate has the
second; the first has been freed. -/
theorem results_accounted_example : ∃ tr s, Runs .init tr s ∧ s.control = .inCall ∧
    flow State.obtains tr = [11, 12, 13] ∧ flow State.frees tr = [11] ∧ s.held = [12, 13] ∧
    (flow State.frees tr ++ flow State.drops tr ++ s.held).Perm (flow State.obtains tr) ∧
      ∀ p ∈ tr, p.1.control = .inCall → p.1.frees p.2 = [] := by
  let lookup (n : ℕ) : List Action :=
    [.thread .lockWork, .thread .check, .thread .take, .thread (.lookup (some n)), .thread .enter]
  let as : List Action :=
    [.loop (.startWork 1 ⟨"a", "http"⟩), .loop (.startWork 1 ⟨"b", "http"⟩),
      .loop (.startWork 1 ⟨"c", "http"⟩)] ++ lookup 11 ++ [.thread .publish, .thread .leave,
      .loop .deliver, .loop .ret, .loop .release] ++ lookup 12 ++ [.thread .publish, .thread .leave,
      .loop .deliver] ++ lookup 13
  let s := (exec State.step .init as).get (by decide)
  have hs : exec State.step .init as = some s := (Option.some_get _).symm
  have hrun := (exec_trace _ _ _ _ hs).1
  exact ⟨_, s, hrun, by decide, by decide, by decide, by decide, results_accounted hrun⟩

/-! ## What a worker that is told to end does not free -/

namespace State

variable {s t : State}

/-- The thread has been told to end, and is not inside an `ActiveCall`. -/
structure Told (s : State) : Prop where
  gone : s.destroyed = true
  quiet : s.called = false
  out : ∀ work res, s.position ≠ .inside work res

theorem Told.signalWork (h : s.Told) : s.signalWork.Told := by
  unfold State.signalWork
  split
  · exact ⟨h.gone, h.quiet, fun _ _ => Position.noConfusion⟩
  · exact h

theorem Told.signalMsg (h : s.Told) : s.signalMsg.Told := by
  unfold State.signalMsg
  split
  · exact ⟨h.gone, h.quiet, fun _ _ => Position.noConfusion⟩
  · exact h

theorem Told.of_request (hok : s.Ok) (hstep : s.step (.loop .requestTermination) = some t) :
    t.Told := by
  obtain ⟨-, hfree, rfl⟩ := requestTermination_cases hstep
  refine Told.signalMsg ⟨rfl, rfl, fun work res hpos => ?_⟩
  have hmsg := hok.msgHolder
  rw [hfree, show s.position = .inside work res from hpos] at hmsg
  cases hmsg

theorem Told.step {act : Action} (hok : s.Ok) (h : s.Told) (hstep : s.step act = some t) :
    t.Told := by
  cases act with
  | thread act =>
      cases act with
      | lockWork =>
          obtain ⟨-, -, ⟨-, rfl⟩ | ⟨-, rfl⟩⟩ := lockWork_cases hstep
          all_goals exact ⟨h.gone, h.quiet, fun _ _ => Position.noConfusion⟩
      | check =>
          obtain ⟨-, ⟨-, rfl⟩ | ⟨-, rfl⟩⟩ := check_cases hstep
          all_goals exact ⟨h.gone, h.quiet, fun _ _ => Position.noConfusion⟩
      | take =>
          obtain ⟨-, hs, rest, -, rfl⟩ := take_cases hstep
          exact ⟨h.gone, h.quiet, fun _ _ => Position.noConfusion⟩
      | lookup res =>
          obtain ⟨work, -, rfl⟩ := lookup_cases hstep
          exact ⟨h.gone, h.quiet, fun _ _ => Position.noConfusion⟩
      | enter =>
          obtain ⟨work, res, -, -, ⟨-, rfl⟩ | ⟨-, -, rfl⟩ | ⟨-, hgone, -⟩⟩ := enter_cases hstep
          · exact ⟨h.gone, h.quiet, fun _ _ => Position.noConfusion⟩
          · exact ⟨h.gone, h.quiet, fun _ _ => Position.noConfusion⟩
          · exact absurd h.gone (by simp [hgone])
      | publish =>
          obtain ⟨work, res, hpos, -⟩ := publish_cases hstep
          exact absurd hpos (h.out work res)
      | leave =>
          obtain ⟨-, rfl⟩ := leave_cases hstep
          exact ⟨h.gone, h.quiet, fun _ _ => Position.noConfusion⟩
  | loop act =>
      rcases loop_told (hok.told.symm.trans h.gone) hstep with rfl | rfl
      · obtain ⟨-, -, rfl⟩ := quit_cases hstep
        exact Told.signalWork ⟨h.gone, h.quiet, h.out⟩
      · obtain ⟨-, -, rfl⟩ := join_cases hstep
        exact ⟨h.gone, h.quiet, h.out⟩
  | wake =>
      unfold State.step at hstep
      dsimp only at hstep
      split at hstep
      · exact Option.some.inj hstep ▸ h.signalWork
      · exact Option.some.inj hstep ▸ h.signalMsg
      · cases hstep

/-- What the thread has in its hand then, and obtains later, it drops. -/
theorem conserves_told :
    Conserves (Fires State.step) (fun s => s.Ok ∧ s.Told) obtains drops inHand := by
  rintro s act t ⟨hok, htold⟩ hstep
  have hsame : s.obtains act = [] → s.drops act = [] → t.inHand = s.inHand →
      (s.drops act ++ t.inHand).Perm (s.inHand ++ s.obtains act) := by
    intro hobtains hdrops hhand
    rw [hobtains, hdrops, hhand]
    simp
  cases act with
  | thread act =>
      cases act with
      | lockWork =>
          obtain ⟨hpos, -, ⟨-, rfl⟩ | ⟨-, rfl⟩⟩ := lockWork_cases hstep
          all_goals exact hsame rfl rfl (by simp [inHand, hpos])
      | check =>
          obtain ⟨hpos, ⟨-, rfl⟩ | ⟨-, rfl⟩⟩ := check_cases hstep
          all_goals exact hsame rfl rfl (by simp [inHand, hpos])
      | take =>
          obtain ⟨hpos, hs, rest, -, rfl⟩ := take_cases hstep
          exact hsame rfl rfl (by simp [inHand, hpos])
      | lookup res =>
          obtain ⟨work, hpos, rfl⟩ := lookup_cases hstep
          simp [drops, obtains, inHand, hpos]
      | enter =>
          obtain ⟨work, res, hpos, -, ⟨hcalled, -⟩ | ⟨hcalled, hgone, rfl⟩ | ⟨-, hgone, -⟩⟩ :=
            enter_cases hstep
          · exact absurd htold.quiet (by simp [hcalled])
          · simp [drops, obtains, inHand, hpos, hcalled, hgone]
          · exact absurd htold.gone (by simp [hgone])
      | publish =>
          obtain ⟨work, res, hpos, -⟩ := publish_cases hstep
          exact absurd hpos (htold.out work res)
      | leave =>
          obtain ⟨hpos, rfl⟩ := leave_cases hstep
          exact hsame rfl rfl (by simp [inHand, hpos])
  | loop act =>
      rcases loop_told (hok.told.symm.trans htold.gone) hstep with rfl | rfl
      · obtain ⟨-, -, rfl⟩ := quit_cases hstep
        exact hsame rfl rfl (inHand_signalWork _)
      · obtain ⟨-, -, rfl⟩ := join_cases hstep
        exact hsame rfl rfl rfl
  | wake =>
      unfold Fires State.step at hstep
      dsimp only at hstep
      split at hstep
      · exact hsame rfl rfl (Option.some.inj hstep ▸ inHand_signalWork s)
      · exact hsame rfl rfl (Option.some.inj hstep ▸ inHand_signalMsg s)
      · cases hstep

/-- Nothing is dropped before the worker is told to end. -/
theorem drops_eq_nil {tr : List (State × Action)} (hrun : Runs .init tr s)
    (hlive : s.control.told = false) : flow drops tr = [] := by
  refine List.flatMap_eq_nil_iff.mpr fun p hp => ?_
  have hnot : ¬ p.1.control.told = true :=
    hrun.not_visited (fun _ _ _ h hstep => told_step h hstep)
      (by rw [hlive]; exact Bool.false_ne_true) p.1 (mem_visited.mpr (.inl ⟨p, hp, rfl⟩))
  obtain ⟨pre, -, t, -, hpre, -, -⟩ := hrun.of_mem hp
  have hdestroyed : p.1.destroyed = false := (ok_of_run hpre).told.trans (eq_false_of_ne_true hnot)
  unfold drops
  split
  · split
    · simp [hdestroyed]
    · rfl
  · rfl

end State

/-- **What is never freed.**  When `~Worker` has returned, the worker has freed exactly the
results that it obtained before it was told to end, but for one that was in the hand of its
thread then; this one, and what `getaddrinfo` returned later, is lost. -/
theorem results_dropped {tr tr' : List (State × Action)} {s s' t : State}
    (hreach : Runs .init tr s) (hrequest : s.step (.loop .requestTermination) = some s')
    (hrun : Runs s' tr' t) (hjoined : t.control = .joined) :
    (flow State.frees (tr ++ (s, .loop .requestTermination) :: tr') ++ s.inHand).Perm
        (flow State.obtains tr) ∧
      (flow State.drops (tr ++ (s, .loop .requestTermination) :: tr')).Perm
        (s.inHand ++ flow State.obtains tr') := by
  have hok := State.ok_of_run hreach
  have hok' := hok.step hrequest
  obtain ⟨hdestroying, -, hs'⟩ := State.requestTermination_cases hrequest
  have hwhole : Runs .init (tr ++ (s, .loop .requestTermination) :: tr') t :=
    hreach.append (Run.cons_iff.mpr ⟨rfl, s', hrequest, hrun⟩)
  have hended : t.inHand = [] := by
    rw [State.inHand, (State.ok_of_run hwhole).ended hjoined]
  have hheld : t.held = [] := by
    rw [State.held, State.kept, if_pos hjoined, hended]
    rfl
  have hhand : s'.inHand = s.inHand := by
    rw [hs', State.inHand_signalMsg]
    rfl
  have hafter := State.conserves_told.flow
    (fun _ _ _ h hstep => ⟨h.1.step hstep, h.2.step h.1 hstep⟩) hrun
    ⟨hok', State.Told.of_request hok hrequest⟩
  rw [hended, List.append_nil, hhand] at hafter
  have hdrops : flow State.drops (tr ++ (s, .loop .requestTermination) :: tr') =
      flow State.drops tr' := by
    rw [flow_append, State.drops_eq_nil hreach (by rw [hdestroying]; rfl)]
    rfl
  have hobtains : flow State.obtains (tr ++ (s, .loop .requestTermination) :: tr') =
      flow State.obtains tr ++ flow State.obtains tr' :=
    flow_append _ _ _
  refine ⟨?_, hdrops ▸ hafter⟩
  have hall := (results_accounted hwhole).1
  rw [hheld, List.append_nil, hobtains, hdrops] at hall
  have hlost := (hafter.symm.append_left _).trans hall
  rw [← List.append_assoc] at hlost
  exact (List.perm_append_right_iff _).mp hlost

/-- The worker is destroyed while one result waits for the message and another has still to
come. -/
theorem results_dropped_example : ∃ tr tr' s s' t, Runs .init tr s ∧
    s.step (.loop .requestTermination) = some s' ∧ Runs s' tr' t ∧ t.control = .joined ∧
    flow State.obtains tr = [11] ∧ s.inHand = [] ∧ flow State.obtains tr' = [12] ∧
    (flow State.frees (tr ++ (s, .loop .requestTermination) :: tr') ++ s.inHand).Perm
        (flow State.obtains tr) ∧
      (flow State.drops (tr ++ (s, .loop .requestTermination) :: tr')).Perm
        (s.inHand ++ flow State.obtains tr') := by
  let before : List Action :=
    [.loop (.startWork 1 ⟨"a", "http"⟩), .loop (.startWork 1 ⟨"b", "http"⟩), .thread .lockWork,
      .thread .check, .thread .take, .thread (.lookup (some 11)), .thread .enter,
      .thread .publish, .thread .leave, .thread .lockWork, .thread .check, .thread .take,
      .loop .destroy]
  let after : List Action :=
    [.loop .quit, .thread (.lookup (some 12)), .thread .enter, .loop .join]
  let s := (exec State.step .init before).get (by decide)
  have hs : exec State.step .init before = some s := (Option.some_get _).symm
  let s' := (s.step (.loop .requestTermination)).get (by decide)
  have hs' : s.step (.loop .requestTermination) = some s' := (Option.some_get _).symm
  let t := (exec State.step s' after).get (by decide)
  have ht : exec State.step s' after = some t := (Option.some_get _).symm
  have hrun := (exec_trace _ _ _ _ hs).1
  have hrun' := (exec_trace _ _ _ _ ht).1
  exact ⟨_, _, s, s', t, hrun, hs', hrun', by decide, by decide, by decide, by decide,
    results_dropped hrun hs' hrun' (by decide)⟩

end Shutdown

end Resolver

end Craplib
