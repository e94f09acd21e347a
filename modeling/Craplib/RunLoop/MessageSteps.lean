import Craplib.Lib.Mailbox
import Craplib.RunLoop.HandOff

/-!
# What the steps of the run loop and its threads do

`Advance` says it once for every step, and `step_advance` that it holds of them all.  A step
is a step of the hand-off; seen as a mailbox, the calls that wait for their `onCall` take
the move of the step's label; a step refers to no call that has not been referred to
before, except for the one it numbers; and a loop that waits has forgotten the last message
and does not sleep while its condition is true, because who makes it true also wakes the
loop.  A call is lost only by the second half of `RunLoop::dequeue` (`loses`).
-/

namespace Craplib

namespace Messages

open Machine

namespace State

/-- The message that has been popped and not been released. -/
def active (s : State) : Option Call :=
  match s.control with
  | .popped | .inCall | .called => s.processedMsg
  | _ => none

/-- What the loop shares with the threads. -/
def handOff (s : State) : HandOff where
  msgs := s.msgs
  active := s.active
  queue := s.queue
  flag := s.flag
  mutex := s.mutex
  threads := s.threads
  next := s.next

/-- The calls whose `onCall` is still to come, in order. -/
def pending (s : State) : List Call :=
  match s.control with
  | .popped => s.processedMsg.toList ++ s.queue
  | _ => s.queue

/-- The calls that the loop refers to. -/
def refs (s : State) : List Call := s.processedMsg.toList ++ s.queue

/-- A loop that waits has forgotten the last message, and it sleeps only while its
condition is false. -/
def Forgets (s : State) : Prop :=
  match s.control with
  | .locking _ _ => s.processedMsg = none
  | .asleep _ => s.processedMsg = none ∧ s.flag = false
  | _ => True

structure Waiting (s : State) : Prop where
  forgets : s.Forgets
  /-- Only the program destroys messages. -/
  place : s.newEnd = none ∨ s.control.inProgram = true

/-- The call that a thread is about to put into the queue. -/
def pushing (s : State) (t : ThreadId) : Option Call :=
  match s.threads[t]? with
  | some (.inside msg .locked) => some { msg := msg, number := s.next }
  | _ => none

/-- What a step means for the calls that wait for their `onCall`. -/
def label (s : State) : Action → Option (Mailbox.Action Call)
  | .thread t .pushBack => (s.pushing t).map .push
  | .loop .onCall => s.processedMsg.map .take
  | .handler (.destroy msg) => some (.withdraw fun call => call.msg = msg)
  | .erase => s.newEnd.map .cut
  | _ => none

/-- The calls whose message has not been destroyed, and which are erased with what
`std::remove` has left over. -/
def loses (s : State) : Action → List Call
  | .erase => s.newEnd.elim [] s.pending.drop
  | _ => []

/-- **What a step does**, by its label, and the calls that get lost in it. -/
structure Advance (s t : State) (b : Option (Mailbox.Action Call)) (lost : List Call := []) :
    Prop where
  handOff : HandOff.Step s.handOff lost t.handOff
  waiting : t.Waiting
  moves : Moves Mailbox.Step s.pending b t.pending
  /-- A call that comes into the queue gets the next number. -/
  numbers : (t.next = s.next ∧ ∀ call, b ≠ some (.push call)) ∨
    t.next = s.next + 1 ∧ ∃ call, b = some (.push call) ∧ call.number = s.next
  refs : t.refs.Sublist (s.refs ++ (b.bind Mailbox.Action.pushed).toList)

variable {s t : State}

section Advance

variable {b : Option (Mailbox.Action Call)} {lost : List Call}

theorem Advance.mem_refs (h : Advance s t b lost) {call : Call} (hcall : call ∈ t.refs) :
    call ∈ s.refs ∨ b = some (.push call) := by
  refine (List.mem_append.mp (h.refs.subset hcall)).imp_right fun hpushed => ?_
  rw [Option.mem_toList, Option.bind_eq_some_iff] at hpushed
  obtain ⟨act, rfl, hact⟩ := hpushed
  cases act with
  | push letter => rw [Option.some.inj hact]
  | take _ | withdraw _ | cut _ => cases hact

/-- The numbers go up. -/
theorem Advance.next_le (h : Advance s t b lost) : s.next ≤ t.next := by
  rcases h.numbers with ⟨hnext, -⟩ | ⟨hnext, -⟩
  · exact Nat.le_of_eq hnext.symm
  · exact hnext ▸ Nat.le_succ _

/-- A call that the loop knows of after a step it has known before, or it is the next one. -/
theorem Advance.old_or_new (h : Advance s t b lost) {call : Call} (hcall : call ∈ t.refs) :
    call ∈ s.refs ∨ t.next = s.next + 1 ∧ call.number = s.next := by
  refine (h.mem_refs hcall).imp_right fun hpush => ?_
  rcases h.numbers with ⟨-, hno⟩ | ⟨hnext, call', hb, hnumber⟩
  · exact absurd hpush (hno call)
  · rw [hb, Option.some.injEq, Mailbox.Action.push.injEq] at hpush
    exact ⟨hnext, hpush ▸ hnumber⟩

end Advance

/-! ## Steps of the threads -/

/-- A step that the control of the loop and its queue do not notice. -/
theorem advance_unnoticed (hw : s.Waiting) (handOff : HandOff.Step s.handOff [] t.handOff)
    (control : t.control = s.control) (processedMsg : t.processedMsg = s.processedMsg)
    (flag : t.flag = s.flag) (queue : t.queue = s.queue) (next : t.next = s.next)
    (newEnd : t.newEnd = s.newEnd) : Advance s t none where
  handOff := handOff
  waiting := by
    refine ⟨?_, by rw [newEnd, control]; exact hw.place⟩
    rw [Forgets, control, processedMsg, flag]
    exact hw.forgets
  moves := by
    change t.pending = s.pending
    unfold pending
    rw [control, processedMsg, queue]
  numbers := .inl ⟨next, nofun⟩
  refs := by
    unfold refs
    rw [processedMsg, queue]
    exact List.sublist_append_left _ _

theorem advance_pushBack {i : ThreadId} {msg : MsgPtr} (hw : s.Waiting)
    (hphase : s.threads[i]? = some (.inside msg .locked)) :
    Advance s
      ({ s with queue := s.queue ++ [Call.mk msg s.next], next := s.next + 1 }.setPhase i
        (.inside msg .pushed)) (some (.push (Call.mk msg s.next))) where
  handOff := .pushBack hphase
  waiting := ⟨hw.forgets, hw.place⟩
  moves := by
    have hpending : State.pending
        ({ s with queue := s.queue ++ [Call.mk msg s.next], next := s.next + 1 }.setPhase i
          (.inside msg .pushed)) = s.pending ++ [Call.mk msg s.next] := by
      unfold pending setPhase
      cases s.control <;> simp
    rw [hpending]
    exact .push _ _
  numbers := .inr ⟨rfl, _, rfl, rfl⟩
  refs := by
    change (s.processedMsg.toList ++ (s.queue ++ [Call.mk msg s.next])).Sublist
      (s.refs ++ [Call.mk msg s.next])
    rw [← List.append_assoc]
    exact .refl _

/-- `lock.set` in `RunLoop::enqueue` wakes the loop. -/
theorem advance_signal {i : ThreadId} {msg : MsgPtr} (hw : s.Waiting)
    (hphase : s.threads[i]? = some (.inside msg .pushed)) :
    Advance s ((s.setFlag (!s.queue.isEmpty)).setPhase i (.inside msg .signalled)) none where
  handOff := by
    have hactive : (s.setFlag (!s.queue.isEmpty)).active = s.active := by
      unfold setFlag active
      cases s.control <;> rfl
    have hsame : (s.setFlag (!s.queue.isEmpty)).handOff =
        { s.handOff with flag := !s.queue.isEmpty } := by
      unfold handOff
      rw [hactive]
      rfl
    change HandOff.Step s.handOff [] ((s.setFlag (!s.queue.isEmpty)).handOff.setPhase i _)
    rw [hsame]
    exact .signal hphase
  waiting := by
    obtain ⟨hforgets, hplace⟩ := hw
    constructor
    · unfold Forgets at hforgets ⊢
      unfold setFlag setPhase
      cases hcontrol : s.control with
      | asleep timed =>
          rw [hcontrol] at hforgets
          exact hforgets.1
      | locking timed timedOut =>
          rw [hcontrol] at hforgets
          exact hforgets
      | outside | turn | popped | inCall | called | timers | inTimer => trivial
    · refine hplace.imp_right fun huser => ?_
      unfold setFlag setPhase
      cases hcontrol : s.control with
      | asleep timed =>
          rw [hcontrol] at huser
          cases huser
      | locking _ _ | outside | turn | popped | inCall | called | timers | inTimer =>
          rw [hcontrol] at huser
          exact huser
  moves := by
    change State.pending _ = s.pending
    unfold pending setFlag setPhase
    cases s.control <;> rfl
  numbers := .inl ⟨rfl, nofun⟩
  refs := List.sublist_append_left _ _

theorem threadStep_advance {i : ThreadId} {act : ThreadAction} (hw : s.Waiting)
    (h : s.threadStep i act = some t) : Advance s t (s.label (.thread i act)) := by
  unfold threadStep at h
  split at h
  · next msg hphase =>
      split_ifs at h
      cases h
      exact advance_unnoticed hw (.roam hphase (fun _ _ => nofun) (fun _ _ => nofun))
        rfl rfl rfl rfl rfl rfl
  · next msg hphase =>
      split at h
      · next m hm =>
          split_ifs at h with hfree hdestroyed
          · cases h
            exact advance_unnoticed hw (.roam hphase (fun _ _ => nofun) (fun _ _ => nofun))
              rfl rfl rfl rfl rfl rfl
          · cases h
            exact advance_unnoticed hw
              (.enter hphase hm hfree.1 hfree.2 (Bool.eq_false_iff.mpr hdestroyed))
              rfl rfl rfl rfl rfl rfl
      · cases h
  · next msg hphase =>
      obtain ⟨m, hm, rfl⟩ := Option.map_eq_some_iff.mp h
      exact advance_unnoticed hw (.setFlag hphase hm) rfl rfl rfl rfl rfl rfl
  · next msg hphase =>
      split_ifs at h with hfree
      cases h
      exact advance_unnoticed hw (.lockLoop hphase hfree) rfl rfl rfl rfl rfl rfl
  · next msg hphase =>
      cases h
      rw [label, pushing, hphase]
      exact advance_pushBack hw hphase
  · next msg hphase =>
      cases h
      exact advance_signal hw hphase
  · next msg hphase =>
      cases h
      exact advance_unnoticed hw (.unlockLoop hphase) rfl rfl rfl rfl rfl rfl
  · next msg hphase =>
      obtain ⟨m, hm, rfl⟩ := Option.map_eq_some_iff.mp h
      exact advance_unnoticed hw (.leave hphase rfl hm) rfl rfl rfl rfl rfl rfl
  · next msg hphase =>
      obtain ⟨m, hm, rfl⟩ := Option.map_eq_some_iff.mp h
      exact advance_unnoticed hw (.leave hphase rfl hm) rfl rfl rfl rfl rfl rfl
  · next hphase =>
      cases h
      exact advance_unnoticed hw (.roam hphase (fun _ _ => nofun) (fun _ _ => nofun))
        rfl rfl rfl rfl rfl rfl
  · cases h

/-! ## Steps of the loop -/

/-- The loop moves on and touches nothing that it shares. -/
theorem advance_control {control : Control} {processedMsg : Option Call} {running : Bool}
    (hactive : State.active { s with control := control, processedMsg := processedMsg } = s.active)
    (hdone : s.newEnd = none)
    (hforgets : State.Forgets { s with control := control, processedMsg := processedMsg })
    (hprocessed : ∀ call, processedMsg = some call → s.processedMsg = some call)
    {b : Option (Mailbox.Action Call)} (hb : ∀ call, b ≠ some (.push call))
    (hmoves : Moves Mailbox.Step s.pending b
      (State.pending { s with control := control, processedMsg := processedMsg })) :
    Advance s { s with control := control, processedMsg := processedMsg, running := running }
      b where
  handOff := by
    have hsame : State.handOff
        { s with control := control, processedMsg := processedMsg, running := running } =
          s.handOff := by
      unfold handOff
      congr 1
    rw [hsame]
    exact .idle
  waiting := ⟨hforgets, .inl hdone⟩
  moves := hmoves
  numbers := .inl ⟨rfl, hb⟩
  refs := by
    refine List.Sublist.trans ?_ (List.sublist_append_left _ _)
    refine List.Sublist.append_right ?_ s.queue
    cases processedMsg with
    | none => exact List.nil_sublist _
    | some call =>
        rw [hprocessed call rfl]

/-- …and takes no message out. -/
theorem advance_quiet {control : Control} {processedMsg : Option Call} {running : Bool}
    (hactive : State.active { s with control := control, processedMsg := processedMsg } = s.active)
    (hdone : s.newEnd = none)
    (hforgets : State.Forgets { s with control := control, processedMsg := processedMsg })
    (hprocessed : ∀ call, processedMsg = some call → s.processedMsg = some call)
    (hpending :
      State.pending { s with control := control, processedMsg := processedMsg } = s.pending) :
    Advance s { s with control := control, processedMsg := processedMsg, running := running }
      none :=
  advance_control hactive hdone hforgets hprocessed nofun hpending

theorem advance_pop {timed timedOut : Bool} (hw : s.Waiting)
    (hcontrol : s.control = .locking timed timedOut) (hdone : s.newEnd = none) :
    Advance s s.pop none := by
  have hforgets := hw.forgets
  have hprocessed : s.processedMsg = none := by rwa [Forgets, hcontrol] at hforgets
  have hactive : s.active = none := by rw [active, hcontrol]
  have hpending : s.pending = s.queue := by rw [pending, hcontrol]
  have hstep : HandOff.Step s.handOff [] _ := .pop hactive
  have hpop : s.pop.handOff = { s.handOff with
        active := s.queue.head?
        queue := s.queue.tail
        flag := !s.queue.tail.isEmpty } ∧
      s.pop.pending = s.queue ∧ s.pop.refs = s.queue ∧ s.pop.Forgets ∧ s.pop.next = s.next ∧
      s.pop.newEnd = s.newEnd := by
    unfold pop
    cases hqueue : s.queue with
    | nil => simp [handOff, active, pending, refs, Forgets, hprocessed, hqueue]
    | cons call rest => exact ⟨rfl, rfl, rfl, trivial, rfl, rfl⟩
  obtain ⟨hhandOff, hpending', hrefs, hforgets, hnext, hnewEnd⟩ := hpop
  refine ⟨?_, ⟨hforgets, .inl (hnewEnd.trans hdone)⟩, hpending'.trans hpending.symm,
    .inl ⟨hnext, nofun⟩, ?_⟩
  · rw [hhandOff]
    exact hstep
  · rw [hrefs]
    exact (List.sublist_append_right _ _).trans (List.sublist_append_left _ _)

theorem advance_release {call : Call} {m : ActiveMsg} (hcontrol : s.control = .called)
    (hdone : s.newEnd = none) (hprocessed : s.processedMsg = some call)
    (hm : s.msgs call.msg = some m) (hfree : m.mutex = none) :
    Advance s { s.setMsg call.msg { m with flag := false } with control := .timers } none where
  handOff := by
    have hactive : s.active = some call := by rw [active, hcontrol, hprocessed]
    exact .release hactive hm hfree
  waiting := ⟨trivial, .inl hdone⟩
  moves := by
    have hpending : s.pending = s.queue := by rw [pending, hcontrol]
    exact hpending.symm
  numbers := .inl ⟨rfl, nofun⟩
  refs := List.sublist_append_left _ _

theorem loopStep_advance {act : LoopAction} (hw : s.Waiting) (hdone : s.newEnd = none)
    (h : s.loopStep act = some t) : Advance s t (s.label (.loop act)) := by
  unfold loopStep at h
  split at h
  · next timed hcontrol =>
      cases h
      exact advance_quiet (by simp [active, hcontrol]) hdone rfl nofun (by simp [pending, hcontrol])
  · next timed timedOut hcontrol =>
      have hforgets := hw.forgets
      rw [Forgets, hcontrol] at hforgets
      split_ifs at h with hfree htest
      · cases h
        exact advance_pop hw hcontrol hdone
      · cases h
        have hflag : s.flag = false := by
          rw [Bool.or_eq_true, not_or] at htest
          exact Bool.eq_false_iff.mpr htest.1
        exact advance_quiet (by simp [active, hcontrol]) hdone ⟨hforgets, hflag⟩ (fun _ => id)
          (by simp [pending, hcontrol])
  · next timedOut timed hcontrol =>
      have hforgets := hw.forgets
      rw [Forgets, hcontrol] at hforgets
      split_ifs at h
      cases h
      exact advance_quiet (by simp [active, hcontrol]) hdone hforgets.1 (fun _ => id)
        (by simp [pending, hcontrol])
  · next hcontrol =>
      cases h
      cases hprocessed : s.processedMsg with
      | none =>
          rw [label, hprocessed]
          exact advance_quiet (by simp [active, hcontrol, hprocessed]) hdone trivial nofun
            (by simp [pending, hcontrol, hprocessed])
      | some call =>
          have hpending : s.pending = call :: s.queue := by
            rw [pending, hcontrol, hprocessed]
            rfl
          have hadvance : Advance s { s with control := .inCall, processedMsg := some call }
              (some (.take call)) := by
            refine advance_control ?_ hdone ?_ (fun _ heq => hprocessed.trans heq) nofun ?_
            · simp [active, hcontrol, hprocessed]
            · trivial
            · rw [hpending]
              exact .take call s.queue
          rw [label, hprocessed]
          exact hadvance
  · next hcontrol =>
      cases h
      exact advance_quiet (by simp [active, hcontrol]) hdone trivial (fun _ => id)
        (by simp [pending, hcontrol])
  · next hcontrol =>
      split at h
      · next hprocessed =>
          cases h
          exact advance_quiet (by simp [active, hcontrol, hprocessed]) hdone trivial (fun _ => id)
            (by simp [pending, hcontrol])
      · next call hprocessed =>
          split at h
          · next m hm =>
              split_ifs at h with hfree
              cases h
              exact advance_release hcontrol hdone hprocessed hm hfree
          · cases h
  · next hcontrol =>
      cases h
      exact advance_quiet (by simp [active, hcontrol]) hdone trivial (fun _ => id)
        (by simp [pending, hcontrol])
  · next hcontrol =>
      cases h
      exact advance_quiet (by simp [active, hcontrol]) hdone trivial (fun _ => id)
        (by simp [pending, hcontrol])
  · next timersEmpty hcontrol =>
      cases h
      generalize (if timersEmpty ∧ s.msgCnt = 0 then false else s.running) = running
      cases running with
      | false =>
        exact advance_quiet (by simp [active, hcontrol]) hdone trivial (fun _ => id)
          (by simp [pending, hcontrol])
      | true =>
        exact advance_quiet (by simp [active, hcontrol]) hdone trivial (fun _ => id)
          (by simp [pending, hcontrol])
  · cases h

/-! ## Steps of the program -/

theorem waiting_of_inProgram (huser : t.control.inProgram = true) : t.Waiting := by
  refine ⟨?_, .inr huser⟩
  rw [Forgets]
  cases hcontrol : t.control with
  | locking _ _ | asleep _ =>
      rw [hcontrol] at huser
      cases huser
  | outside | turn | popped | inCall | called | timers | inTimer => trivial

/-- While the program runs, no message is popped. -/
theorem pending_eq_queue (huser : s.control.inProgram = true) : s.pending = s.queue := by
  unfold pending
  split
  · next hcontrol =>
      rw [hcontrol] at huser
      cases huser
  · rfl

theorem advance_destroy {msg : MsgPtr} (huser : s.control.inProgram = true)
    (hunused : ∀ phase ∈ s.threads, phase.msg ≠ some msg) :
    Advance s { s.dequeue msg with msgs := Function.update s.msgs msg none }
      (some (.withdraw fun call => call.msg = msg)) where
  handOff := by
    have hactive : (s.dequeue msg).active = s.active.filter (·.msg ≠ msg) := by
      unfold dequeue active
      cases s.control <;> rfl
    have hsame : (s.dequeue msg).handOff = { s.handOff with
        active := s.active.filter (·.msg ≠ msg)
        queue := s.queue.filter (·.msg ≠ msg) } := by
      unfold handOff
      rw [hactive]
      rfl
    change HandOff.Step s.handOff []
      { (s.dequeue msg).handOff with msgs := Function.update s.msgs msg none }
    rw [hsame]
    exact .destroy hunused
  waiting := waiting_of_inProgram huser
  moves := by
    have hdequeued : State.pending { s.dequeue msg with
        msgs := Function.update s.msgs msg none } = s.queue.filter (·.msg ≠ msg) :=
      pending_eq_queue huser
    have hfilter : s.queue.filter (·.msg ≠ msg) =
        s.queue.filter fun call => !decide (call.msg = msg) := by
      simp
    rw [hfilter] at hdequeued
    rw [pending_eq_queue huser]
    refine (congrArg (Mailbox.Step s.queue _) hdequeued).mpr ?_
    exact .withdraw _ _
  numbers := .inl ⟨rfl, nofun⟩
  refs := by
    refine List.Sublist.trans ?_ (List.sublist_append_left _ _)
    refine List.Sublist.append ?_ List.filter_sublist
    change (s.processedMsg.filter _).toList.Sublist _
    rw [Option.toList_filter]
    exact List.filter_sublist

/-- Whatever has come in since `std::remove` is lost. -/
theorem erase_advance (hw : s.Waiting) (h : s.erase = some t) :
    Advance s t (s.label .erase) (s.loses .erase) := by
  obtain ⟨newEnd, hnewEnd, rfl⟩ := Option.map_eq_some_iff.mp h
  have huser : s.control.inProgram = true := hw.place.resolve_left (by simp [hnewEnd])
  have hpending : s.pending = s.queue := pending_eq_queue huser
  have herased : State.pending { s with
      queue := s.queue.take newEnd
      newEnd := none
      msgCnt := s.msgCnt - 1 } = s.queue.take newEnd := pending_eq_queue huser
  rw [label, loses, hnewEnd, Option.map_some, Option.elim_some, hpending]
  refine ⟨.erase newEnd, waiting_of_inProgram huser, ?_, .inl ⟨rfl, nofun⟩, ?_⟩
  · rw [hpending]
    refine (congrArg (Mailbox.Step s.queue _) herased).mpr ?_
    exact .cut _ _
  · refine List.Sublist.trans ?_ (List.sublist_append_left _ _)
    exact (List.take_sublist _ _).append_left _

theorem handlerStep_advance {act : HandlerAction} (hw : s.Waiting)
    (huser : s.control.inProgram = true) (hdone : s.newEnd = none)
    (h : s.handlerStep act = some t) : Advance s t (s.label (.handler act)) := by
  cases act with
  | construct msg =>
      simp only [handlerStep] at h
      split at h
      · next hfresh =>
          cases h
          exact advance_unnoticed hw (.construct hfresh) rfl rfl rfl rfl rfl rfl
      · cases h
  | requestTermination msg =>
      simp only [handlerStep] at h
      split at h
      · next m hm =>
          split_ifs at h with hfree
          cases h
          exact advance_unnoticed hw (.requestTermination hm hfree) rfl rfl rfl rfl rfl rfl
      · cases h
  | join i =>
      simp only [handlerStep] at h
      split_ifs at h
      cases h
      exact advance_unnoticed hw .idle rfl rfl rfl rfl rfl rfl
  | destroy msg =>
      simp only [handlerStep] at h
      split_ifs at h with hunused
      cases h
      exact advance_destroy huser hunused.2
  | stop =>
      cases h
      exact advance_unnoticed hw .idle rfl rfl rfl rfl rfl rfl
  | run =>
      simp only [handlerStep] at h
      split_ifs at h with hcontrol
      cases h
      exact advance_quiet (by simp [active, hcontrol]) hdone trivial (fun _ => id)
        (by simp [pending, hcontrol])

/-- **What every step does.** -/
theorem step_advance {act : Action} (hw : s.Waiting) (h : s.step act = some t) :
    Advance s t (s.label act) (s.loses act) := by
  cases act with
  | thread i act => exact threadStep_advance hw h
  | loop act =>
      obtain ⟨hdone, h⟩ := step_loop h
      exact loopStep_advance hw hdone h
  | handler act =>
      obtain ⟨huser, hdone, h⟩ := step_handler h
      exact handlerStep_advance hw huser hdone h
  | erase => exact erase_advance hw h

end State

end Messages

end Craplib
